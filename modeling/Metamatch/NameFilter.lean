/-!
# Name filters

* `NameFilter`: a name, the beginning of a name, both or neither.
* `NameFilter.accepts`: the test of a name against whatever is set.
-/

namespace Metamatch

/-- Requirements on a name; one that is absent asks for nothing. -/
structure NameFilter where
  /-- The whole name. -/
  whole : Option String := none
  /-- What the name begins with. -/
  start : Option String := none
  deriving DecidableEq, Repr

namespace NameFilter

/-- The filter that asks for the name itself. -/
def named (name : String) : NameFilter := { whole := some name }

/-- The characters of `start` come first in `name`. -/
def begins (start name : String) : Bool := start.toList.isPrefixOf name.toList

/-- A name passes when it meets every requirement that is set. -/
def accepts (filter : NameFilter) (name : String) : Bool :=
  filter.whole.all (· == name) && filter.start.all (begins · name)

end NameFilter

end Metamatch
