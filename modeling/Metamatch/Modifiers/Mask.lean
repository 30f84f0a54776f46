import Metamatch.Modifiers

/-!
# Modifier masks

A mask asks for some flags to be set and for others to be clear.

* `Mask.require`, `Mask.requirePackagePrivate`: the last requirement on a flag is the one that
  counts.
* `Mask.accepts`: the test of a modifier word.
-/

namespace Metamatch

/-- The flags that must be set and those that must be clear. -/
structure Mask where
  needed : Modifiers := .empty
  forbidden : Modifiers := .empty
  deriving DecidableEq, Repr

namespace Mask

/-- The mask that accepts every word. -/
def any : Mask := {}

/-- Ask for `flags` to be set or to be clear, whatever was asked of them before. -/
def require (mask : Mask) (flags : Modifiers) (set : Bool) : Mask :=
  if set then ⟨mask.needed.union flags, mask.forbidden.diff flags⟩
  else ⟨mask.needed.diff flags, mask.forbidden.union flags⟩

/-- Ask for no access flag at all, or stop forbidding them. -/
def requirePackagePrivate (mask : Mask) (set : Bool) : Mask :=
  if set then mask.require .access false
  else { mask with forbidden := mask.forbidden.diff .access }

/-- Every flag asked for is set and none of the forbidden ones. -/
def accepts (mask : Mask) (actual : Modifiers) : Bool :=
  actual.contains mask.needed && !actual.intersects mask.forbidden

end Mask

end Metamatch
