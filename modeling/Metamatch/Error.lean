import Metamatch.Entity

/-!
# Errors

What can go wrong, as causes, and the one place where each gets its wording.

* `LookupError`, `CatalogError`, `SessionError`, `TaskError`: errors by where they arise.
* `Explanation`: the text of an error followed by the texts of its causes.
-/

namespace Metamatch

/-- Number of a matcher within its session. -/
abbrev Slot := Nat

/-- The texts of an error: its own, then that of its cause, and so on down to the root. -/
structure Explanation where
  text : String
  causes : List String := []
  deriving DecidableEq, Repr

namespace Explanation

/-- The text of the direct cause. -/
def cause? (e : Explanation) : Option String := e.causes.head?

/-- The text of the last cause, or the error's own if there is none. -/
def root (e : Explanation) : String := e.causes.getLastD e.text

/-- The explanation of an error that wraps another one. -/
def wrap (text : String) (inner : Explanation) : Explanation :=
  ⟨text, inner.text :: inner.causes⟩

end Explanation

/-- A question about a class had no answer. -/
inductive LookupError
  | classNotFound (name : String)
  | unknownClass (id : ClassId)
  | linkage (name reason : String)
  deriving DecidableEq, Repr

namespace LookupError

def message : LookupError → String
  | .classNotFound name => s!"Class not found: {name}"
  | .unknownClass id => s!"Unknown class handle ClassId({id.index})"
  | .linkage name reason => s!"Failed to link {name}: {reason}"

def explain (e : LookupError) : Explanation := { text := e.message }

end LookupError

/-- The name lists could not be had. -/
inductive CatalogError
  | unavailable (reason : String)
  /-- Reading failed, with the system's own text. -/
  | io (reason : String)
  deriving DecidableEq, Repr

namespace CatalogError

def explain : CatalogError → Explanation
  | .unavailable reason => { text := s!"Name source unavailable: {reason}" }
  | .io reason => .wrap s!"I/O error: {reason}" { text := reason }

end CatalogError

/-- A session call or a run failed as a whole. -/
inductive SessionError
  | finalized (slot : Slot)
  /-- A matcher was published while its counter stood at `found`. -/
  | dependencyInvariant (slot : Slot) (found : Nat)
  | alreadyResolved (slot : Slot)
  | catalog (e : CatalogError)
  deriving DecidableEq, Repr

namespace SessionError

def explain : SessionError → Explanation
  | .finalized slot => { text := s!"Matcher #{slot} cannot be modified after it is finalized" }
  | .dependencyInvariant slot found =>
    { text :=
        s!"Illegal dependency count {found} for matcher #{slot} on publish (expected 1)" }
  | .alreadyResolved slot => { text := s!"Matcher #{slot} was already resolved" }
  | .catalog e => .wrap s!"Failed to retrieve name catalog: {e.explain.text}" e.explain

def message (e : SessionError) : String := e.explain.text

end SessionError

/-- What a crash carries: a text, or something without one. -/
inductive Payload
  | text (message : String)
  | other
  deriving DecidableEq, Repr

def Payload.message : Payload → String
  | .text message => message
  | .other => "unknown panic payload"

/-- The search for one matcher, or one of its observers, failed. -/
inductive TaskError
  | lookup (e : LookupError)
  | crashed (message : String)
  | session (e : SessionError)
  deriving DecidableEq, Repr

namespace TaskError

def ofPayload (payload : Payload) : TaskError := .crashed payload.message

/-- A session error is passed on as it is; a lookup error is wrapped. -/
def explain : TaskError → Explanation
  | .lookup e => .wrap s!"Reflective lookup failed: {e.message}" e.explain
  | .crashed message => { text := s!"Task panicked: {message}" }
  | .session e => e.explain

end TaskError

end Metamatch
