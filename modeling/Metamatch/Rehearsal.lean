import Metamatch.Registry
import Metamatch.SetTest
import Metamatch.Graph

/-!
# Rehearsals

Surroundings whose failures are arranged in advance and which note what they are asked, over the
answers of a registry.

* `Fault`: a failure of one kind of lookup about one class.
* `PolicyScript`: verdicts by number or by the text of the failure.
* `ObserverScript`: an observer that notes its calls and may crash.
* `Rehearsal.host`: the surroundings.
-/

namespace Metamatch

/-! ## Faults -/

/-- The lookups of a resolver. -/
inductive Lookup
  | loadClass
  | className
  | classModifiers
  | superclass
  | interfaces
  | fields
  | methods
  | constructors
  deriving DecidableEq, Repr

/-- How a lookup goes wrong. -/
inductive Mischief
  | linkage (reason : String)
  | notFound
  | unknown
  | crash (reason : String)
  /-- A list keeps only its first item; other answers stay as they are. -/
  | truncate
  deriving DecidableEq, Repr

/-- A failure of one lookup about one class, from the call on that follows `after` others. -/
structure Fault where
  lookup : Lookup
  cls : String
  mischief : Mischief
  after : Nat := 0
  /-- The calls that reached the fault so far. -/
  seen : Nat := 0
  deriving DecidableEq, Repr

/-- The first fault that strikes a lookup. Each fault that the lookup reaches counts it, and those
after the one that strikes are not reached. -/
def Fault.strike (lookup : Lookup) (cls : String) : List Fault → Option Mischief × List Fault
  | [] => (none, [])
  | fault :: rest =>
    if fault.lookup = lookup ∧ fault.cls = cls then
      let counted := { fault with seen := fault.seen + 1 }
      if fault.after ≤ fault.seen then (some fault.mischief, counted :: rest)
      else
        let (mischief, rest) := strike lookup cls rest
        (mischief, counted :: rest)
    else
      let (mischief, rest) := strike lookup cls rest
      (mischief, fault :: rest)

/-! ## Verdicts and observers -/

/-- What a script of a policy says to a failure. -/
inductive Verdict
  | decide (decision : Decision)
  | crash
  deriving DecidableEq, Repr

/-- Verdicts on failures: by number as far as they are listed, then by what the text contains. -/
structure PolicyScript where
  listed : List Verdict := []
  crashOn : List String := []
  abortOn : List String := []
  default : Verdict := .decide .proceed
  deriving DecidableEq, Repr

/-- Some part of the text reads `part`. -/
def occursIn (part : List Char) : List Char → Bool
  | [] => part.isEmpty
  | c :: rest => part.isPrefixOf (c :: rest) || occursIn part rest

/-- The verdict on a failure that `number` others came before. -/
def PolicyScript.verdict (script : PolicyScript) (number : Nat) (failure : String) : Verdict :=
  match script.listed[number]? with
  | some verdict => verdict
  | none =>
    if script.crashOn.any fun part => occursIn part.toList failure.toList then .crash
    else if script.abortOn.any fun part => occursIn part.toList failure.toList then .decide .abort
    else script.default

/-- An observer with a mark of its own. -/
structure ObserverScript where
  trigger : Trigger
  mark : Nat
  slot : Slot
  crash : Option Payload := none
  deriving DecidableEq, Repr

/-- A call of an observer. -/
structure Event where
  observer : ObserverScript
  values : List Entity
  deriving DecidableEq, Repr

/-! ## The surroundings -/

/-- The state of a rehearsal: the faults as far as they are used up, the calls of observers and the
failures that the policy was told of, in order. -/
structure Rehearsal where
  faults : List Fault := []
  events : List Event := []
  judged : List String := []
  deriving DecidableEq, Repr

namespace Rehearsal

variable {α : Type}

/-- The handle in the error of the mischief `unknown`. -/
def strangeId : ClassId := ⟨4242⟩

/-- The text of a crash of the policy. -/
def policyCrash : String := "policy panic"

/-- An answer about a class, unless a fault strikes. A class whose name is not known is safe from
faults. -/
def answer (lookup : Lookup) (cls : Option String) (shorten : α → α)
    (truth : Except LookupError α) : Call Rehearsal α := do
  match cls with
  | none => Call.ofExcept truth
  | some cls =>
    let (mischief, faults) := Fault.strike lookup cls (← get).faults
    modify ({ · with faults })
    match mischief with
    | none => Call.ofExcept truth
    | some (.linkage reason) => throw (.error (.linkage cls reason))
    | some .notFound => throw (.error (.classNotFound cls))
    | some .unknown => throw (.error (.unknownClass strangeId))
    | some (.crash reason) => throw (.crash (.text reason))
    | some .truncate => Call.ofExcept (shorten <$> truth)

/-- The answers of a registry, struck by faults. -/
def resolver (registry : Registry) : Resolver Rehearsal where
  loadClass name := answer .loadClass (some name) id (registry.load name)
  className cls := answer .className (name? cls) id ((·.name) <$> registry.find cls)
  classModifiers cls := answer .classModifiers (name? cls) id ((·.modifiers) <$> registry.find cls)
  superclass cls := answer .superclass (name? cls) id ((·.superclass) <$> registry.find cls)
  interfaces cls :=
    answer .interfaces (name? cls) (·.take 1) ((·.interfaces) <$> registry.find cls)
  fields cls := answer .fields (name? cls) (·.take 1) ((·.fields) <$> registry.find cls)
  methods cls := answer .methods (name? cls) (·.take 1) ((·.methods) <$> registry.find cls)
  constructors cls :=
    answer .constructors (name? cls) (·.take 1) ((·.constructors) <$> registry.find cls)
where
  name? (cls : ClassId) : Option String := (registry.find cls).toOption.map (·.name)

/-- Verdicts by a script, each failure noted. -/
def judge (script : PolicyScript) (failure : String) : Effect Rehearsal Decision := do
  let number := (← get).judged.length
  modify fun state => { state with judged := state.judged ++ [failure] }
  match script.verdict number failure with
  | .decide decision => return decision
  | .crash => throw (.text policyCrash)

/-- Calls of observers by number, each noted before the observer may crash. -/
def observe (observers : List ObserverScript) (number : Nat) (values : List Entity) :
    StateM Rehearsal (Option Payload) := do
  match observers[number]? with
  | none => return none
  | some observer =>
    modify fun state => { state with events := state.events ++ [⟨observer, values⟩] }
    return observer.crash

/-- The surroundings of a rehearsal. Without a script every failure is passed over unnoted. -/
def host (registry : Registry) (script : Option PolicyScript) (observers : List ObserverScript) :
    Host Rehearsal where
  resolver := resolver registry
  judge := script.elim (fun _ => pure .proceed) judge
  observe := observe observers

end Rehearsal

end Metamatch
