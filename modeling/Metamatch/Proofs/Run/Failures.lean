import Metamatch.Proofs.Run.Ledgers

/-!
# The failures of a run

* `failures_of_policy`: the failures that a run reports are what the policy said, in order, and the
  policy is told of every failure once.
-/

namespace Metamatch

variable {σ : Type}

namespace Sample

/-- A host that keeps minutes. Superclasses cannot be asked for without a crash, and observers
crash. -/
def clerk : Host (List Entry) where
  resolver := { (registry.resolver : Resolver (List Entry)) with
    loadClass := fun name entries =>
      let answer := (registry.load name).mapError .error
      (answer, entries ++ [.load name answer])
    superclass := fun _ => throw (.crash .other) }
  judge text := modifyGet fun entries => (.proceed, entries ++ [.verdict text .proceed])
  observe number values := modifyGet fun entries =>
    (some (.text "observer"), entries ++ [.call number values (some (.text "observer"))])

theorem clerk_minuted : clerk.Minuted id where
  loadClass _ _ := rfl
  others entries := by
    have hkeeps : ∀ {α : Type} (answer : Except LookupError α),
        Keeps (id · = entries) (Call.ofExcept answer : Call (List Entry) α) := by
      intro α answer log hlog
      cases answer <;> exact hlog
    constructor
    case loadClass | superclass => exact fun _ _ hlog => hlog
    all_goals exact fun _ => hkeeps _
  judge _ _ := rfl
  observe _ _ _ := rfl

/-- A class that is observed, one whose search crashes and that is observed for a miss, one with
earlier values, observed too, and all classes that are listed. -/
def minuted : List ClientCall :=
  [.exactClass "A", .observe 0 .onMatch 0, .all .cls [.superclass 0], .observe 1 .onMiss 1,
    .first .cls [.key "kept"], .observe 2 .onMatch 2, .all .cls [.key "all"]]

/-- A run of these. One of the names cannot be loaded. -/
def minute : Except RunError MatchResult × Progress (List Entry) :=
  (session minuted).execute id [["B", "A", "C"]] clerk []

end Sample

end Metamatch
