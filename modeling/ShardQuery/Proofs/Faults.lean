import ShardQuery.Error
import ShardQuery.Proofs.Except
/-!
# Kinds of errors

Errors of runs and errors of plans, and how the errors of a result come from those of the
steps that it was made in.
-/

namespace ShardQuery

namespace EngineError

inductive IsRunFault : EngineError → Prop
  | execution {reason} : IsRunFault (.execution reason)
  | merge {reason} : IsRunFault (.merge reason)
  | granularityViolation {kind required actual} :
      IsRunFault (.granularityViolation kind required actual)
  | cancelled : IsRunFault .cancelled

inductive IsPlanFault : EngineError → Prop
  | typeResolution {reason} : IsPlanFault (.typeResolution reason)
  | invalidPlan {reason} : IsPlanFault (.invalidPlan reason)

end EngineError

open EngineError

variable {α β : Type} {p : EngineError → Prop}

def FailsOnly (p : EngineError → Prop) (x : Except EngineError α) : Prop :=
  ∀ ⦃e⦄, x = .error e → p e

namespace FailsOnly

variable {x : Except EngineError α} {e : EngineError}

theorem ok (a : α) : FailsOnly p (.ok a) := nofun

theorem error (h : p e) : FailsOnly p (.error e : Except EngineError α) := by
  rintro _ ⟨⟩
  exact h

theorem bind {f : α → Except EngineError β} (hx : FailsOnly p x) (hf : ∀ a, FailsOnly p (f a)) :
    FailsOnly p (x >>= f) := by
  cases x with
  | error e => exact .error (hx rfl)
  | ok a => exact hf a

theorem map (hx : FailsOnly p x) (f : α → β) : FailsOnly p (x.map f) := by
  cases x with
  | error e => exact .error (hx rfl)
  | ok a => exact .ok (f a)

theorem mapM {f : α → Except EngineError β} (hf : ∀ a, FailsOnly p (f a)) (xs : List α) :
    FailsOnly p (xs.mapM f) := by
  induction xs with
  | nil => exact .ok []
  | cons a rest ih =>
    rw [List.mapM_cons]
    exact (hf a).bind fun b => ih.bind fun bs => .ok (b :: bs)

theorem mono {q : EngineError → Prop} (h : FailsOnly p x) (hpq : ∀ e, p e → q e) :
    FailsOnly q x := fun _ he => hpq _ (h he)

end FailsOnly

end ShardQuery
