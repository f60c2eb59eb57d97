import ShardQuery.Work
/-!
# Work that may fail

How a run of some work comes apart into the runs of its steps.
-/

namespace ShardQuery.Work

variable {σ α β : Type} {s t : σ}

theorem within_bind (x : Work σ α) (f : α → Work σ β) (s : σ) :
    (x >>= f).within s = match x.within s with
      | (.ok a, t) => (f a).within t
      | (.error e, t) => (.error e, t) := by
  change StateT.run (ExceptT.run (x >>= f)) s = match StateT.run x.run s with
    | (.ok a, t) => StateT.run (f a).run t
    | (.error e, t) => (.error e, t)
  rw [ExceptT.run_bind, StateT.run_bind]
  rcases StateT.run x.run s with ⟨e | a, t⟩ <;> rfl

theorem within_pure (a : α) (s : σ) : (pure a : Work σ α).within s = (.ok a, s) := rfl

theorem within_get (s : σ) : (get : Work σ σ).within s = (.ok s, s) := rfl

theorem within_ofExcept (result : Except EngineError α) (s : σ) :
    (ofExcept result).within s = (result, s) := rfl

theorem within_lift (m : StateM σ α) (s : σ) :
    (liftM m : Work σ α).within s = (.ok (m.run s).1, (m.run s).2) := rfl

theorem within_attempt (x : Work σ α) (s : σ) :
    x.attempt.within s = (.ok (x.within s).1, (x.within s).2) := by
  rcases h : x.within s with ⟨result, t⟩
  rw [within] at h
  rw [attempt, within]
  change StateT.run (x.run >>= fun result => pure (Except.ok result)) s = _
  rw [StateT.run_bind, h]
  rfl

theorem bind_within_ok {x : Work σ α} {f : α → Work σ β} {b : β} :
    (x >>= f).within s = (.ok b, t) ↔
      ∃ a u, x.within s = (.ok a, u) ∧ (f a).within u = (.ok b, t) := by
  rw [within_bind]
  rcases x.within s with ⟨e | a, u⟩
  · simp
  · refine ⟨fun h => ⟨a, u, rfl, h⟩, ?_⟩
    rintro ⟨_, _, hx, h⟩
    cases hx
    exact h

theorem bind_within_error {x : Work σ α} {f : α → Work σ β} {e : EngineError} :
    (x >>= f).within s = (.error e, t) ↔ x.within s = (.error e, t) ∨
      ∃ a u, x.within s = (.ok a, u) ∧ (f a).within u = (.error e, t) := by
  rw [within_bind]
  rcases x.within s with ⟨e | a, u⟩
  · simp
  · refine ⟨fun h => .inr ⟨a, u, rfl, h⟩, ?_⟩
    rintro (hx | ⟨_, _, hx, h⟩)
    · cases hx
    · cases hx
      exact h

end ShardQuery.Work
