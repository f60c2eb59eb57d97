import ShardQuery.Proofs.Execution.Building
import ShardQuery.Proofs.Execution.RowFaults
import ShardQuery.Proofs.Execution.Run
/-!
# Faults of runs

A chain that was built fails because of what is in a row or in a partial state, because
it runs below its level, or because it is cancelled. Whatever else a run fails with, its
source had in the place of a row, or its sink refused a row with.
-/

namespace ShardQuery

open EngineError

variable {α β : Type} {p : EngineError → Prop}

-- ---------------------------------------------------------------------------
-- Runs
-- ---------------------------------------------------------------------------

/-- In every session with such a sink the work fails with an error of this kind, or with none, and
leaves such a sink. -/
def Run.Raises (p : EngineError → Prop) (q : Sink → Prop) (x : Run α) : Prop :=
  ∀ session, q session.sink → FailsOnly p (x.within session).1 ∧ q (x.within session).2.sink

/-- Such a sink refuses rows with errors of this kind, and remains such a sink with each row. -/
def Sink.Refuses (p : EngineError → Prop) (q : Sink → Prop) : Prop :=
  ∀ ⦃sink⦄, q sink → ∀ row, FailsOnly p (sink.put row) ∧ ∀ after, sink.put row = .ok after → q after

namespace Run.Raises

variable {q : Sink → Prop} {x : Run α} {f : α → Run β}

theorem pure (a : α) : Raises p q (Pure.pure a) := fun _ hq => ⟨.ok a, hq⟩

theorem ofExcept {result : Except EngineError α} (h : FailsOnly p result) :
    Raises p q (Work.ofExcept result) := fun _ hq => ⟨h, hq⟩

theorem bind (hx : Raises p q x) (hf : ∀ a, Raises p q (f a)) : Raises p q (x >>= f) := by
  intro session hq
  have hfirst := hx session hq
  rw [Work.within_bind]
  rcases hrun : x.within session with ⟨e | a, after⟩ <;> rw [hrun] at hfirst
  · exact ⟨.error (hfirst.1 rfl), hfirst.2⟩
  · exact hf a after hfirst.2

theorem checkCancelled (hp : p .cancelled) : Raises p q Run.checkCancelled := by
  intro session hq
  rw [Run.within_checkCancelled]
  refine ⟨?_, hq⟩
  dsimp only
  split
  · exact .error hp
  · exact .ok ()

theorem put (h : Sink.Refuses p q) (row : Row) : Raises p q (Run.put row) := by
  intro session hq
  rw [Run.put, Work.within_bind, Work.within_get]
  dsimp only
  rw [Work.within_bind, Work.within_ofExcept]
  have hput := h hq row
  rcases hresult : session.sink.put row with e | sink
  · exact ⟨.error (hput.1 hresult), hq⟩
  · exact ⟨.ok (), hput.2 sink hresult⟩

end Run.Raises

section

variable {q : Sink → Prop} (hp : ∀ e, IsRunFault e → p e)

namespace Adapter

include hp

end Adapter

namespace Flow

def Holds (p : EngineError → Prop) : Flow → Prop
  | materialized _ => True
  | streamed items _ => ∀ item ∈ items, FailsOnly p item

variable {flow : Flow} {step : α → Item → Run α}

/-- What is left of a fold: the errors that it ends with are of this kind, and so is the sink. -/
def Ends (p : EngineError → Prop) (q : Sink → Prop)
    (outcome : (α × Option EngineError) × Session) : Prop :=
  (∀ e, outcome.1.2 = some e → p e) ∧ q outcome.2.sink

theorem Ends.none {state : α} {session : Session} (hq : q session.sink) :
    Ends p q ((state, none), session) := ⟨nofun, hq⟩

theorem Ends.some {state : α} {e : EngineError} {session : Session} (he : p e)
    (hq : q session.sink) : Ends p q ((state, some e), session) :=
  ⟨fun _ h => Option.some.inj h ▸ he, hq⟩

include hp

end Flow

-- ---------------------------------------------------------------------------
-- Stages
-- ---------------------------------------------------------------------------

namespace Action

def IsReady : Action → Prop
  | aggregation aggregators => ∀ a ∈ aggregators, a.IsReady
  | group _ aggregators => ∀ a ∈ aggregators, a.IsReady
  | _ => True

variable {action : Action} {input : Flow}

include hp

omit hp

end Action

end

-- ---------------------------------------------------------------------------
-- Chains
-- ---------------------------------------------------------------------------

theorem AggregateCall.inputs_of_validate {call : AggregateCall} (h : call.validate = .ok ()) :
    call.fromStep = .rows ∨ call.inputs.length = 1 := by
  unfold validate at h
  dsimp only at h
  split at h
  · cases h
  · split at h
    · rename_i hrows _
      exact .inl hrows
    · rename_i hrows _
      exact .inl hrows
    · split at h
      · exact .inr ‹_›
      · cases h
    · split at h
      · exact .inr ‹_›
      · cases h
    · cases h

theorem Factory.aggregator_isReady {factory : Factory} {call : AggregateCall} {a : Aggregator}
    (h : factory.aggregator call = .ok a) : a.IsReady := by
  rw [aggregator_eq] at h
  obtain ⟨_, hvalid, h⟩ := bind_eq_ok.mp h
  obtain ⟨_, -, h⟩ := bind_eq_ok.mp h
  obtain ⟨function, -, h⟩ := bind_eq_ok.mp h
  obtain ⟨inputs, hinputs, h⟩ := bind_eq_ok.mp h
  cases h
  rcases call.inputs_of_validate hvalid with hrows | hlength
  · exact .inl hrows
  · refine .inr fun hnone => ?_
    obtain ⟨input, hinput⟩ := List.length_eq_one_iff.mp hlength
    rw [hinput] at hinputs
    obtain ⟨_, -, hinputs⟩ := bind_eq_ok.mp hinputs
    obtain ⟨_, -, hinputs⟩ := bind_eq_ok.mp hinputs
    cases hinputs
    cases hnone

theorem Factory.Builds.isReady {factory : Factory} {projection : Projection} {action : Action}
    (h : factory.Builds projection action) : action.IsReady := by
  have hall {calls : List AggregateCall} {aggregators : List Aggregator}
      (h : calls.mapM factory.aggregator = .ok aggregators) : ∀ a ∈ aggregators, a.IsReady := by
    intro a ha
    obtain ⟨call, -, hcall⟩ := forall₂_mem_right (mapM_eq_ok.mp h) ha
    exact Factory.aggregator_isReady hcall
  cases h with
  | aggregation h => exact hall h
  | group _ h => exact hall h
  | _ => exact trivial

namespace Chain

variable {factory : Factory} {plan : List Projection} {chain : Chain} {level : Granularity}
  {q : Sink → Prop}

def IsReady (chain : Chain) : Prop := ∀ stage ∈ chain.stages, stage.action.IsReady

end Chain

theorem Flow.Holds.ofBucket {input : Bucket} (h : ∀ item ∈ input.items, FailsOnly p item) :
    (Flow.ofBucket input).Holds p := by
  cases input with
  | materialized => exact trivial
  | streamed items => exact h

namespace Chain

variable {factory : Factory} {plan : List Projection} {chain : Chain} {level : Granularity}
  {input : Bucket} {session after : Session}

end Chain

end ShardQuery
