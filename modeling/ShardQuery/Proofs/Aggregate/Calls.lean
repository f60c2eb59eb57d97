import Mathlib.Data.List.Forall2
import ShardQuery.Execution.Aggregator
import ShardQuery.Proofs.Aggregate.Represents
/-!
# Calls of aggregates

The calls of a plan run over rows, or over the states that others made of rows. Both
ways come to states that represent the arguments of all rows that were taken in.
-/

namespace ShardQuery

structure Call where
  function : AggregateFunction
  inputs : List Expression

namespace Call

def argument (call : Call) (row : Row) : Value :=
  ((Expression.project call.inputs row).toOption.getD []).headD .null

/-- The arguments are of the types that the call was found for, and no NaNs of singles. -/
def Suits (call : Call) (row : Row) : Prop :=
  ∀ arguments, Expression.project call.inputs row = .ok arguments →
    ScalarFunction.Fit arguments call.function.info.argumentTypes ∧
      ∀ v ∈ arguments, v.isSingleNaN = false

def overRows (toStep : AggregateStep) (calls : List Call) : List Aggregator :=
  calls.map fun call => ⟨call.function, call.inputs, .rows, toStep⟩

def overStates (toStep : AggregateStep) : Nat → List Call → List Aggregator
  | _, [] => []
  | place, call :: calls =>
    ⟨call.function, [.input place], .states, toStep⟩ :: overStates toStep (place + 1) calls

def Known (calls : List Call) (rows : List Row) (states : List PartialState) : Prop :=
  List.Forall₂ (fun call state => call.function.Represents (rows.map call.argument) state) calls
    states

variable {calls : List Call} {rows part : List Row} {row : Row}
  {states incoming next : List PartialState} {toStep : AggregateStep} {place : Nat}

theorem argument_eq {call : Call} {arguments : List Value}
    (h : Expression.project call.inputs row = .ok arguments) :
    call.argument row = arguments.headD .null := by
  rw [argument, h]
  rfl

theorem Suits.admits {call : Call} {arguments : List Value} (h : call.Suits row)
    (ha : Expression.project call.inputs row = .ok arguments) :
    call.function.Admits (arguments.headD .null) := by
  obtain ⟨hfit, hnan⟩ := h arguments ha
  unfold AggregateFunction.Admits
  generalize call.function.info.argumentTypes = types at hfit ⊢
  intro t ht
  cases hfit with
  | nil => cases ht
  | cons hv _ =>
    cases ht
    exact ⟨hv, hnan _ List.mem_cons_self⟩

-- ---------------------------------------------------------------------------
-- States of rows
-- ---------------------------------------------------------------------------

theorem Known.perm {others : List Row} (h : Known calls rows states) (hp : rows.Perm others) :
    Known calls others states :=
  List.Forall₂.imp (fun _ _ hs => hs.perm (hp.map _)) h

theorem Known.unique (h : Known calls rows states) (h' : Known calls rows next) :
    states = next :=
  List.right_unique_forall₂' (fun _ _ _ hs hs' => hs.unique hs') h h'

theorem known_initial (h : ∀ call ∈ calls, call.function.Exact) :
    Known calls [] (calls.map fun call => call.function.initial) := by
  rw [Known, List.forall₂_map_right_iff, List.forall₂_same]
  intro call hcall
  exact (h call hcall).initial

theorem initial_overRows :
    (overRows toStep calls).map Aggregator.initial =
      calls.map fun call => call.function.initial := by
  rw [overRows, List.map_map]
  rfl

theorem initial_overStates :
    (overStates toStep place calls).map Aggregator.initial =
      calls.map fun call => call.function.initial := by
  induction calls generalizing place with
  | nil => rfl
  | cons call calls ih =>
    rw [overStates, List.map_cons, ih]
    rfl

-- ---------------------------------------------------------------------------
-- Taking in rows
-- ---------------------------------------------------------------------------

theorem Known.takeRow (h : Known calls rows states) (hsuits : ∀ call ∈ calls, call.Suits row)
    (ha : Aggregator.accumulateAll (overRows toStep calls) states row = .ok next) :
    Known calls (rows ++ [row]) next := by
  induction h generalizing next with
  | nil =>
    cases ha
    exact .nil
  | @cons call state calls states hs _ ih =>
    obtain ⟨state', hstate, ha⟩ := bind_eq_ok.mp ha
    obtain ⟨rest, hrest, ha⟩ := bind_eq_ok.mp ha
    cases ha
    obtain ⟨arguments, harguments, hiterate⟩ := bind_eq_ok.mp hstate
    have hadmits := (hsuits call List.mem_cons_self).admits harguments
    refine .cons ?_ (ih (fun c hc => hsuits c (List.mem_cons_of_mem _ hc)) hrest)
    rw [List.map_append, List.map_singleton, argument_eq harguments]
    exact hs.iterate hadmits (Halt.reported_eq_ok.mp hiterate)

theorem Known.takeRows {more : List Row} (h : Known calls rows states)
    (hsuits : ∀ row ∈ more, ∀ call ∈ calls, call.Suits row)
    (ha : more.foldlM (Aggregator.accumulateAll (overRows toStep calls)) states = .ok next) :
    Known calls (rows ++ more) next := by
  induction more generalizing rows states with
  | nil =>
    cases ha
    rwa [List.append_nil]
  | cons row more ih =>
    rw [List.foldlM_cons] at ha
    obtain ⟨middle, hmiddle, ha⟩ := bind_eq_ok.mp ha
    have hrow := h.takeRow (hsuits row List.mem_cons_self) hmiddle
    have hmore := ih hrow (fun r hr => hsuits r (List.mem_cons_of_mem _ hr)) ha
    rwa [List.append_assoc, List.singleton_append] at hmore

-- ---------------------------------------------------------------------------
-- Taking in states
-- ---------------------------------------------------------------------------

theorem evaluate_column {key rest : Row} {v : Value} (h : row = key ++ v :: rest) :
    (Expression.input key.length).evaluate row = .ok v := by
  have hv : row[key.length]? = some v := by simp [h]
  simp only [Expression.evaluate, hv]

theorem Known.takeStates {key : Row} (h : Known calls rows states)
    (hpart : Known calls part incoming) (hrow : row = key ++ incoming.map .state)
    (ha : Aggregator.accumulateAll (overStates toStep key.length calls) states row = .ok next) :
    Known calls (rows ++ part) next := by
  -- the states that were read already join the key
  induction h generalizing next incoming key with
  | nil =>
    cases ha
    exact .nil
  | @cons call state calls states hs _ ih =>
    cases hpart with
    | @cons _ state' _ incoming hs' hincoming =>
      obtain ⟨merged, hmerged, ha⟩ := bind_eq_ok.mp ha
      obtain ⟨others, hothers, ha⟩ := bind_eq_ok.mp ha
      cases ha
      simp only [Aggregator.accumulate, evaluate_column hrow, ok_bind, reduceCtorEq,
        ↓reduceIte, Halt.reported_eq_ok] at hmerged
      have hrow' : row = (key ++ [.state state']) ++ incoming.map .state := by
        rw [hrow, List.map_cons, List.append_assoc, List.singleton_append]
      have hplace : key.length + 1 = (key ++ [Value.state state']).length := by simp
      rw [hplace] at hothers
      refine .cons ?_ (ih hincoming hrow' hothers)
      rw [List.map_append]
      exact hs.merge hs' hmerged

def Carries (calls : List Call) (place : Nat) (row : Row) (part : List Row) : Prop :=
  ∃ key states, row = key ++ states.map .state ∧ key.length = place ∧ Known calls part states

theorem Known.takeParts {carriers : List Row} {parts : List (List Row)}
    (h : Known calls rows states) (hparts : List.Forall₂ (Carries calls place) carriers parts)
    (ha : carriers.foldlM (Aggregator.accumulateAll (overStates toStep place calls)) states =
      .ok next) :
    Known calls (rows ++ parts.flatten) next := by
  induction hparts generalizing rows states with
  | nil =>
    cases ha
    rwa [List.flatten_nil, List.append_nil]
  | @cons row part carriers parts hcarries _ ih =>
    obtain ⟨key, incoming, hrow, rfl, hpart⟩ := hcarries
    rw [List.foldlM_cons] at ha
    obtain ⟨middle, hmiddle, ha⟩ := bind_eq_ok.mp ha
    have hrest := ih (h.takeStates hpart hrow hmiddle) ha
    rwa [List.append_assoc, ← List.flatten_cons] at hrest

-- ---------------------------------------------------------------------------
-- Handing on
-- ---------------------------------------------------------------------------

theorem emitAll_overStates :
    Aggregator.emitAll (overStates toStep place calls) states =
      Aggregator.emitAll (overRows toStep calls) states := by
  induction calls generalizing place states with
  | nil => rfl
  | cons call calls ih =>
    cases states with
    | nil => rfl
    | cons state states =>
      simp only [overStates, overRows, List.map_cons, Aggregator.emitAll, Aggregator.emit, ih]

theorem emitAll_states (h : states.length = calls.length) :
    Aggregator.emitAll (overRows .states calls) states = .ok (states.map .state) := by
  induction calls generalizing states with
  | nil =>
    rw [List.length_eq_zero_iff.mp h]
    rfl
  | cons call calls ih =>
    cases states with
    | nil => cases h
    | cons state states =>
      rw [overRows, List.map_cons, Aggregator.emitAll]
      rw [← overRows, ih (Nat.succ.inj h)]
      rfl

end Call

end ShardQuery
