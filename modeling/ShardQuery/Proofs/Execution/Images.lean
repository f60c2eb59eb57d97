import ShardQuery.Proofs.Execution.Sorting
/-!
# Images of rows

What stages make of rows that all have a property. Nothing is assumed about the
errors of a source: most stages end at the first of them, and a window may leave
some of them out.
-/

namespace ShardQuery

-- ---------------------------------------------------------------------------
-- Adapters
-- ---------------------------------------------------------------------------

namespace Adapter

def outputs : Adapter → List Expression
  | filter _ outputs => outputs
  | window _ _ outputs => outputs

def passThrough (outputs : List (List Expression)) (row : Row) : Except EngineError Row :=
  outputs.foldlM (fun row outputs => Expression.project outputs row) row

variable {cancelled : Bool} {item : Item} {out : Row}

theorem unlessCancelled_ok {row : Row} (h : unlessCancelled cancelled item = .ok row) :
    item = .ok row := by
  cases cancelled with
  | true => cases h
  | false => exact h

theorem select_ok {query : Expression} {outputs : List Expression} {row : Row}
    (h : select query outputs row = .ok (some out)) : Expression.project outputs row = .ok out := by
  obtain ⟨truth, -, h⟩ := bind_eq_ok.mp h
  split at h
  · obtain ⟨passed, hpassed, h⟩ := bind_eq_ok.mp h
    cases h
    exact hpassed
  · cases h
  · cases h
  · cases h

theorem pass_outputs (cancelled : Bool) (item : Item) (adapter : Adapter) :
    (adapter.pass cancelled item).2.outputs = adapter.outputs := by
  cases adapter with
  | filter => rfl
  | window skip =>
    cases skip with
    | zero => rfl
    | succ => rfl

theorem pass_ok {adapter : Adapter} (h : (adapter.pass cancelled item).1 = some (.ok out)) :
    ∃ row, item = .ok row ∧ Expression.project adapter.outputs row = .ok out := by
  cases adapter with
  | filter query outputs =>
    simp only [pass] at h
    split at h
    · rename_i kept hkept
      cases h
      obtain ⟨row, hrow, hselect⟩ := bind_eq_ok.mp hkept
      exact ⟨row, unlessCancelled_ok hrow, select_ok hselect⟩
    · cases h
    · cases h
  | window skip take outputs =>
    cases skip with
    | succ => cases h
    | zero =>
      obtain ⟨row, hrow, hproject⟩ := bind_eq_ok.mp (Option.some.inj h)
      exact ⟨row, unlessCancelled_ok hrow, hproject⟩

theorem passAll_outputs (cancelled : Bool) (item : Item) (adapters : List Adapter) :
    (passAll cancelled item adapters).2.map outputs = adapters.map outputs := by
  induction adapters generalizing item with
  | nil => rfl
  | cons adapter rest ih =>
    have hpass := pass_outputs cancelled item adapter
    rw [passAll]
    split
    · rename_i hnone
      rw [hnone] at hpass
      rw [List.map_cons, List.map_cons, ← hpass]
    · rename_i hsome
      rw [hsome] at hpass
      rw [List.map_cons, List.map_cons, ← hpass, ih]

theorem passAll_ok {adapters : List Adapter}
    (h : (passAll cancelled item adapters).1 = some (.ok out)) :
    ∃ row, item = .ok row ∧ passThrough (adapters.map outputs) row = .ok out := by
  induction adapters generalizing item with
  | nil => exact ⟨out, Option.some.inj h, rfl⟩
  | cons adapter rest ih =>
    rw [passAll] at h
    split at h
    · cases h
    · rename_i passed _ hpass
      obtain ⟨middle, rfl, hrest⟩ := ih h
      obtain ⟨row, hrow, hproject⟩ := pass_ok (congrArg Prod.fst hpass)
      refine ⟨row, hrow, ?_⟩
      rw [List.map_cons, passThrough, List.foldlM_cons, hproject]
      exact hrest

end Adapter

-- ---------------------------------------------------------------------------
-- Flows
-- ---------------------------------------------------------------------------

namespace Flow

def All (p : Row → Prop) : Flow → Prop
  | materialized rows => ∀ row ∈ rows, p row
  | streamed items adapters => ∀ row, .ok row ∈ items → ∀ out,
      Adapter.passThrough (adapters.map Adapter.outputs) row = .ok out → p out

variable {α : Type} {p q : Row → Prop} {I : α → Prop} {start : α} {flow : Flow}

theorem All.mono (h : flow.All p) (hpq : ∀ row, p row → q row) : flow.All q := by
  cases flow with
  | materialized rows => exact fun row hrow => hpq row (h row hrow)
  | streamed items adapters => exact fun row hrow out hout => hpq out (h row hrow out hout)

theorem All.ofBucket {bucket : Bucket} (h : ∀ row, .ok row ∈ bucket.items → p row) :
    (Flow.ofBucket bucket).All p := by
  cases bucket with
  | materialized rows => exact fun row hrow => h row (List.mem_map_of_mem hrow)
  | streamed items =>
    intro row hrow out hout
    cases hout
    exact h row hrow

theorem All.adapt {items : List Item} {adapters : List Adapter} {adapter : Adapter}
    (h : (streamed items adapters).All p)
    (hadapter : ∀ row out, p row → Expression.project adapter.outputs row = .ok out → q out) :
    (Flow.adapt adapter items adapters).All q := by
  intro row hrow out hout
  rw [List.map_append, Adapter.passThrough, List.foldlM_append] at hout
  obtain ⟨middle, hmiddle, hout⟩ := bind_eq_ok.mp hout
  obtain ⟨last, hlast, hout⟩ := bind_eq_ok.mp hout
  cases hout
  exact hadapter middle out (h row hrow middle hmiddle) hlast

def Keeps (step : α → Item → Run α) (p : Row → Prop) (I : α → Prop) : Prop :=
  ∀ ⦃state item session next after⦄, (step state item).within session = (.ok next, after) →
    ∃ row, item = .ok row ∧ (I state → p row → I next)

variable {step : α → Item → Run α}

theorem foldRows_keeps (hstep : Keeps step p I) {rows : List Row} (hrows : ∀ row ∈ rows, p row)
    (hstart : I start) (session : Session) : I ((foldRows step start rows).run session).1.1 := by
  induction rows generalizing start session with
  | nil => exact hstart
  | cons row rest ih =>
    obtain ⟨hrow, hrest⟩ := List.forall_mem_cons.mp hrows
    rw [foldRows_cons]
    split
    · rename_i next after hnext
      obtain ⟨_, he, hkeep⟩ := hstep hnext
      cases he
      exact ih hrest (hkeep hstart hrow) after
    · exact hstart

theorem foldSource_keeps (hstep : Keeps step p I) {items : List Item} {adapters : List Adapter}
    (hflow : (streamed items adapters).All p) (hstart : I start) (session : Session) :
    I ((foldSource step start adapters items).run session).1.1 := by
  induction items generalizing start adapters session with
  | nil => exact hstart
  | cons item rest ih =>
    -- windows count down as rows pass, but what the adapters make of a row stays the same
    have hrest (others : List Adapter)
        (hothers : others.map Adapter.outputs = adapters.map Adapter.outputs) :
        (streamed rest others).All p := by
      intro row hrow out hout
      rw [hothers] at hout
      exact hflow row (List.mem_cons_of_mem item hrow) out hout
    cases hspent : adapters.any Adapter.isSpent with
    | true =>
      rw [foldSource, hspent]
      exact hstart
    | false =>
      rw [foldSource_pull step start hspent]
      have houtputs := Adapter.passAll_outputs session.pull.cancelled item adapters
      split
      · rename_i next hpass
        rw [hpass] at houtputs
        exact ih (hrest next houtputs) hstart session.pull
      · rename_i passed next hpass
        rw [hpass] at houtputs
        split
        · rename_i last after hrun
          obtain ⟨out, rfl, hkeep⟩ := hstep hrun
          obtain ⟨row, hrow, hout⟩ := Adapter.passAll_ok (congrArg Prod.fst hpass)
          have hp := hflow row (hrow ▸ List.mem_cons_self) out hout
          exact ih (hrest next houtputs) (hkeep hstart hp) after
        · exact hstart

theorem fold_keeps (hstep : Keeps step p I) (hflow : flow.All p) (hstart : I start)
    (session : Session) : I ((flow.fold step start).run session).1.1 := by
  cases flow with
  | materialized rows => exact foldRows_keeps hstep hflow hstart session
  | streamed items adapters => exact foldSource_keeps hstep hflow hstart session

theorem rows_all {rows : List Row} {session after : Session} (hflow : flow.All p)
    (h : flow.rows.within session = (.ok rows, after)) : ∀ row ∈ rows, p row := by
  have hstep : Keeps collect p fun rows => ∀ row ∈ rows, p row := by
    intro state item session next after hnext
    rw [within_collect] at hnext
    cases item with
    | error => cases hnext
    | ok row =>
      cases hnext
      exact ⟨row, rfl, fun hstate hp => List.forall_mem_cons.mpr ⟨hp, hstate⟩⟩
  have hall := fold_keeps hstep hflow (List.forall_mem_nil p) session
  rw [rows_ok h] at hall
  exact fun row hrow => hall row (List.mem_reverse.mpr hrow)

theorem consume_keeps {work : α → Row → Run α} {result : α} {session after : Session}
    (hwork : ∀ ⦃state row session next after⦄, I state → p row →
      (work state row).within session = (.ok next, after) → I next)
    (hflow : flow.All p) (hstart : I start)
    (h : (flow.consume work start).within session = (.ok result, after)) : I result := by
  have hstep : Keeps (guarded work) p I := by
    intro state item session next after hnext
    obtain ⟨row, hrow, hnext⟩ := guarded_ok hnext
    exact ⟨row, hrow, fun hstate hp => hwork hstate hp hnext⟩
  have hlast := fold_keeps hstep hflow hstart session
  rwa [consume_ok h] at hlast

end Flow

-- ---------------------------------------------------------------------------
-- Stages
-- ---------------------------------------------------------------------------

inductive Aggregator.Folds (aggregators : List Aggregator) (p : Row → Prop) :
    List PartialState → Prop
  | initial : Folds aggregators p (aggregators.map Aggregator.initial)
  | row {states next row} : Folds aggregators p states → p row →
      Aggregator.accumulateAll aggregators states row = .ok next → Folds aggregators p next

namespace Action

variable {p q : Row → Prop} {aggregators : List Aggregator}

def Sends (p q : Row → Prop) : Action → Prop
  | filter _ outputs | topN outputs _ _ _ | order outputs _ =>
    ∀ ⦃row out⦄, p row → Expression.project outputs row = .ok out → q out
  | aggregation aggregators => ∀ ⦃states out⦄, Aggregator.Folds aggregators p states →
      Aggregator.emitAll aggregators states = .ok out → q out
  | group keys aggregators => ∀ ⦃row key states out⦄, p row →
      Expression.project keys row = .ok key → Aggregator.Folds aggregators p states →
      Aggregator.emitAll aggregators states = .ok out → q (key ++ out)
  | write _ => ∀ n, q [.long n]

def IsGroup (p : Row → Prop) (keys : List Expression) (aggregators : List Aggregator)
    (g : Group) : Prop :=
  (∃ row, p row ∧ Expression.project keys row = .ok g.1) ∧ Aggregator.Folds aggregators p g.2

theorem addToGroups_keeps {keys : List Expression} {key row : Row} {groups next : List Group}
    (hgroups : ∀ g ∈ groups, IsGroup p keys aggregators g) (hrow : p row)
    (hkey : Expression.project keys row = .ok key)
    (h : addToGroups aggregators key row groups = .ok next) :
    ∀ g ∈ next, IsGroup p keys aggregators g := by
  induction groups generalizing next with
  | nil =>
    obtain ⟨states, hstates, h⟩ := bind_eq_ok.mp h
    cases h
    exact List.forall_mem_singleton.mpr ⟨⟨row, hrow, hkey⟩, .row .initial hrow hstates⟩
  | cons g rest ih =>
    obtain ⟨other, states⟩ := g
    obtain ⟨hg, hrest⟩ := List.forall_mem_cons.mp hgroups
    rw [addToGroups] at h
    split at h
    · obtain ⟨after, hafter, h⟩ := bind_eq_ok.mp h
      cases h
      exact List.forall_mem_cons.mpr ⟨⟨hg.1, .row hg.2 hrow hafter⟩, hrest⟩
    · obtain ⟨others, hothers, h⟩ := bind_eq_ok.mp h
      cases h
      exact List.forall_mem_cons.mpr ⟨hg, ih hrest hothers⟩

theorem window_sends {outputs : List Expression} {limit : Option Nat} {offset : Nat}
    {rows out : List Row}
    (hsends : ∀ ⦃row out⦄, p row → Expression.project outputs row = .ok out → q out)
    (hrows : ∀ row ∈ rows, p row) (h : window outputs limit offset rows = .ok out) :
    ∀ row ∈ out, q row := by
  intro made hmade
  obtain ⟨row, hrow, hproject⟩ := forall₂_mem_right (mapM_eq_ok.mp h) hmade
  refine hsends (hrows row ?_) hproject
  cases limit with
  | none => exact List.mem_of_mem_drop hrow
  | some n => exact List.mem_of_mem_drop (List.mem_of_mem_take hrow)

theorem consumed_filter {query : Expression} {outputs : List Expression} {input : Flow}
    {kept : List Row} {session after : Session}
    (hsends : ∀ ⦃row out⦄, p row → Expression.project outputs row = .ok out → q out)
    (hinput : input.All p)
    (h : (input.consume (fun kept row => do
      match ← Work.ofExcept (Adapter.select query outputs row) with
      | some row => return row :: kept
      | none => return kept) []).within session = (.ok kept, after)) : ∀ row ∈ kept, q row := by
  refine Flow.consume_keeps (I := fun kept => ∀ row ∈ kept, q row) ?_ hinput
    (List.forall_mem_nil q) h
  intro kept row session next after hkept hrow hnext
  obtain ⟨selected, _, hselect, hnext⟩ := Work.bind_within_ok.mp hnext
  rw [Work.within_ofExcept] at hselect
  cases selected with
  | none =>
    cases hnext
    exact hkept
  | some out =>
    cases hnext
    have hout := hsends hrow (Adapter.select_ok (congrArg Prod.fst hselect))
    exact List.forall_mem_cons.mpr ⟨hout, hkept⟩

theorem apply_filter_all {query : Expression} {outputs : List Expression} {input out : Flow}
    {session after : Session}
    (hsends : ∀ ⦃row out⦄, p row → Expression.project outputs row = .ok out → q out)
    (hinput : input.All p)
    (h : ((filter query outputs).apply input).within session = (.ok out, after)) : out.All q := by
  cases input with
  | materialized rows =>
    obtain ⟨kept, _, hkept, h⟩ := Work.bind_within_ok.mp h
    cases h
    have hall := consumed_filter hsends hinput hkept
    exact fun row hrow => hall row (List.mem_reverse.mp hrow)
  | streamed items adapters =>
    cases h
    exact hinput.adapt fun row out hrow hout => hsends hrow hout

theorem apply_topN_all {outputs : List Expression} {keys : List Sorter} {limit : Option Nat}
    {offset : Nat} {input out : Flow} {session after : Session}
    (hsends : ∀ ⦃row out⦄, p row → Expression.project outputs row = .ok out → q out)
    (hinput : input.All p)
    (h : ((topN outputs keys limit offset).apply input).within session = (.ok out, after)) :
    out.All q := by
  -- only without keys the window can stay in the source
  cases keys with
  | nil =>
    cases input with
    | materialized rows =>
      obtain ⟨drained, _, hdrained, h⟩ := Work.bind_within_ok.mp h
      obtain ⟨_, _, hsame, h⟩ := Work.bind_within_ok.mp h
      obtain ⟨shown, _, hshown, h⟩ := Work.bind_within_ok.mp h
      cases h
      cases hsame
      rw [Work.within_ofExcept] at hshown
      exact window_sends hsends (Flow.rows_all hinput hdrained) (congrArg Prod.fst hshown)
    | streamed items adapters =>
      cases h
      exact hinput.adapt fun row out hrow hout => hsends hrow hout
  | cons key keys =>
    obtain ⟨rows, _, hrows, h⟩ := Work.bind_within_ok.mp h
    obtain ⟨sorted, _, hsorted, h⟩ := Work.bind_within_ok.mp h
    obtain ⟨shown, _, hshown, h⟩ := Work.bind_within_ok.mp h
    cases h
    rw [Work.within_ofExcept] at hshown
    have hall := Flow.rows_all hinput hrows
    exact window_sends hsends
      (fun row hrow => hall row ((Sorter.sortRows_perm hsorted).subset hrow))
      (congrArg Prod.fst hshown)

theorem apply_all {action : Action} {input out : Flow} {session after : Session}
    (hsends : action.Sends p q) (hinput : input.All p)
    (h : (action.apply input).within session = (.ok out, after)) : out.All q := by
  cases action with
  | filter query outputs => exact apply_filter_all hsends hinput h
  | topN outputs keys limit offset => exact apply_topN_all hsends hinput h
  | aggregation aggregators =>
    obtain ⟨states, _, hstates, h⟩ := Work.bind_within_ok.mp h
    obtain ⟨row, _, hrow, h⟩ := Work.bind_within_ok.mp h
    cases h
    rw [Work.within_ofExcept] at hrow
    have hfolds : Aggregator.Folds aggregators p states := by
      refine Flow.consume_keeps (I := Aggregator.Folds aggregators p) ?_ hinput .initial hstates
      intro states row session next after hfolds hrow hnext
      rw [Work.within_ofExcept] at hnext
      exact .row hfolds hrow (congrArg Prod.fst hnext)
    exact List.forall_mem_singleton.mpr (hsends hfolds (congrArg Prod.fst hrow))
  | group keys aggregators =>
    obtain ⟨groups, _, hgroups, h⟩ := Work.bind_within_ok.mp h
    obtain ⟨rows, _, hrows, h⟩ := Work.bind_within_ok.mp h
    cases h
    rw [Work.within_ofExcept] at hrows
    have hall : ∀ g ∈ groups, IsGroup p keys aggregators g := by
      refine Flow.consume_keeps (I := fun groups => ∀ g ∈ groups, IsGroup p keys aggregators g)
        ?_ hinput (List.forall_mem_nil _) hgroups
      intro groups row session next after hgroups hrow hnext
      rw [Work.within_ofExcept] at hnext
      obtain ⟨key, hkey, hnext⟩ := bind_eq_ok.mp (congrArg Prod.fst hnext)
      exact addToGroups_keeps hgroups hrow hkey hnext
    intro made hmade
    obtain ⟨g, hg, hemit⟩ := forall₂_mem_right (mapM_eq_ok.mp (congrArg Prod.fst hrows)) hmade
    obtain ⟨values, hvalues, hemit⟩ := bind_eq_ok.mp hemit
    cases hemit
    obtain ⟨⟨row, hrow, hkey⟩, hfolds⟩ := hall g hg
    exact hsends hrow hkey hfolds hvalues
  | order outputs keys =>
    obtain ⟨rows, _, hrows, h⟩ := Work.bind_within_ok.mp h
    obtain ⟨sorted, _, hsorted, h⟩ := Work.bind_within_ok.mp h
    obtain ⟨shown, _, hshown, h⟩ := Work.bind_within_ok.mp h
    cases h
    rw [Work.within_ofExcept] at hshown
    have hall := Flow.rows_all hinput hrows
    intro made hmade
    obtain ⟨row, hrow, hproject⟩ :=
      forall₂_mem_right (mapM_eq_ok.mp (congrArg Prod.fst hshown)) hmade
    exact hsends (hall row ((Sorter.sortRows_perm hsorted).subset hrow)) hproject
  | write inputs =>
    obtain ⟨written, _, _, h⟩ := Work.bind_within_ok.mp h
    cases h
    exact List.forall_mem_singleton.mpr (hsends (Int64.ofNat written))

end Action

theorem Stage.execute_all {p q : Row → Prop} {stage : Stage} {level : Granularity}
    {input out : Flow} {session after : Session} (hsends : stage.action.Sends p q)
    (hinput : input.All p)
    (h : (stage.execute level input).within session = (.ok out, after)) : out.All q := by
  rw [Stage.execute] at h
  split at h
  · cases h
  · obtain ⟨_, _, -, h⟩ := Work.bind_within_ok.mp h
    exact Action.apply_all hsends hinput h

end ShardQuery
