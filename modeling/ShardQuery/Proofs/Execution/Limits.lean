import ShardQuery.Proofs.Execution.Building
import ShardQuery.Proofs.Execution.Sorting
import ShardQuery.Proofs.Projection.Wire
/-!
# Limits of plans that other nodes read

A limit is written as its successor, and the greatest limit has none: it comes back as
the limit below it. Runs show no difference on buckets with so few rows that neither
limit is reached, whatever becomes of the rows before they come to the window.
-/

namespace ShardQuery

-- ---------------------------------------------------------------------------
-- Windows that are not exhausted
-- ---------------------------------------------------------------------------

namespace Adapter

/-- Adapters that do the same to the next `n` items: windows may differ in limits that so few items
do not exceed. -/
inductive Agrees (n : Nat) : Adapter → Adapter → Prop
  | refl (adapter : Adapter) : Agrees n adapter adapter
  | window {skip limit other : Nat} {outputs : List Expression} (h : n ≤ limit) (h' : n ≤ other) :
      Agrees n (.window skip (some limit) outputs) (.window skip (some other) outputs)

variable {n : Nat} {a b : Adapter} {as bs : List Adapter}

theorem Agrees.lower (h : a.Agrees (n + 1) b) : a.Agrees n b := by
  cases h with
  | refl => exact .refl a
  | window h h' => exact .window (Nat.le_of_succ_le h) (Nat.le_of_succ_le h')

/-- A limit on more items than there are may be lowered to their number. -/
theorem window_capped (n skip : Nat) (take : Option Nat) (outputs : List Expression) :
    (window skip take outputs).Agrees n (window skip (take.map (min · n)) outputs) := by
  cases take with
  | none => exact .refl _
  | some limit =>
    rcases Nat.le_total limit n with h | h
    · rw [Option.map_some, Nat.min_eq_left h]
      exact .refl _
    · rw [Option.map_some, Nat.min_eq_right h]
      exact .window h (Nat.le_refl n)

theorem Agrees.isSpent_eq (h : a.Agrees (n + 1) b) : a.isSpent = b.isSpent := by
  cases h with
  | refl => rfl
  | window h h' =>
    obtain ⟨limit, rfl⟩ := Nat.exists_eq_add_of_le' h
    obtain ⟨other, rfl⟩ := Nat.exists_eq_add_of_le' h'
    rfl

theorem Agrees.pass (h : a.Agrees (n + 1) b) (cancelled : Bool) (item : Item) :
    (a.pass cancelled item).1 = (b.pass cancelled item).1 ∧
      (a.pass cancelled item).2.Agrees n (b.pass cancelled item).2 := by
  cases h with
  | refl => exact ⟨rfl, .refl _⟩
  | @window skip limit other outputs h h' =>
    cases skip with
    | zero => exact ⟨rfl, .window (Nat.le_sub_one_of_lt h) (Nat.le_sub_one_of_lt h')⟩
    | succ skip => exact ⟨rfl, .window (Nat.le_of_succ_le h) (Nat.le_of_succ_le h')⟩

theorem any_isSpent_eq (h : List.Forall₂ (Agrees (n + 1)) as bs) :
    as.any isSpent = bs.any isSpent := by
  induction h with
  | nil => rfl
  | cons hab _ ih => rw [List.any_cons, List.any_cons, hab.isSpent_eq, ih]

theorem passAll_agrees (h : List.Forall₂ (Agrees (n + 1)) as bs) (cancelled : Bool) (item : Item) :
    (passAll cancelled item as).1 = (passAll cancelled item bs).1 ∧
      List.Forall₂ (Agrees n) (passAll cancelled item as).2 (passAll cancelled item bs).2 := by
  induction h generalizing item with
  | nil => exact ⟨rfl, .nil⟩
  | @cons a b as bs hab hrest ih =>
    obtain ⟨hpassed, hnext⟩ := hab.pass cancelled item
    rw [passAll, passAll]
    generalize a.pass cancelled item = left, b.pass cancelled item = right at hpassed hnext
    obtain ⟨passed, nextA⟩ := left
    obtain ⟨other, nextB⟩ := right
    obtain rfl : passed = other := hpassed
    cases passed with
    | none => exact ⟨rfl, .cons hnext (hrest.imp fun _ _ => Agrees.lower)⟩
    | some passed =>
      obtain ⟨hlast, hlater⟩ := ih passed
      exact ⟨hlast, .cons hnext hlater⟩

end Adapter

-- ---------------------------------------------------------------------------
-- Flows that agree
-- ---------------------------------------------------------------------------

namespace Flow

def count : Flow → Nat
  | materialized rows => rows.length
  | streamed items _ => items.length

inductive Agrees (n : Nat) : Flow → Flow → Prop
  | rows {rows : List Row} (h : rows.length ≤ n) :
      Agrees n (.materialized rows) (.materialized rows)
  | source {items : List Item} {as bs : List Adapter} (h : items.length ≤ n)
      (h' : List.Forall₂ (Adapter.Agrees n) as bs) :
      Agrees n (.streamed items as) (.streamed items bs)

variable {α : Type} {n : Nat} {f g : Flow}

theorem count_ofBucket (input : Bucket) : (Flow.ofBucket input).count = input.items.length := by
  cases input with
  | materialized rows => exact (List.length_map _).symm
  | streamed items => rfl

theorem Agrees.count_le (h : f.Agrees n g) : f.count ≤ n := by
  cases h with
  | rows h => exact h
  | source h => exact h

theorem Agrees.of_count_le (h : f.count ≤ n) : f.Agrees n f := by
  cases f with
  | materialized rows => exact .rows h
  | streamed items adapters => exact .source h (List.forall₂_same.mpr fun a _ => .refl a)

theorem foldSource_agrees (step : α → Item → Run α) (state : α) {as bs : List Adapter}
    {items : List Item} (h : List.Forall₂ (Adapter.Agrees n) as bs) (hlength : items.length ≤ n)
    (session : Session) :
    (foldSource step state as items).run session =
      (foldSource step state bs items).run session := by
  induction items generalizing n state as bs session with
  | nil => rfl
  | cons item rest ih =>
    -- each item that is taken leaves one less for the windows to let through
    obtain ⟨n, rfl⟩ := Nat.exists_eq_add_of_le' (Nat.le_trans (Nat.le_add_left 1 _) hlength)
    have hrest := Nat.le_of_succ_le_succ hlength
    have hspent := Adapter.any_isSpent_eq h
    cases hs : as.any Adapter.isSpent with
    | true =>
      rw [foldSource, foldSource, ← hspent, hs]
      rfl
    | false =>
      rw [foldSource_pull step state hs, foldSource_pull step state (hspent ▸ hs)]
      obtain ⟨hpassed, hnext⟩ := Adapter.passAll_agrees h session.pull.cancelled item
      generalize Adapter.passAll session.pull.cancelled item as = left,
        Adapter.passAll session.pull.cancelled item bs = right at hpassed hnext
      obtain ⟨passed, nextA⟩ := left
      obtain ⟨other, nextB⟩ := right
      obtain rfl : passed = other := hpassed
      cases passed with
      | none => exact ih state hnext hrest session.pull
      | some passed =>
        dsimp only
        rcases (step state passed).within session.pull with ⟨e | next, after⟩
        · rfl
        · exact ih next hnext hrest after

theorem Agrees.fold (h : f.Agrees n g) (step : α → Item → Run α) (state : α) :
    f.fold step state = g.fold step state := by
  cases h with
  | rows => rfl
  | source hlength hadapters =>
    funext session
    exact foldSource_agrees step state hadapters hlength session

theorem Agrees.rows_eq (h : f.Agrees n g) : f.rows = g.rows := by
  simp only [Flow.rows, Flow.drain, h.fold]

theorem Agrees.consume (h : f.Agrees n g) (work : α → Row → Run α) (start : α) :
    f.consume work start = g.consume work start := by
  simp only [Flow.consume, h.fold]

-- ---------------------------------------------------------------------------
-- Sizes of flows
-- ---------------------------------------------------------------------------

variable {step : α → Item → Run α} {size : α → Nat}

def Grows (step : α → Item → Run α) (size : α → Nat) : Prop :=
  ∀ ⦃state item session next after⦄, (step state item).within session = (.ok next, after) →
    size next ≤ size state + 1

theorem foldRows_size (hstep : Grows step size) (start : α) (rows : List Row) (session : Session) :
    size ((foldRows step start rows).run session).1.1 ≤ size start + rows.length := by
  induction rows generalizing start session with
  | nil => exact Nat.le_refl _
  | cons row rest ih =>
    rw [foldRows_cons, List.length_cons]
    split
    · rename_i next after hnext
      have hlater := ih next after
      have := hstep hnext
      omega
    · exact Nat.le_add_right _ _

theorem foldSource_size (hstep : Grows step size) (start : α) (adapters : List Adapter)
    (items : List Item) (session : Session) :
    size ((foldSource step start adapters items).run session).1.1 ≤ size start + items.length := by
  induction items generalizing start adapters session with
  | nil => exact Nat.le_refl _
  | cons item rest ih =>
    rw [List.length_cons]
    cases hspent : adapters.any Adapter.isSpent with
    | true =>
      rw [foldSource, hspent]
      exact Nat.le_add_right _ _
    | false =>
      rw [foldSource_pull step start hspent]
      split
      · rename_i others _
        have hlater := ih start others session.pull
        omega
      · rename_i others _
        split
        · rename_i next after hnext
          have hlater := ih next others after
          have := hstep hnext
          omega
        · exact Nat.le_add_right _ _

theorem fold_size (hstep : Grows step size) (start : α) (flow : Flow) (session : Session) :
    size ((flow.fold step start).run session).1.1 ≤ size start + flow.count := by
  cases flow with
  | materialized rows => exact foldRows_size hstep start rows session
  | streamed items adapters => exact foldSource_size hstep start adapters items session

theorem rows_length {flow : Flow} {rows : List Row} {session after : Session}
    (h : flow.rows.within session = (.ok rows, after)) : rows.length ≤ flow.count := by
  have hstep : Grows collect List.length := by
    intro state item session next after hnext
    rw [within_collect] at hnext
    cases item with
    | error => cases hnext
    | ok row =>
      cases hnext
      exact Nat.le_refl _
  have hall := fold_size hstep [] flow session
  rw [rows_ok h] at hall
  simpa using hall

theorem consume_size (size : α → Nat) {work : α → Row → Run α} {start result : α} {flow : Flow}
    {session after : Session}
    (hwork : ∀ ⦃state row session next after⦄, (work state row).within session = (.ok next, after) →
      size next ≤ size state + 1)
    (h : (flow.consume work start).within session = (.ok result, after)) :
    size result ≤ size start + flow.count := by
  have hstep : Grows (guarded work) size := by
    intro state item session next after hnext
    obtain ⟨row, -, hnext⟩ := guarded_ok hnext
    exact hwork hnext
  have hall := fold_size hstep start flow session
  rwa [consume_ok h] at hall

end Flow

-- ---------------------------------------------------------------------------
-- Stages
-- ---------------------------------------------------------------------------

namespace Action

variable {action : Action} {input other out : Flow} {n : Nat} {session after : Session}

theorem addToGroups_length {aggregators : List Aggregator} {key row : Row}
    {groups next : List Group} (h : addToGroups aggregators key row groups = .ok next) :
    next.length ≤ groups.length + 1 := by
  induction groups generalizing next with
  | nil =>
    obtain ⟨_, -, h⟩ := bind_eq_ok.mp h
    cases h
    exact Nat.le_refl _
  | cons group rest ih =>
    rw [addToGroups] at h
    split at h
    · obtain ⟨_, -, h⟩ := bind_eq_ok.mp h
      cases h
      exact Nat.le_succ _
    · obtain ⟨later, hlater, h⟩ := bind_eq_ok.mp h
      cases h
      exact Nat.succ_le_succ (ih hlater)

theorem window_length {outputs : List Expression} {limit : Option Nat} {offset : Nat}
    {rows made : List Row} (h : window outputs limit offset rows = .ok made) :
    made.length ≤ rows.length := by
  rw [← (mapM_eq_ok.mp h).length_eq]
  cases limit <;> simp

theorem arrange_length {keys : List Sorter} {rows arranged : List Row}
    (h : (arrange keys rows).within session = (.ok arranged, after)) :
    arranged.length = rows.length := by
  rw [arrange] at h
  split at h
  · cases h
    rfl
  · exact (Sorter.sortRows_perm h).length_eq

theorem cut_count {outputs : List Expression} {keys : List Sorter} {limit : Option Nat}
    {offset : Nat} (h : (cut outputs keys limit offset input).within session = (.ok out, after)) :
    out.count ≤ input.count := by
  obtain ⟨rows, _, hrows, h⟩ := Work.bind_within_ok.mp h
  obtain ⟨arranged, _, harranged, h⟩ := Work.bind_within_ok.mp h
  obtain ⟨made, _, hmade, h⟩ := Work.bind_within_ok.mp h
  cases h
  calc made.length
      ≤ arranged.length := window_length (congrArg Prod.fst hmade)
    _ = rows.length := arrange_length harranged
    _ ≤ input.count := Flow.rows_length hrows

/-- No stage makes more rows than it has taken, but a summary is one row even of none. -/
theorem apply_count (h : (action.apply input).within session = (.ok out, after)) :
    out.count ≤ max input.count 1 := by
  cases action with
  | filter query outputs =>
    cases input with
    | streamed items adapters =>
      cases h
      exact Nat.le_max_left _ _
    | materialized rows =>
      obtain ⟨kept, _, hkept, h⟩ := Work.bind_within_ok.mp h
      cases h
      refine Nat.le_trans ?_ (Nat.le_max_left _ _)
      have hsize := Flow.consume_size List.length (fun state row session next after hnext => by
        obtain ⟨selected, _, _, hnext⟩ := Work.bind_within_ok.mp hnext
        cases selected with
        | none =>
          cases hnext
          exact Nat.le_succ _
        | some =>
          cases hnext
          exact Nat.le_refl _) hkept
      simpa [Flow.count] using hsize
  | aggregation aggregators =>
    obtain ⟨_, _, _, h⟩ := Work.bind_within_ok.mp h
    obtain ⟨_, _, _, h⟩ := Work.bind_within_ok.mp h
    cases h
    exact Nat.le_max_right _ _
  | group keys aggregators =>
    obtain ⟨groups, _, hgroups, h⟩ := Work.bind_within_ok.mp h
    obtain ⟨made, _, hmade, h⟩ := Work.bind_within_ok.mp h
    cases h
    refine Nat.le_trans ?_ (Nat.le_max_left _ _)
    have hsize := Flow.consume_size List.length (fun state row session next after hnext => by
      obtain ⟨key, -, hnext⟩ := bind_eq_ok.mp (congrArg Prod.fst hnext)
      exact addToGroups_length hnext) hgroups
    have hlength := (mapM_eq_ok.mp (congrArg Prod.fst hmade)).length_eq
    rw [Flow.count, ← hlength]
    simpa using hsize
  | topN outputs keys limit offset =>
    refine Nat.le_trans ?_ (Nat.le_max_left _ _)
    rcases apply_topN_cases outputs keys limit offset input with hcut | ⟨items, adapters, rfl, hadd⟩
    · rw [hcut] at h
      exact cut_count h
    · rw [hadd] at h
      cases h
      exact Nat.le_refl _
  | order outputs keys =>
    obtain ⟨rows, _, hrows, h⟩ := Work.bind_within_ok.mp h
    obtain ⟨sorted, _, hsorted, h⟩ := Work.bind_within_ok.mp h
    obtain ⟨made, _, hmade, h⟩ := Work.bind_within_ok.mp h
    cases h
    refine Nat.le_trans ?_ (Nat.le_max_left _ _)
    have hlength := (mapM_eq_ok.mp (congrArg Prod.fst hmade)).length_eq
    rw [Flow.count, ← hlength, (Sorter.sortRows_perm hsorted).length_eq]
    exact Flow.rows_length hrows
  | write inputs =>
    obtain ⟨_, _, _, h⟩ := Work.bind_within_ok.mp h
    cases h
    exact Nat.le_max_right _ _

def capped (most : Nat) : Action → Action
  | topN outputs keys limit offset => topN outputs keys (limit.map (min · most)) offset
  | action => action

theorem window_capped (outputs : List Expression) (limit : Option Nat) (offset : Nat)
    {rows : List Row} (h : rows.length ≤ n) :
    window outputs (limit.map (min · n)) offset rows = window outputs limit offset rows := by
  cases limit with
  | none => rfl
  | some limit =>
    have hdrop : (rows.drop offset).length ≤ n := by
      rw [List.length_drop]
      omega
    have htake : (rows.drop offset).take (min limit n) = (rows.drop offset).take limit := by
      rw [List.take_eq_take_iff]
      omega
    exact congrArg (List.mapM (Expression.project outputs)) htake

theorem cut_capped (outputs : List Expression) (keys : List Sorter) (limit : Option Nat)
    (offset : Nat) (h : input.Agrees n other) (session : Session) :
    (cut outputs keys (limit.map (min · n)) offset other).within session =
      (cut outputs keys limit offset input).within session := by
  rw [cut, cut, ← h.rows_eq, Work.within_bind, Work.within_bind]
  rcases hrows : input.rows.within session with ⟨e | rows, after⟩
  · rfl
  · dsimp only
    rw [Work.within_bind, Work.within_bind]
    rcases harranged : (arrange keys rows).within after with ⟨e | arranged, last⟩
    · rfl
    · have hlength : arranged.length ≤ n :=
        (arrange_length harranged).trans_le ((Flow.rows_length hrows).trans h.count_le)
      dsimp only
      rw [window_capped outputs limit offset hlength]

end Action

inductive Run.Agree (n : Nat) :
    Except EngineError Flow × Session → Except EngineError Flow × Session → Prop
  | ok {f g : Flow} {after : Session} (h : f.Agrees n g) : Agree n (.ok f, after) (.ok g, after)
  | error {e : EngineError} {after : Session} : Agree n (.error e, after) (.error e, after)

theorem Run.Agree.of_count_le {n : Nat} {outcome : Except EngineError Flow × Session}
    (h : ∀ out after, outcome = (.ok out, after) → out.count ≤ n) :
    Run.Agree n outcome outcome := by
  obtain ⟨e | out, after⟩ := outcome
  · exact .error
  · exact .ok (.of_count_le (h out after rfl))

namespace Action

variable {input other : Flow} {n : Nat}

theorem apply_capped (action : Action) (hn : 1 ≤ n) (h : input.Agrees n other)
    (session : Session) : Run.Agree n ((action.apply input).within session)
      (((action.capped n).apply other).within session) := by
  have hcount : ∀ out after, (action.apply input).within session = (.ok out, after) →
      out.count ≤ n := fun out after hout =>
    (apply_count hout).trans (Nat.max_le.mpr ⟨h.count_le, hn⟩)
  -- Stages that take every row come to the same; others add the same adapter.
  have hsame (heq : ((action.capped n).apply other).within session =
      (action.apply input).within session) : Run.Agree n ((action.apply input).within session)
      (((action.capped n).apply other).within session) := by
    rw [heq]
    exact .of_count_le hcount
  cases action with
  | aggregation aggregators => exact hsame (by simp only [capped, apply, h.consume])
  | group keys aggregators => exact hsame (by simp only [capped, apply, h.consume])
  | order outputs keys => exact hsame (by simp only [capped, apply, h.rows_eq])
  | write inputs => exact hsame (by simp only [capped, apply, h.consume])
  | filter query outputs =>
    cases h with
    | rows => exact hsame rfl
    | source hlength hadapters =>
      exact .ok (.source hlength (List.rel_append hadapters (.cons (.refl _) .nil)))
  | topN outputs keys limit offset =>
    have hcut := cut_capped outputs keys limit offset h session
    cases h with
    | rows => exact hsame (by rwa [capped, apply_topN (.inr rfl), apply_topN (.inr rfl)])
    | source hlength hadapters =>
      cases keys with
      | cons key keys =>
        have hkeys : key :: keys ≠ [] := List.cons_ne_nil key keys
        exact hsame (by rwa [capped, apply_topN (.inl hkeys), apply_topN (.inl hkeys)])
      | nil =>
        have hwindow := Adapter.window_capped n offset limit outputs
        exact .ok (.source hlength (List.rel_append hadapters (.cons hwindow .nil)))

end Action

-- ---------------------------------------------------------------------------
-- Chains
-- ---------------------------------------------------------------------------

variable {n : Nat} {input other : Flow}

def Stage.capped (most : Nat) (stage : Stage) : Stage :=
  ⟨stage.granularity, stage.action.capped most⟩

theorem Action.kind_capped (most : Nat) (action : Action) :
    (action.capped most).kind = action.kind := by
  cases action <;> rfl

theorem Stage.execute_capped (stage : Stage) (level : Granularity) (hn : 1 ≤ n)
    (h : input.Agrees n other) (session : Session) :
    Run.Agree n ((stage.execute level input).within session)
      (((stage.capped n).execute level other).within session) := by
  rcases Nat.lt_or_ge level.id stage.granularity.id with hlevel | hlevel
  · rw [within_execute_below hlevel, within_execute_below (by exact hlevel), capped,
      Action.kind_capped]
    exact .error
  · rw [within_execute hlevel, within_execute (by exact hlevel)]
    cases session.cancelled with
    | true => exact .error
    | false => exact stage.action.apply_capped hn h session

namespace Chain

def capped (most : Nat) (chain : Chain) : Chain := ⟨chain.stages.map (Stage.capped most)⟩

theorem runFrom_capped (chain : Chain) (level : Granularity) (hn : 1 ≤ n)
    (h : input.Agrees n other) (session : Session) :
    Run.Agree n ((chain.runFrom level input).within session)
      (((chain.capped n).runFrom level other).within session) := by
  obtain ⟨stages⟩ := chain
  induction stages generalizing input other session with
  | nil => exact .ok h
  | cons stage rest ih =>
    rw [runFrom, runFrom, capped, List.map_cons, List.foldlM_cons, List.foldlM_cons,
      Work.within_bind, Work.within_bind]
    have hstage := stage.execute_capped level hn h session
    generalize (stage.execute level input).within session = left,
      ((stage.capped n).execute level other).within session = right at hstage
    cases hstage with
    | error => exact .error
    | ok hflows => exact ih hflows _

/-- Limits may be lowered to the number of rows in a bucket. -/
theorem runRows_capped (chain : Chain) (level : Granularity) {input : Bucket} (hn : 1 ≤ n)
    (h : input.items.length ≤ n) (session : Session) :
    ((chain.capped n).runRows level input).within session =
      (chain.runRows level input).within session := by
  have hstart : (Flow.ofBucket input).Agrees n (Flow.ofBucket input) :=
    .of_count_le ((Flow.count_ofBucket input).trans_le h)
  have hrun := chain.runFrom_capped level hn hstart session
  change (runFrom (chain.capped n) level _ >>= Flow.rows).within session =
    (runFrom chain level _ >>= Flow.rows).within session
  rw [Work.within_bind, Work.within_bind]
  generalize (chain.runFrom level (Flow.ofBucket input)).within session = left,
    ((chain.capped n).runFrom level (Flow.ofBucket input)).within session = right at hrun ⊢
  cases hrun with
  | error => rfl
  | ok hflows =>
    dsimp only
    rw [hflows.rows_eq]

end Chain

-- ---------------------------------------------------------------------------
-- Plans that are shipped
-- ---------------------------------------------------------------------------

namespace Projection

theorem granularity_shipped (projection : Projection) :
    projection.shipped.granularity = projection.granularity := by
  cases projection <;> rfl

theorem kind_shipped (projection : Projection) : projection.shipped.kind = projection.kind := by
  cases projection <;> rfl

theorem validateChain_shipped (plan : List Projection) :
    validateChain (plan.map shipped) = validateChain plan := by
  induction plan with
  | nil => rfl
  | cons before rest ih =>
    cases rest with
    | nil => rfl
    | cons after rest =>
      rw [List.map_cons, List.map_cons] at *
      simp only [validateChain, ih, granularity_shipped, kind_shipped]

end Projection

namespace Factory

variable (factory : Factory)

theorem action_shipped (projection : Projection) :
    factory.action projection.shipped =
      (factory.action projection).map (Action.capped 0xfffffffffffffffe) := by
  cases projection with
  | topN outputs keys limit offset granularity =>
    rw [Projection.shipped, action, action]
    rcases Expression.compileAll factory.registry outputs with e | outputs
    · rfl
    · rcases keys.mapM factory.sorter with e | keys
      · rfl
      · cases limit with
        | none => rfl
        | some n =>
          simp only [ok_bind, pure_eq_ok, Except.map, Action.capped, Option.map_some,
            Projection.toNat_shippedLimit]
  | _ =>
    -- any other projection is shipped as it is, and its stage has no limit
    rw [Projection.shipped]
    · rcases h : factory.action _ with e | action
      · rfl
      · cases builds h
        rfl
    · rintro _ _ _ _ _ ⟨⟩

theorem stage_shipped (projection : Projection) :
    factory.stage projection.shipped =
      (factory.stage projection).map (Stage.capped 0xfffffffffffffffe) := by
  rw [stage, stage, action_shipped, Projection.granularity_shipped]
  rcases factory.action projection with e | action
  · rfl
  · rfl

end Factory

theorem Chain.build_shipped (factory : Factory) (plan : List Projection) :
    build factory (plan.map Projection.shipped) =
      (build factory plan).map (Chain.capped 0xfffffffffffffffe) := by
  have hstages : (plan.map Projection.shipped).mapM factory.stage =
      (plan.mapM factory.stage).map (List.map (Stage.capped 0xfffffffffffffffe)) := by
    induction plan with
    | nil => rfl
    | cons projection rest ih =>
      rw [List.map_cons, List.mapM_cons, List.mapM_cons, ih, factory.stage_shipped]
      rcases factory.stage projection with e | stage
      · rfl
      · rcases rest.mapM factory.stage with e | stages
        · rfl
        · rfl
  rw [build, build, Projection.validateChain_shipped, hstages]
  rcases Projection.validateChain plan with e | _
  · rfl
  · rcases plan.mapM factory.stage with e | stages
    · rfl
    · rfl

/-- A window whose symbols readers take comes back from its bytes with its limit, unless this is the
greatest limit of all, which comes back as the one below it. No plan runs differently for that on a
bucket of fewer rows: it comes to the same rows or the same error, and takes and writes the same. -/
theorem limits_survive_iff {outputs : List Symbol} {keys : List SortKey} {limit : Option UInt64}
    {offset : UInt64} {granularity : Granularity}
    (hwrite : (Projection.topN outputs keys limit offset granularity).encode.error = none)
    (hreadable : ∀ s ∈ (Projection.topN outputs keys limit offset granularity).symbols,
      s.IsReadable) :
    let p := Projection.topN outputs keys limit offset granularity
    RoundTrips p.encode Projection.read p.shipped ∧
    (p.shipped = p ↔ limit ≠ some 0xffffffffffffffff) ∧
    ∀ plan : List Projection, (Projection.encodeAll plan).error = none →
      (∀ p ∈ plan, ∀ s ∈ p.symbols, s.IsReadable) →
        RoundTrips (Projection.encodeAll plan) Projection.readAll (plan.map Projection.shipped) ∧
        ∀ factory level (input : Bucket) session, input.items.length < 2 ^ 64 - 1 →
          (Chain.build factory (plan.map Projection.shipped)).map
              (fun chain => (chain.runRows level input).within session) =
            (Chain.build factory plan).map fun chain =>
              (chain.runRows level input).within session := by
  refine ⟨Projection.roundTrips_shipped hwrite hreadable, Projection.shipped_topN_eq_iff,
    fun plan hwrite hreadable => ⟨?_, ?_⟩⟩
  · exact Projection.encodeAll_shipped hwrite hreadable
  · intro factory level input session hinput
    rw [Chain.build_shipped]
    rcases Chain.build factory plan with e | chain
    · rfl
    · have hrun := chain.runRows_capped (n := 0xfffffffffffffffe) level (by decide)
        (Nat.le_of_lt_succ hinput) session
      exact congrArg Except.ok hrun

theorem limits_survive_iff_greatest :
    let p (limit : UInt64) : Projection := .topN [.reference 0 .long] [] (some limit) 1 .node
    let input : Bucket := .materialized [[.long 7], [.long 5]]
    RoundTrips (p 3).encode Projection.read (p 3) ∧
      RoundTrips (Projection.encodeAll [p 0xffffffffffffffff]) Projection.readAll
        [p 0xfffffffffffffffe] ∧
      (Chain.build .standard [p 0xfffffffffffffffe]).map (fun chain =>
        (chain.runRows .node input).within (.start false .empty)) =
        .ok (.ok [[.long 5]], .start false .empty) := by
  intro p input
  have hwrite (limit : UInt64) : (p limit).encode.error = none := rfl
  have hreadable (limit : UInt64) : ∀ s ∈ (p limit).symbols, s.IsReadable := by
    simp [p, Projection.symbols, Symbol.IsReadable, Symbol.IsFlat, Symbol.literals, Symbol.levels,
      Symbol.maxDepth]
  obtain ⟨hread, hsame, hplans⟩ := limits_survive_iff (hwrite 3) (hreadable 3)
  rw [hsame.mpr (by decide)] at hread
  obtain ⟨hplan, hrun⟩ := hplans [p 0xffffffffffffffff] rfl
    (by simpa using hreadable 0xffffffffffffffff)
  exact ⟨hread, hplan, hrun .standard .node input (.start false .empty) (by decide)⟩

/-- The greatest limit is not the one that is read. -/
theorem greatest_limit_lowered :
    let p (limit : UInt64) := Projection.topN [.reference 0 .long] [] (some limit) 0 .cluster
    let bytes := [3, 1, 1, 0, 5, 0, 255, 255, 255, 255, 255, 255, 255, 255, 255, 1, 0, 3]
    (p 0xffffffffffffffff).encode.toExcept = .ok bytes ∧
      (Projection.read.start bytes).1 = .ok (p 0xfffffffffffffffe) ∧
      p 0xfffffffffffffffe ≠ p 0xffffffffffffffff := by
  refine ⟨by decide +kernel, rfl, fun h => ?_⟩
  have hlimit := congrArg Projection.limit? h
  exact absurd (Option.some.inj hlimit) (by decide)

end ShardQuery
