import ShardQuery.Proofs.Aggregate.Calls
import ShardQuery.Proofs.Execution.Grouping
/-!
# Aggregation on three levels

Shards turn their rows into rows of states, nodes merge the rows of their shards, and
the rows of all nodes are merged into the result. What stands for a list of rows on
one level stands for the same rows on the next.
-/

namespace ShardQuery

namespace Action

open Call

/-- The first columns, which hold the keys behind the first level. -/
def columns (count : Nat) : List Expression := (List.range count).map .input

variable {keys : List Expression} {calls : List Call} {rows out carriers : List Row}
  {groups : List Group} {bucket : Bucket} {toStep : AggregateStep}

theorem evaluateAll_inputs (row : Row) (start count : Nat) (h : start + count ≤ row.length) :
    Expression.evaluateAll row ((List.range' start count).map .input) =
      .ok ((row.drop start).take count) := by
  induction count generalizing start with
  | zero => simp [Expression.evaluateAll]
  | succ count ih =>
    have hlt : start < row.length := by omega
    rw [List.range'_succ, List.map_cons, Expression.evaluateAll, Expression.evaluate,
      List.getElem?_eq_getElem hlt, ih (start + 1) (by omega), List.drop_eq_getElem_cons hlt]
    rfl

theorem project_columns {key rest : Row} :
    Expression.project (columns key.length) (key ++ rest) = .ok key := by
  rw [columns, List.range_eq_range', Expression.project,
    evaluateAll_inputs _ _ _ (by simp), List.drop_zero, List.take_left]

theorem length_project {row key : Row} (h : Expression.project keys row = .ok key) :
    key.length = keys.length := by
  rw [Expression.project] at h
  induction keys generalizing key with
  | nil =>
    cases h
    rfl
  | cons e keys ih =>
    obtain ⟨v, -, h⟩ := bind_eq_ok.mp h
    obtain ⟨rest, hrest, h⟩ := bind_eq_ok.mp h
    cases h
    rw [List.length_cons, List.length_cons, ih hrest]

structure Stands (keys : List Expression) (calls : List Call) (rows : List Row)
    (key carrier : Row) : Prop where
  length : key.length = keys.length
  stateless : key.Stateless
  carries : ∃ states, carrier = key ++ states.map .state ∧
    Known calls (rows.filter fun row => keyOf keys row == key) states

structure StandsFor (keys : List Expression) (calls : List Call) (carriers rows : List Row) :
    Prop where
  keyed : ∀ row ∈ rows, (keyOf keys row).length = keys.length ∧ (keyOf keys row).Stateless
  stand : List.Forall₂ (Stands keys calls rows) (rows.map (keyOf keys)).eraseDups carriers

theorem Stands.project {key carrier : Row} (h : Stands keys calls rows key carrier) :
    Expression.project (columns keys.length) carrier = .ok key := by
  obtain ⟨states, rfl, -⟩ := h.carries
  rw [← h.length]
  exact project_columns

theorem Stands.filter {ks : List Row} (h : List.Forall₂ (Stands keys calls rows) ks carriers)
    (k : Row) :
    List.Forall₂ (Carries calls keys.length)
      (carriers.filter fun row => keyOf (columns keys.length) row == k)
      ((ks.filter (· == k)).map fun key => rows.filter fun row => keyOf keys row == key) := by
  induction h with
  | nil => exact .nil
  | @cons key carrier ks carriers hstands _ ih =>
    rw [List.filter_cons, List.filter_cons, keyOf_eq hstands.project]
    split
    · obtain ⟨states, hrow, hknown⟩ := hstands.carries
      exact .cons ⟨key, states, hrow, hstands.length, hknown⟩ ih
    · exact ih

theorem Stands.keyed {ks : List Row} (h : List.Forall₂ (Stands keys calls rows) ks carriers) :
    ∀ carrier ∈ carriers, Keyed (columns keys.length) carrier := by
  intro carrier hm key hkey
  obtain ⟨k, -, hstands⟩ := forall₂_mem_right h hm
  rw [hstands.project] at hkey
  cases hkey
  exact hstands.stateless

namespace StandsFor

theorem keys_eq (h : StandsFor keys calls carriers rows) :
    carriers.map (keyOf (columns keys.length)) = (rows.map (keyOf keys)).eraseDups := by
  symm
  rw [← List.forall₂_eq_eq_eq, List.forall₂_map_right_iff]
  exact h.stand.imp fun _ _ hs => (keyOf_eq hs.project).symm

theorem parts (h : StandsFor keys calls carriers rows) (k : Row) :
    ∃ parts, List.Forall₂ (Carries calls keys.length)
      (carriers.filter fun row => keyOf (columns keys.length) row == k) parts ∧
        parts.flatten = rows.filter fun row => keyOf keys row == k := by
  refine ⟨_, Stands.filter h.stand k, ?_⟩
  rw [eraseDups_filter_beq]
  split
  · simp
  · rename_i hk
    symm
    rw [List.map_nil, List.flatten_nil, List.filter_eq_nil_iff]
    intro row hrow hkey
    exact hk (List.mem_map.mpr ⟨row, hrow, beq_iff_eq.mp hkey⟩)

end StandsFor

variable {outs rowss : List (List Row)}

theorem parts_flatten (h : List.Forall₂ (StandsFor keys calls) outs rowss) (k : Row) :
    ∃ parts, List.Forall₂ (Carries calls keys.length)
      (outs.flatten.filter fun row => keyOf (columns keys.length) row == k) parts ∧
        parts.flatten = rowss.flatten.filter fun row => keyOf keys row == k := by
  induction h with
  | nil => exact ⟨[], .nil, rfl⟩
  | cons hs _ ih =>
    obtain ⟨first, hfirst, hf⟩ := hs.parts k
    obtain ⟨rest, hrest, hr⟩ := ih
    refine ⟨first ++ rest, ?_, ?_⟩
    · rw [List.flatten_cons, List.filter_append]
      exact List.rel_append hfirst hrest
    · rw [List.flatten_append, List.flatten_cons, List.filter_append, hf, hr]

theorem keyed_rows (h : List.Forall₂ (StandsFor keys calls) outs rowss) :
    ∀ row ∈ rowss.flatten, (keyOf keys row).length = keys.length ∧ (keyOf keys row).Stateless := by
  intro row hm
  obtain ⟨rows, hrows, hm⟩ := List.mem_flatten.mp hm
  obtain ⟨out, -, hs⟩ := forall₂_mem_right h hrows
  exact hs.keyed row hm

theorem keyed_flatten (h : List.Forall₂ (StandsFor keys calls) outs rowss) :
    ∀ carrier ∈ outs.flatten, Keyed (columns keys.length) carrier := by
  intro carrier hm
  obtain ⟨out, hout, hm⟩ := List.mem_flatten.mp hm
  obtain ⟨rows, -, hs⟩ := forall₂_mem_left h hout
  exact Stands.keyed hs.stand carrier hm

theorem keys_flatten (h : List.Forall₂ (StandsFor keys calls) outs rowss) :
    (outs.flatten.map (keyOf (columns keys.length))).eraseDups =
      (rowss.flatten.map (keyOf keys)).eraseDups := by
  have houts : outs.map (List.map (keyOf (columns keys.length))) =
      (rowss.map (List.map (keyOf keys))).map List.eraseDups := by
    rw [← List.forall₂_eq_eq_eq, List.map_map, List.forall₂_map_left_iff,
      List.forall₂_map_right_iff]
    exact h.imp fun _ _ hs => hs.keys_eq
  rw [List.map_flatten, List.map_flatten, houts, eraseDups_flatten]

def Collected (keys : List Expression) (calls : List Call) (rows : List Row)
    (groups : List Group) : Prop :=
  ∀ g ∈ groups, Known calls (rows.filter fun row => keyOf keys row == g.1) g.2

theorem Grouped.collected (h : Grouped keys (overRows toStep calls) rows groups)
    (hexact : ∀ call ∈ calls, call.function.Exact)
    (hsuits : ∀ row ∈ rows, ∀ call ∈ calls, call.Suits row) :
    Collected keys calls rows groups := by
  intro g hg
  have hstates := h.states g hg
  rw [initial_overRows] at hstates
  exact (known_initial hexact).takeRows
    (fun row hrow => hsuits row (List.mem_of_mem_filter hrow)) hstates

/-- Merging carriers collects the rows that they stand for, in whatever order they come. -/
theorem Grouped.merged (h : List.Forall₂ (StandsFor keys calls) outs rowss)
    (hp : carriers.Perm outs.flatten)
    (hg : Grouped (columns keys.length) (overStates toStep keys.length calls) carriers groups)
    (hexact : ∀ call ∈ calls, call.function.Exact) :
    Collected keys calls rowss.flatten groups := by
  intro g hm
  have hstates := hg.states g hm
  rw [initial_overStates] at hstates
  obtain ⟨parts, hparts, hflatten⟩ := parts_flatten h g.1
  obtain ⟨others, hothers, hperm⟩ := List.perm_comp_forall₂
    (hp.filter fun row => keyOf (columns keys.length) row == g.1) hparts
  have hknown := (known_initial hexact).takeParts hothers hstates
  rw [List.nil_append] at hknown
  rw [← hflatten]
  exact hknown.perm hperm.flatten

theorem Collected.standsFor (h : Collected keys calls rows groups)
    (hkeyed : ∀ row ∈ rows, (keyOf keys row).length = keys.length ∧ (keyOf keys row).Stateless)
    (hkeys : groups.map Prod.fst = (rows.map (keyOf keys)).eraseDups)
    (hemits : List.Forall₂ (Emits (overRows .states calls)) groups out) :
    StandsFor keys calls out rows := by
  refine ⟨hkeyed, ?_⟩
  rw [← hkeys, List.forall₂_map_left_iff]
  refine List.Forall₂.imp ?_ ((List.forall₂_and_left _ _).mpr ⟨fun g hg => hg, hemits⟩)
  rintro g carrier ⟨hg, values, hvalues, hcarrier⟩
  have hkey : g.1 ∈ rows.map (keyOf keys) := by
    rw [← List.mem_eraseDups, ← hkeys]
    exact List.mem_map_of_mem hg
  obtain ⟨row, hrow, hkey⟩ := List.mem_map.mp hkey
  obtain ⟨hlength, hstateless⟩ := hkeyed row hrow
  rw [hkey] at hlength hstateless
  have hknown := h g hg
  rw [emitAll_states (List.Forall₂.length_eq hknown).symm] at hvalues
  cases hvalues
  exact ⟨hlength, hstateless, g.2, hcarrier, hknown⟩

/-- The rows with a key determine the states of the group. -/
theorem exists_states (keys : List Expression) (calls : List Call) (rows : List Row) :
    ∃ states : Row → List PartialState, ∀ groups, Collected keys calls rows groups →
      groups = (groups.map Prod.fst).map fun key => (key, states key) := by
  -- `Known.unique`: whichever states are chosen, no others are known of the same rows
  let states (key : Row) : List PartialState :=
    Classical.epsilon (Known calls (rows.filter fun row => keyOf keys row == key))
  refine ⟨states, fun groups h => ?_⟩
  have hid : groups.map ((fun key => (key, states key)) ∘ Prod.fst) = groups.map id := by
    refine List.map_congr_left fun g hg => Prod.ext rfl ?_
    have hknown : Known calls _ (states g.1) := Classical.epsilon_spec ⟨g.2, h g hg⟩
    exact hknown.unique (h g hg)
  rw [List.map_map, hid, List.map_id]

theorem Emits.unique {aggregators : List Aggregator} {g : Group} {row other : Row}
    (h : Emits aggregators g row) (h' : Emits aggregators g other) : row = other := by
  obtain ⟨values, hvalues, rfl⟩ := h
  obtain ⟨values', hvalues', rfl⟩ := h'
  rw [hvalues] at hvalues'
  cases hvalues'
  rfl

theorem emits_unique {aggregators : List Aggregator} {others : List Row}
    (h : List.Forall₂ (Emits aggregators) groups out)
    (h' : List.Forall₂ (Emits aggregators) groups others) : out = others :=
  List.right_unique_forall₂' (fun _ _ _ hrow hrow' => hrow.unique hrow') h h'

theorem emits_overStates (place : Nat) :
    Emits (overStates toStep place calls) = Emits (overRows toStep calls) := by
  funext g row
  simp only [Emits, emitAll_overStates]

theorem Collected.out_eq {others : List Group} {aggregators : List Aggregator} {out' : List Row}
    (h : Collected keys calls rows groups) (h' : Collected keys calls rows others)
    (hkeys : groups.map Prod.fst = others.map Prod.fst)
    (hemits : List.Forall₂ (Emits aggregators) groups out)
    (hemits' : List.Forall₂ (Emits aggregators) others out') : out = out' := by
  obtain ⟨states, hstates⟩ := exists_states keys calls rows
  have hgroups : groups = others := by
    rw [hstates groups h, hstates others h', hkeys]
  exact emits_unique hemits (hgroups ▸ hemits')

theorem Collected.out_perm {others : List Group} {aggregators : List Aggregator} {out' : List Row}
    (h : Collected keys calls rows groups) (h' : Collected keys calls rows others)
    (hkeys : (groups.map Prod.fst).Perm (others.map Prod.fst))
    (hemits : List.Forall₂ (Emits aggregators) groups out)
    (hemits' : List.Forall₂ (Emits aggregators) others out') : out.Perm out' := by
  obtain ⟨states, hstates⟩ := exists_states keys calls rows
  have hgroups : groups.Perm others := by
    rw [hstates groups h, hstates others h']
    exact hkeys.map _
  obtain ⟨middle, hmiddle, hperm⟩ := List.perm_comp_forall₂ hgroups hemits'
  rw [emits_unique hemits hmiddle]
  exact hperm

-- ---------------------------------------------------------------------------
-- Levels
-- ---------------------------------------------------------------------------

structure Regular (keys : List Expression) (calls : List Call) (bucket : Bucket) : Prop where
  keyed : ∀ rows, bucket.rows = .ok rows → ∀ row ∈ rows, Keyed keys row
  suits : ∀ rows, bucket.rows = .ok rows → ∀ row ∈ rows, ∀ call ∈ calls, call.Suits row

theorem Regular.concat {buckets : List Bucket} (h : ∀ shard ∈ buckets, Regular keys calls shard) :
    Regular keys calls (Bucket.concat buckets) := by
  constructor
  · intro rows hrows row hrow
    obtain ⟨shard, hshard, own, hown, hrow⟩ := Bucket.mem_concat hrows hrow
    exact (h shard hshard).keyed own hown row hrow
  · intro rows hrows row hrow
    obtain ⟨shard, hshard, own, hown, hrow⟩ := Bucket.mem_concat hrows hrow
    exact (h shard hshard).suits own hown row hrow

theorem group_shard (hexact : ∀ call ∈ calls, call.function.Exact)
    (hregular : Regular keys calls bucket)
    (h : (group keys (overRows toStep calls)).Makes bucket out) :
    ∃ rows groups, bucket.rows = .ok rows ∧
      (∀ row ∈ rows, (keyOf keys row).length = keys.length ∧ (keyOf keys row).Stateless) ∧
      Collected keys calls rows groups ∧
      groups.map Prod.fst = (rows.map (keyOf keys)).eraseDups ∧
      List.Forall₂ (Emits (overRows toStep calls)) groups out := by
  obtain ⟨rows, groups, hrows, hfold, hemits⟩ := h.group
  have hgrouped := foldlM_addRow (hregular.keyed rows hrows) hfold
  refine ⟨rows, groups, hrows, fun row hrow => ?_,
    hgrouped.collected hexact (hregular.suits rows hrows), hgrouped.keys_eq, hemits⟩
  have hproject := hgrouped.projects row hrow
  exact ⟨length_project hproject, hregular.keyed rows hrows row hrow _ hproject⟩

theorem group_states (hexact : ∀ call ∈ calls, call.function.Exact)
    (h : List.Forall₂ (StandsFor keys calls) outs rowss) (hp : carriers.Perm outs.flatten)
    (hrows : bucket.rows = .ok carriers)
    (hm : (group (columns keys.length) (overStates toStep keys.length calls)).Makes bucket out) :
    ∃ groups, Collected keys calls rowss.flatten groups ∧
      groups.map Prod.fst = (carriers.map (keyOf (columns keys.length))).eraseDups ∧
      List.Forall₂ (Emits (overRows toStep calls)) groups out := by
  obtain ⟨rows, groups, hrows', hfold, hemits⟩ := hm.group
  obtain rfl := Except.ok.inj (hrows.symm.trans hrows')
  have hgrouped := foldlM_addRow (fun row hrow => keyed_flatten h row (hp.mem_iff.mp hrow)) hfold
  exact ⟨groups, hgrouped.merged h hp hexact, hgrouped.keys_eq, emits_overStates _ ▸ hemits⟩

/-- What runs on the shards, on the nodes and behind them, and what does all of it at once. -/
structure Levels where
  shard : Action
  node : Action
  result : Action
  single : Action

def groupLevels (keys : List Expression) (calls : List Call) : Levels where
  shard := group keys (overRows .states calls)
  node := group (columns keys.length) (overStates .states keys.length calls)
  result := group (columns keys.length) (overStates .results keys.length calls)
  single := group keys (overRows .results calls)

def aggregationLevels (calls : List Call) : Levels where
  shard := aggregation (overRows .states calls)
  node := aggregation (overStates .states 0 calls)
  result := aggregation (overStates .results 0 calls)
  single := aggregation (overRows .results calls)

def Levels.Merges (levels : Levels) (nodes : List (List Bucket)) (merged : List (List Row)) :
    Prop :=
  List.Forall₂ (fun shards out => ∃ partials, List.Forall₂ levels.shard.Makes shards partials ∧
    levels.node.Makes (Bucket.concat (partials.map .materialized)) out) nodes merged

theorem exists_rows {action : Action} {shards : List Bucket} {partials : List (List Row)}
    {p : Bucket → Prop} {r : List Row → List Row → Prop}
    (h : List.Forall₂ action.Makes shards partials) (hp : ∀ shard ∈ shards, p shard)
    (hshard : ∀ shard out, p shard → action.Makes shard out →
      ∃ rows, shard.rows = .ok rows ∧ r out rows) :
    ∃ rowss, List.Forall₂ (fun shard rows => shard.rows = .ok rows) shards rowss ∧
      List.Forall₂ r partials rowss := by
  induction h with
  | nil => exact ⟨[], .nil, .nil⟩
  | @cons shard out shards partials hmakes _ ih =>
    obtain ⟨rowss, hrowss, hr⟩ := ih fun s hs => hp s (List.mem_cons_of_mem _ hs)
    obtain ⟨rows, hrows, hout⟩ := hshard shard out (hp shard List.mem_cons_self) hmakes
    exact ⟨rows :: rowss, .cons hrows hrowss, .cons hout hr⟩

/-- A run on all levels beside a run on one. The rows of the nodes are merged in some order, and
maybe cut into other chunks. -/
structure Levels.Runs (levels : Levels) (nodes : List (List Bucket))
    (merged chunks : List (List Row)) (result single : List Row) : Prop where
  merges : levels.Merges nodes merged
  reordered : chunks.flatten.Perm merged.flatten
  result : levels.result.Makes (Bucket.concat (chunks.map .materialized)) result
  single : levels.single.Makes (Bucket.concat nodes.flatten) single

theorem Levels.Merges.stand {levels : Levels} {nodes : List (List Bucket)}
    {merged : List (List Row)} {p : Bucket → Prop} {r : List Row → List Row → Prop}
    (h : levels.Merges nodes merged) (hp : ∀ shard ∈ nodes.flatten, p shard)
    (hshard : ∀ shard out, p shard → levels.shard.Makes shard out →
      ∃ rows, shard.rows = .ok rows ∧ r out rows)
    (hnode : ∀ partials rowss out, List.Forall₂ r partials rowss →
      levels.node.Makes (Bucket.concat (partials.map .materialized)) out → r out rowss.flatten) :
    ∃ rowss, (Bucket.concat nodes.flatten).rows = .ok rowss.flatten ∧
      List.Forall₂ r merged rowss := by
  -- the rows stay apart by nodes and shards as long as the induction runs over the nodes
  suffices hsplit : ∃ rowsss,
      List.Forall₂ (List.Forall₂ fun shard rows => shard.rows = .ok rows) nodes rowsss ∧
        List.Forall₂ r merged (rowsss.map List.flatten) by
    obtain ⟨rowsss, hrows, hmerged⟩ := hsplit
    refine ⟨_, ?_, hmerged⟩
    rw [← List.flatten_flatten]
    exact Bucket.rows_concat (List.rel_flatten hrows)
  induction h with
  | nil => exact ⟨[], .nil, .nil⟩
  | @cons shards out nodes merged hnodes _ ih =>
    rw [List.flatten_cons] at hp
    obtain ⟨partials, hpartials, hout⟩ := hnodes
    obtain ⟨rowsss, hrowsss, hmerged⟩ := ih fun s hs => hp s (List.mem_append_right _ hs)
    obtain ⟨rowss, hrowss, hr⟩ :=
      exists_rows hpartials (fun s hs => hp s (List.mem_append_left _ hs)) hshard
    exact ⟨rowss :: rowsss, .cons hrowss hrowsss, .cons (hnode _ _ _ hr hout) hmerged⟩

variable {nodes : List (List Bucket)} {merged chunks : List (List Row)} {result single : List Row}

theorem groupLevels_stand (hexact : ∀ call ∈ calls, call.function.Exact)
    (hregular : ∀ shard ∈ nodes.flatten, Regular keys calls shard)
    (h : (groupLevels keys calls).Merges nodes merged) :
    ∃ rowss, (Bucket.concat nodes.flatten).rows = .ok rowss.flatten ∧
      List.Forall₂ (StandsFor keys calls) merged rowss := by
  refine h.stand hregular ?_ ?_
  · intro shard out hshard hmakes
    obtain ⟨rows, groups, hrows, hkeyed, hcollected, hkeys, hemits⟩ :=
      group_shard hexact hshard hmakes
    exact ⟨rows, hrows, hcollected.standsFor hkeyed hkeys hemits⟩
  · intro partials rowss out hpartials hmakes
    obtain ⟨groups, hcollected, hkeys, hemits⟩ := group_states hexact hpartials (.refl _)
      (Bucket.rows_concat_materialized partials) hmakes
    exact hcollected.standsFor (keyed_rows hpartials) (hkeys.trans (keys_flatten hpartials)) hemits

theorem groupLevels_result (hexact : ∀ call ∈ calls, call.function.Exact)
    (hregular : ∀ shard ∈ nodes.flatten, Regular keys calls shard)
    (h : (groupLevels keys calls).Runs nodes merged chunks result single) :
    result.Perm single ∧ (chunks = merged → result = single) := by
  obtain ⟨rowss, hconcat, hstand⟩ := groupLevels_stand hexact hregular h.merges
  obtain ⟨rows, groups, hrows, -, hcollected, hkeys, hemits⟩ :=
    group_shard hexact (Regular.concat hregular) h.single
  obtain rfl := Except.ok.inj (hconcat.symm.trans hrows)
  obtain ⟨others, hcollected', hkeys', hemits'⟩ := group_states hexact hstand h.reordered
    (Bucket.rows_concat_materialized chunks) h.result
  have hmerged := keys_flatten hstand
  constructor
  · refine hcollected'.out_perm hcollected ?_ hemits' hemits
    rw [hkeys, hkeys', ← hmerged]
    exact eraseDups_perm (h.reordered.map _)
  · rintro rfl
    exact hcollected'.out_eq hcollected (by rw [hkeys, hkeys', hmerged]) hemits' hemits

-- ---------------------------------------------------------------------------
-- Aggregation without keys
-- ---------------------------------------------------------------------------

theorem aggregation_shard (hexact : ∀ call ∈ calls, call.function.Exact)
    (hregular : Regular keys calls bucket)
    (h : (aggregation (overRows toStep calls)).Makes bucket out) :
    ∃ rows states values, bucket.rows = .ok rows ∧ Known calls rows states ∧
      Aggregator.emitAll (overRows toStep calls) states = .ok values ∧ out = [values] := by
  obtain ⟨rows, states, values, hrows, hfold, hemit, rfl⟩ := h.aggregation
  rw [initial_overRows] at hfold
  exact ⟨rows, states, values, hrows,
    (known_initial hexact).takeRows (hregular.suits rows hrows) hfold, hemit, rfl⟩

theorem aggregation_states (hexact : ∀ call ∈ calls, call.function.Exact)
    (h : List.Forall₂ (fun out rows => List.Forall₂ (Carries calls 0) out [rows]) outs rowss)
    (hp : carriers.Perm outs.flatten) (hrows : bucket.rows = .ok carriers)
    (hm : (aggregation (overStates toStep 0 calls)).Makes bucket out) :
    ∃ states values, Known calls rowss.flatten states ∧
      Aggregator.emitAll (overRows toStep calls) states = .ok values ∧ out = [values] := by
  obtain ⟨rows, states, values, hrows', hfold, hemit, rfl⟩ := hm.aggregation
  obtain rfl := Except.ok.inj (hrows.symm.trans hrows')
  rw [initial_overStates] at hfold
  have hparts : List.Forall₂ (Carries calls 0) outs.flatten rowss := by
    have hsplit : List.Forall₂ (List.Forall₂ (Carries calls 0)) outs (rowss.map ([·])) :=
      List.forall₂_map_right_iff.mpr h
    have hflatten := List.rel_flatten hsplit
    rwa [← List.flatMap_def, List.flatMap_singleton'] at hflatten
  obtain ⟨others, hothers, hperm⟩ := List.perm_comp_forall₂ hp hparts
  have hknown := (known_initial hexact).takeParts hothers hfold
  exact ⟨states, values, hknown.perm hperm.flatten, emitAll_overStates ▸ hemit, rfl⟩

theorem aggregationLevels_stand (hexact : ∀ call ∈ calls, call.function.Exact)
    (hregular : ∀ shard ∈ nodes.flatten, Regular keys calls shard)
    (h : (aggregationLevels calls).Merges nodes merged) :
    ∃ rowss, (Bucket.concat nodes.flatten).rows = .ok rowss.flatten ∧
      List.Forall₂ (fun out rows => List.Forall₂ (Carries calls 0) out [rows]) merged rowss := by
  have hcarries {rows : List Row} {states : List PartialState} {values : List Value}
      (hknown : Known calls rows states)
      (hemit : Aggregator.emitAll (overRows .states calls) states = .ok values) :
      List.Forall₂ (Carries calls 0) [values] [rows] := by
    rw [emitAll_states (List.Forall₂.length_eq hknown).symm] at hemit
    cases hemit
    exact .cons ⟨[], states, rfl, rfl, hknown⟩ .nil
  refine h.stand hregular ?_ ?_
  · intro shard out hshard hmakes
    obtain ⟨rows, states, values, hrows, hknown, hemit, rfl⟩ :=
      aggregation_shard hexact hshard hmakes
    exact ⟨rows, hrows, hcarries hknown hemit⟩
  · intro partials rowss out hpartials hmakes
    obtain ⟨states, values, hknown, hemit, rfl⟩ := aggregation_states hexact hpartials (.refl _)
      (Bucket.rows_concat_materialized partials) hmakes
    exact hcarries hknown hemit

theorem aggregationLevels_result (hexact : ∀ call ∈ calls, call.function.Exact)
    (hregular : ∀ shard ∈ nodes.flatten, Regular keys calls shard)
    (h : (aggregationLevels calls).Runs nodes merged chunks result single) :
    result = single ∧ single.length = 1 := by
  obtain ⟨rowss, hconcat, hstand⟩ := aggregationLevels_stand hexact hregular h.merges
  obtain ⟨rows, states, values, hrows, hknown, hemit, rfl⟩ :=
    aggregation_shard hexact (Regular.concat hregular) h.single
  obtain rfl := Except.ok.inj (hconcat.symm.trans hrows)
  obtain ⟨others, values', hknown', hemit', rfl⟩ := aggregation_states hexact hstand h.reordered
    (Bucket.rows_concat_materialized chunks) h.result
  obtain rfl := hknown'.unique hknown
  obtain rfl := Except.ok.inj (hemit'.symm.trans hemit)
  exact ⟨rfl, rfl⟩

-- ---------------------------------------------------------------------------
-- The layout of the cluster
-- ---------------------------------------------------------------------------

/-- However the rows lie on shards and nodes, three levels come to what one level makes of all
rows. Groups keep their order if the rows of the nodes are merged in order, and come in some order
otherwise. -/
theorem layout_irrelevant (hexact : ∀ call ∈ calls, call.function.Exact)
    (hregular : ∀ shard ∈ nodes.flatten, Regular keys calls shard) :
    (∀ merged chunks result single,
      (groupLevels keys calls).Runs nodes merged chunks result single →
      result.Perm single ∧ (chunks = merged → result = single)) ∧
    (∀ merged chunks result single,
      (aggregationLevels calls).Runs nodes merged chunks result single →
      result = single ∧ single.length = 1) := by
  refine ⟨fun merged chunks result single h => ?_, fun merged chunks result single h => ?_⟩
  · exact groupLevels_result hexact hregular h
  · exact aggregationLevels_result hexact hregular h

/-- Three nodes, the last without shards, whose rows are merged from the last node to the first. -/
theorem layout_irrelevant_reversed :
    let calls : List Call := [⟨⟨⟨⟨"sum", [.long]⟩, .long, .aggregate⟩, .sum⟩, [.input 1]⟩,
      ⟨⟨⟨⟨"max", [.long]⟩, .long, .aggregate⟩, .extreme true⟩, [.input 1]⟩]
    let nodes : List (List Bucket) :=
      [[.materialized [[.string "b", .long 1], [.string "a", .long 2]], .materialized []],
        [.streamed [.ok [.string "a", .long 5]]], []]
    let states (key : String) (sum greatest : Int64) : Row :=
      [.string key, .state (.sumLong (some sum)), .state (.extreme true (.long greatest))]
    let merged := [[states "b" 1 1, states "a" 2 2], [states "a" 5 5], []]
    let result := [[.string "a", .long 7, .long 5], [.string "b", .long 1, .long 1]]
    (groupLevels [.input 0] calls).Runs nodes merged merged.reverse result result.reverse ∧
      result.Perm result.reverse := by
  intro calls nodes states merged result
  have hruns : (groupLevels [.input 0] calls).Runs nodes merged merged.reverse result
      result.reverse := by
    let session := Session.start false Sink.empty
    refine ⟨?_, (List.reverse_perm merged).flatten, ⟨session, _, rfl⟩, ⟨session, _, rfl⟩⟩
    refine .cons ⟨[merged.head!, []], ?_, session, _, rfl⟩
      (.cons ⟨[[states "a" 5 5]], ?_, session, _, rfl⟩
        (.cons ⟨[], .nil, session, _, rfl⟩ .nil))
    · exact .cons ⟨session, _, rfl⟩ (.cons ⟨session, _, rfl⟩ .nil)
    · exact .cons ⟨session, _, rfl⟩ .nil
  have hexact : ∀ call ∈ calls, call.function.Exact := by
    intro call hcall
    simp only [calls, List.mem_cons, List.not_mem_nil, or_false] at hcall
    rcases hcall with rfl | rfl
    · exact ⟨.sum, [.long], rfl, .inr (.inl ⟨rfl, by decide⟩)⟩
    · exact ⟨.extreme true, [.long], rfl, .inr (.inr ⟨true, rfl⟩)⟩
  have hrow : ∀ shard ∈ nodes.flatten, ∀ rows, shard.rows = .ok rows → ∀ row ∈ rows,
      ∃ s n, row = [.string s, .long n] := by
    intro shard hshard rows hrows row hrow
    simp only [nodes, List.flatten_cons, List.flatten_nil, List.cons_append, List.nil_append,
      List.mem_cons, List.not_mem_nil, or_false] at hshard
    rcases hshard with rfl | rfl | rfl <;> cases hrows <;> simp at hrow
    · rcases hrow with rfl | rfl <;> exact ⟨_, _, rfl⟩
    · exact ⟨_, _, hrow⟩
  have hregular : ∀ shard ∈ nodes.flatten, Regular [.input 0] calls shard := by
    intro shard hshard
    constructor
    · intro rows hrows row hr key hkey
      obtain ⟨s, n, rfl⟩ := hrow shard hshard rows hrows row hr
      cases hkey
      intro v hv
      rw [List.mem_singleton.mp hv]
      simp [Value.dataType]
    · intro rows hrows row hr call hcall
      obtain ⟨s, n, rfl⟩ := hrow shard hshard rows hrows row hr
      intro arguments ha
      simp only [calls, List.mem_cons, List.not_mem_nil, or_false] at hcall
      rcases hcall with rfl | rfl <;> cases ha <;>
        exact ⟨.cons rfl .nil, by simp [Value.isSingleNaN]⟩
  exact ⟨hruns, ((layout_irrelevant hexact hregular).1 _ _ _ _ hruns).1⟩

end Action

end ShardQuery
