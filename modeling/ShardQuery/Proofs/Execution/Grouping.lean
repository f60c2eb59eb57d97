import ShardQuery.Proofs.Distinct
import ShardQuery.Proofs.Execution.Run
import ShardQuery.Proofs.Value.Sameness
/-!
# Groups

A group holds what its aggregators make of the rows with its keys, all of them, in
the order in which they came. The groups stand in the order of their first rows.
-/

namespace ShardQuery

/-- No value of the row is a state. States are compared more loosely than other values. -/
def Row.Stateless (row : Row) : Prop := ∀ v ∈ row, v.dataType ≠ .aggregationState

theorem Row.same_iff {a b : Row} (h : a.Stateless) : Row.same a b = true ↔ a = b := by
  induction a generalizing b with
  | nil => cases b <;> simp [Row.same]
  | cons v a ih =>
    cases b with
    | nil => simp [Row.same]
    | cons w b =>
      have hv : v.dataType ≠ .aggregationState := h v List.mem_cons_self
      have ha : Row.Stateless a := fun w hw => h w (List.mem_cons_of_mem _ hw)
      rw [Row.same, Bool.and_eq_true, Value.same_iff hv, ih ha, List.cons.injEq]

def keyOf (keys : List Expression) (row : Row) : Row :=
  ((Expression.project keys row).toOption).getD []

theorem keyOf_eq {keys : List Expression} {row key : Row}
    (h : Expression.project keys row = .ok key) : keyOf keys row = key := by
  rw [keyOf, h]
  rfl

namespace Action

variable {keys : List Expression} {aggregators : List Aggregator} {rows : List Row}
  {groups next : List Group} {key row : Row}

/-- A row either joins the group of its keys or starts a group behind all others. -/
inductive Joins (aggregators : List Aggregator) (key row : Row) (groups next : List Group) : Prop
  | old (before after : List Group) {states states' : List PartialState} :
      groups = before ++ (key, states) :: after → (∀ g ∈ before, g.1 ≠ key) →
      Aggregator.accumulateAll aggregators states row = .ok states' →
      next = before ++ (key, states') :: after → Joins aggregators key row groups next
  | new {states : List PartialState} : (∀ g ∈ groups, g.1 ≠ key) →
      Aggregator.accumulateAll aggregators (aggregators.map Aggregator.initial) row = .ok states →
      next = groups ++ [(key, states)] → Joins aggregators key row groups next

theorem addToGroups_joins (hkey : key.Stateless)
    (h : addToGroups aggregators key row groups = .ok next) :
    Joins aggregators key row groups next := by
  induction groups generalizing next with
  | nil =>
    obtain ⟨states, hstates, h⟩ := bind_eq_ok.mp h
    cases h
    exact .new (by simp) hstates rfl
  | cons g rest ih =>
    obtain ⟨other, states⟩ := g
    rw [addToGroups] at h
    by_cases hsame : key = other
    · subst hsame
      rw [if_pos ((Row.same_iff hkey).mpr rfl)] at h
      obtain ⟨states', hstates, h⟩ := bind_eq_ok.mp h
      cases h
      exact .old [] rest rfl (by simp) hstates rfl
    · rw [if_neg (mt (Row.same_iff hkey).mp hsame)] at h
      obtain ⟨others, hothers, h⟩ := bind_eq_ok.mp h
      cases h
      have hother : ∀ {g : Group}, g = (other, states) → g.1 ≠ key := by
        rintro g rfl
        exact Ne.symm hsame
      -- the first group is not the one of the keys, so it stays in front
      cases ih hothers with
      | old before after hgroups hbefore hstates hnext =>
        refine .old ((other, states) :: before) after (by rw [hgroups]; rfl) ?_ hstates
          (by rw [hnext]; rfl)
        intro g hg
        rcases List.mem_cons.mp hg with hg | hg
        · exact hother hg
        · exact hbefore g hg
      | new hgroups hstates hnext =>
        refine .new ?_ hstates (by rw [hnext]; rfl)
        intro g hg
        rcases List.mem_cons.mp hg with hg | hg
        · exact hother hg
        · exact hgroups g hg

structure Grouped (keys : List Expression) (aggregators : List Aggregator) (rows : List Row)
    (groups : List Group) : Prop where
  projects : ∀ row ∈ rows, Expression.project keys row = .ok (keyOf keys row)
  keys_eq : groups.map Prod.fst = (rows.map (keyOf keys)).eraseDups
  states : ∀ g ∈ groups, (rows.filter fun row => keyOf keys row == g.1).foldlM
    (Aggregator.accumulateAll aggregators) (aggregators.map Aggregator.initial) = .ok g.2

theorem Grouped.mem_iff (h : Grouped keys aggregators rows groups) :
    (∃ g ∈ groups, g.1 = key) ↔ key ∈ rows.map (keyOf keys) := by
  rw [← List.mem_eraseDups, ← h.keys_eq, List.mem_map]

theorem filter_snoc (hkey : keyOf keys row = key) (k : Row) :
    (rows ++ [row]).filter (fun row => keyOf keys row == k) =
      rows.filter (fun row => keyOf keys row == k) ++ if k = key then [row] else [] := by
  rw [List.filter_append, List.filter_singleton, hkey]
  by_cases hk : k = key
  · simp [hk]
  · have hne : (key == k) = false := beq_eq_false_iff_ne.mpr (Ne.symm hk)
    rw [hne, if_neg hk, cond_false]

theorem Grouped.step (h : Grouped keys aggregators rows groups)
    (hproject : Expression.project keys row = .ok key)
    (hj : Joins aggregators key row groups next) :
    Grouped keys aggregators (rows ++ [row]) next := by
  have hkey := keyOf_eq hproject
  have hprojects : ∀ r ∈ rows ++ [row], Expression.project keys r = .ok (keyOf keys r) := by
    intro r hr
    rcases List.mem_append.mp hr with hr | hr
    · exact h.projects r hr
    · rw [List.mem_singleton.mp hr, hkey, hproject]
  -- the rows of other groups stay as they are, and the new row is the last of its own group
  have hothers {g : Group} (hg : g ∈ groups) (hne : g.1 ≠ key) :
      ((rows ++ [row]).filter fun row => keyOf keys row == g.1).foldlM
        (Aggregator.accumulateAll aggregators) (aggregators.map Aggregator.initial) = .ok g.2 := by
    rw [filter_snoc hkey, if_neg hne, List.append_nil]
    exact h.states g hg
  have hown : (rows ++ [row]).filter (fun row => keyOf keys row == key) =
      rows.filter (fun row => keyOf keys row == key) ++ [row] := by
    rw [filter_snoc hkey, if_pos rfl]
  have hnodup : (groups.map Prod.fst).Nodup := by
    rw [h.keys_eq]
    exact nodup_eraseDups _
  cases hj with
  | @old before after states states' hgroups hbefore hstates hnext =>
    have hm : (key, states) ∈ groups := by simp [hgroups]
    have hseen : key ∈ rows.map (keyOf keys) := h.mem_iff.mp ⟨_, hm, rfl⟩
    refine ⟨hprojects, ?_, ?_⟩
    · rw [List.map_append, List.map_singleton, hkey, eraseDups_snoc, if_pos hseen, ← h.keys_eq,
        hnext, hgroups]
      simp
    · intro g hg
      rw [hnext, List.mem_append, List.mem_cons] at hg
      rcases hg with hg | rfl | hg
      · exact hothers (by simp [hgroups, hg]) (hbefore g hg)
      · rw [hown, List.foldlM_append, h.states _ hm]
        simp [hstates]
      · refine hothers (by simp [hgroups, hg]) ?_
        rw [hgroups, List.map_append, List.map_cons] at hnodup
        have hafter := (List.nodup_cons.mp hnodup.of_append_right).1
        rintro rfl
        exact hafter (List.mem_map.mpr ⟨g, hg, rfl⟩)
  | @new states hgroups hstates hnext =>
    have hunseen : key ∉ rows.map (keyOf keys) := by
      rw [← h.mem_iff]
      rintro ⟨g, hg, hk⟩
      exact hgroups g hg hk
    refine ⟨hprojects, ?_, ?_⟩
    · rw [List.map_append, List.map_singleton, hkey, eraseDups_snoc, if_neg hunseen, ← h.keys_eq,
        hnext]
      simp
    · intro g hg
      rw [hnext, List.mem_append, List.mem_singleton] at hg
      rcases hg with hg | rfl
      · exact hothers hg (hgroups g hg)
      · have hnone : rows.filter (fun row => keyOf keys row == key) = [] := by
          rw [List.filter_eq_nil_iff]
          intro r hr hk
          exact hunseen (List.mem_map.mpr ⟨r, hr, beq_iff_eq.mp hk⟩)
        rw [hown, hnone]
        simp [hstates]

def addRow (keys : List Expression) (aggregators : List Aggregator) (groups : List Group)
    (row : Row) : Except EngineError (List Group) := do
  addToGroups aggregators (← Expression.project keys row) row groups

def Keyed (keys : List Expression) (row : Row) : Prop :=
  ∀ key, Expression.project keys row = .ok key → key.Stateless

theorem Grouped.run {more : List Row} (h : Grouped keys aggregators rows groups)
    (hkeyed : ∀ row ∈ more, Keyed keys row)
    (hfold : more.foldlM (addRow keys aggregators) groups = .ok next) :
    Grouped keys aggregators (rows ++ more) next := by
  induction more generalizing rows groups with
  | nil =>
    cases hfold
    rwa [List.append_nil]
  | cons row more ih =>
    rw [List.foldlM_cons] at hfold
    obtain ⟨middle, hmiddle, hfold⟩ := bind_eq_ok.mp hfold
    obtain ⟨key, hkey, hadd⟩ := bind_eq_ok.mp hmiddle
    have hjoins := addToGroups_joins (hkeyed row List.mem_cons_self key hkey) hadd
    have hnext := ih (h.step hkey hjoins)
      (fun r hr => hkeyed r (List.mem_cons_of_mem _ hr)) hfold
    rwa [List.append_assoc, List.singleton_append] at hnext

theorem foldlM_addRow (hkeyed : ∀ row ∈ rows, Keyed keys row)
    (h : rows.foldlM (addRow keys aggregators) [] = .ok groups) :
    Grouped keys aggregators rows groups := by
  have hempty : Grouped keys aggregators [] [] := ⟨by simp, rfl, by simp⟩
  exact hempty.run hkeyed h

-- ---------------------------------------------------------------------------
-- Stages
-- ---------------------------------------------------------------------------

def Makes (action : Action) (bucket : Bucket) (out : List Row) : Prop :=
  ∃ session after,
    (action.apply (.ofBucket bucket)).within session = (.ok (.materialized out), after)

variable {bucket : Bucket} {out : List Row}

def Emits (aggregators : List Aggregator) (g : Group) (row : Row) : Prop :=
  ∃ values, Aggregator.emitAll aggregators g.2 = .ok values ∧ row = g.1 ++ values

theorem apply_group_ok {input output : Flow} {session after : Session}
    (h : ((group keys aggregators).apply input).within session = (.ok output, after)) :
    ∃ rows groups out, (input.rows.within session).1 = .ok rows ∧
      rows.foldlM (addRow keys aggregators) [] = .ok groups ∧
      List.Forall₂ (Emits aggregators) groups out ∧ output = .materialized out := by
  rw [apply] at h
  obtain ⟨groups, middle, hconsume, h⟩ := Work.bind_within_ok.mp h
  obtain ⟨out, last, hemit, h⟩ := Work.bind_within_ok.mp h
  cases h
  obtain ⟨rows, hrows, hfold⟩ := Flow.consume_rows hconsume
  refine ⟨rows, groups, out, congrArg Prod.fst hrows, hfold, ?_, rfl⟩
  refine (mapM_eq_ok.mp (Prod.mk.inj hemit).1).imp ?_
  rintro ⟨key, states⟩ row hrow
  obtain ⟨values, hvalues, hrow⟩ := bind_eq_ok.mp hrow
  exact ⟨values, hvalues, (Except.ok.inj hrow).symm⟩

theorem Makes.group (h : (Action.group keys aggregators).Makes bucket out) :
    ∃ rows groups, bucket.rows = .ok rows ∧
      rows.foldlM (addRow keys aggregators) [] = .ok groups ∧
      List.Forall₂ (Emits aggregators) groups out := by
  obtain ⟨session, after, h⟩ := h
  obtain ⟨rows, groups, _, hrows, hfold, hemits, hout⟩ := apply_group_ok h
  cases hout
  rw [Flow.rows_ofBucket] at hrows
  exact ⟨rows, groups, hrows, hfold, hemits⟩

theorem Makes.aggregation (h : (Action.aggregation aggregators).Makes bucket out) :
    ∃ rows states values, bucket.rows = .ok rows ∧
      rows.foldlM (Aggregator.accumulateAll aggregators) (aggregators.map Aggregator.initial) =
        .ok states ∧
      Aggregator.emitAll aggregators states = .ok values ∧ out = [values] := by
  obtain ⟨session, after, h⟩ := h
  rw [apply] at h
  obtain ⟨states, middle, hconsume, h⟩ := Work.bind_within_ok.mp h
  obtain ⟨values, last, hemit, h⟩ := Work.bind_within_ok.mp h
  obtain rfl := Flow.materialized.inj (Except.ok.inj (Prod.mk.inj h).1)
  obtain ⟨rows, hrows, hfold⟩ := Flow.consume_rows hconsume
  replace hrows := congrArg Prod.fst hrows
  rw [Flow.rows_ofBucket] at hrows
  exact ⟨rows, states, values, hrows, hfold, (Prod.mk.inj hemit).1, rfl⟩

end Action

end ShardQuery
