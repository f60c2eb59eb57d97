import ShardQuery.Proofs.Execution.Run
import ShardQuery.Proofs.Value.Mixture
/-!
# Sorted rows

Rows come out in the order of their keys, and rows with tied keys in the order in
which they came. What this needs of the keys is that comparing them is transitive,
which a column of mixed types can prevent.
-/

namespace ShardQuery

namespace Sorter

-- ---------------------------------------------------------------------------
-- Placing one item after the other
-- ---------------------------------------------------------------------------

section Placing

variable {α β : Type} (isBefore : α → α → Bool)

theorem place_perm (item : α) (sorted : List α) :
    (place isBefore item sorted).Perm (item :: sorted) := by
  induction sorted with
  | nil => exact .refl _
  | cons last rest ih =>
    rw [place]
    split
    · exact (ih.cons last).trans (.swap item last rest)
    · exact .refl _

theorem placed_perm (items sorted : List α) :
    (items.foldl (fun sorted item => place isBefore item sorted) sorted).Perm
      (items.reverse ++ sorted) := by
  induction items generalizing sorted with
  | nil => exact .refl _
  | cons item rest ih =>
    rw [List.foldl_cons, List.reverse_cons, List.append_assoc]
    exact (ih _).trans ((place_perm isBefore item sorted).append_left rest.reverse)

theorem sort_perm (items : List α) : (sort isBefore items).Perm items := by
  have hall := placed_perm isBefore items []
  rw [List.append_nil] at hall
  exact (List.reverse_perm _).trans (hall.trans (List.reverse_perm items))

theorem place_map (f : β → α) (item : β) (sorted : List β) :
    place isBefore (f item) (sorted.map f) =
      (place (fun a b => isBefore (f a) (f b)) item sorted).map f := by
  induction sorted with
  | nil => rfl
  | cons last rest ih =>
    rw [List.map_cons, place, place]
    split
    · rw [List.map_cons, ih]
    · rfl

theorem sort_map (f : β → α) (items : List β) :
    sort isBefore (items.map f) = (sort (fun a b => isBefore (f a) (f b)) items).map f := by
  rw [sort, sort, List.map_reverse, List.foldl_map]
  congr 1
  change items.foldl _ (List.map f []) = _
  exact List.foldl_hom (List.map f) fun sorted item => place_map isBefore f item sorted

variable {isBefore}

/-- What comes before a second item that is not after a third one, comes before the third. -/
def OrdersAll (isBefore : α → α → Bool) (items : List α) : Prop :=
  ∀ a ∈ items, ∀ b ∈ items, ∀ c ∈ items,
    isBefore a b = true → isBefore c b = false → isBefore a c = true

/-- Two items are in order: the first one comes before the second, or it does not come after it
and was there earlier. -/
def InOrder (isBefore : α → α → Bool) (earlier : α → α → Prop) (a b : α) : Prop :=
  isBefore a b = true ∨ (isBefore b a = false ∧ earlier a b)

theorem place_inOrder {earlier : α → α → Prop} {items sorted : List α} {item : α}
    (horders : OrdersAll isBefore items) (hsorted : ∀ a ∈ sorted, a ∈ items) (hitem : item ∈ items)
    (hearlier : ∀ a ∈ sorted, earlier a item)
    (h : sorted.Pairwise fun b a => InOrder isBefore earlier a b) :
    (place isBefore item sorted).Pairwise fun b a => InOrder isBefore earlier a b := by
  induction sorted with
  | nil => exact List.pairwise_singleton _ _
  | cons last rest ih =>
    obtain ⟨hlast, hrest⟩ := List.pairwise_cons.mp h
    obtain ⟨hlastmem, hrestmem⟩ := List.forall_mem_cons.mp hsorted
    obtain ⟨hlastearlier, hrestearlier⟩ := List.forall_mem_cons.mp hearlier
    rw [place]
    split
    · rename_i hbefore
      refine List.pairwise_cons.mpr ⟨?_, ih hrestmem hrestearlier hrest⟩
      intro a ha
      rcases List.mem_cons.mp ((place_perm isBefore item rest).subset ha) with rfl | ha
      · exact .inl hbefore
      · exact hlast a ha
    · rename_i hnot
      rw [Bool.not_eq_true] at hnot
      refine List.pairwise_cons.mpr ⟨List.forall_mem_cons.mpr ⟨.inr ⟨hnot, hlastearlier⟩, ?_⟩, h⟩
      intro a ha
      have hamem := hrestmem a ha
      -- the item stays behind all that the last one stays behind
      rcases hlast a ha with hbefore | ⟨hnotbefore, -⟩
      · exact .inl (horders a hamem last hlastmem item hitem hbefore hnot)
      · refine .inr ⟨?_, hrestearlier a ha⟩
        by_contra hitembefore
        rw [Bool.not_eq_false] at hitembefore
        have hcontra := horders item hitem a hamem last hlastmem hitembefore hnotbefore
        rw [hnot] at hcontra
        cases hcontra

theorem placed_inOrder {earlier : α → α → Prop} {items rest sorted : List α}
    (horders : OrdersAll isBefore items) (hrest : ∀ a ∈ rest, a ∈ items)
    (hsorted : ∀ a ∈ sorted, a ∈ items) (hlater : rest.Pairwise earlier)
    (hearlier : ∀ a ∈ sorted, ∀ b ∈ rest, earlier a b)
    (h : sorted.Pairwise fun b a => InOrder isBefore earlier a b) :
    (rest.foldl (fun sorted item => place isBefore item sorted) sorted).Pairwise
      fun b a => InOrder isBefore earlier a b := by
  induction rest generalizing sorted with
  | nil => exact h
  | cons item rest ih =>
    obtain ⟨hitem, hrest⟩ := List.forall_mem_cons.mp hrest
    obtain ⟨hfirst, hlater⟩ := List.pairwise_cons.mp hlater
    have hmem {a : α} (ha : a ∈ place isBefore item sorted) : a = item ∨ a ∈ sorted :=
      List.mem_cons.mp ((place_perm isBefore item sorted).subset ha)
    refine ih hrest ?_ hlater ?_ (place_inOrder horders hsorted hitem
      (fun a ha => hearlier a ha item List.mem_cons_self) h)
    · intro a ha
      rcases hmem ha with rfl | ha
      · exact hitem
      · exact hsorted a ha
    · intro a ha b hb
      rcases hmem ha with rfl | ha
      · exact hfirst b hb
      · exact hearlier a ha b (List.mem_cons_of_mem _ hb)

/-- Sorting is stable. -/
theorem sort_inOrder {earlier : α → α → Prop} {items : List α}
    (horders : OrdersAll isBefore items) (h : items.Pairwise earlier) :
    (sort isBefore items).Pairwise (InOrder isBefore earlier) := by
  rw [sort, List.pairwise_reverse]
  exact placed_inOrder horders (fun _ ha => ha) (List.forall_mem_nil _) h (List.forall_mem_nil _)
    .nil

end Placing

-- ---------------------------------------------------------------------------
-- Comparing keys
-- ---------------------------------------------------------------------------

variable {key : Sorter} {keys : List Sorter} {a b c : Value} {as bs cs : List Value}

theorem then_comm {o p : Ordering} (ho : o ≠ .gt) (hp : p ≠ .gt) : o.then p = p.then o := by
  cases o <;> cases p <;> first | rfl | contradiction

theorem compare_nulls (key : Sorter) (ha : a.isNull = true) (hb : b.isNull = true) :
    key.compare a b = .eq := by
  rw [compare, ha, hb]

theorem compare_null_left (key : Sorter) (ha : a.isNull = true) (hb : b.isNull = false) :
    key.compare a b = if key.nullsFirst then .lt else .gt := by
  rw [compare, ha, hb]

theorem compare_null_right (key : Sorter) (ha : a.isNull = false) (hb : b.isNull = true) :
    key.compare a b = if key.nullsFirst then .gt else .lt := by
  rw [compare, ha, hb]

theorem compare_values (key : Sorter) (ha : a.isNull = false) (hb : b.isNull = false) :
    key.compare a b = if key.descending then b.order a else a.order b := by
  rw [compare, ha, hb, Value.order_swap a b]
  rfl

theorem compare_swap (key : Sorter) (a b : Value) : key.compare b a = (key.compare a b).swap := by
  cases ha : a.isNull <;> cases hb : b.isNull
  case false.false =>
    rw [compare_values key ha hb, compare_values key hb ha, Value.order_swap a b]
    split
    · exact Ordering.swap_swap.symm
    · rfl
  case false.true =>
    rw [compare_null_left key hb ha, compare_null_right key ha hb]
    cases key.nullsFirst <;> rfl
  case true.false =>
    rw [compare_null_left key ha hb, compare_null_right key hb ha]
    cases key.nullsFirst <;> rfl
  case true.true =>
    rw [compare_nulls key ha hb, compare_nulls key hb ha]
    rfl

/-- Nulls stand at one end of the order of the other values. -/
theorem compare_then (key : Sorter) (hclear : a.Clear b c) (hab : key.compare a b ≠ .gt)
    (hbc : key.compare b c ≠ .gt) : key.compare a c = (key.compare a b).then (key.compare b c) := by
  cases ha : a.isNull <;> cases hb : b.isNull <;> cases hc : c.isNull
  case false.false.false =>
    have hanull := Value.isNull_eq_false_iff.mp ha
    have hbnull := Value.isNull_eq_false_iff.mp hb
    have hcnull := Value.isNull_eq_false_iff.mp hc
    rw [compare_values key ha hb] at hab ⊢
    rw [compare_values key hb hc] at hbc ⊢
    rw [compare_values key ha hc]
    cases hdescending : key.descending <;> simp only [hdescending, Bool.false_eq_true, ↓reduceIte]
      at hab hbc ⊢
    case false => exact Value.order_then hanull hbnull hcnull hclear hab hbc
    case true =>
      rw [Value.order_then hcnull hbnull hanull hclear.reverse hbc hab, then_comm hbc hab]
  case false.false.true =>
    rw [compare_null_right key hb hc] at hbc ⊢
    rw [compare_null_right key ha hc]
    cases hcompare : key.compare a b <;> cases hfirst : key.nullsFirst <;> simp_all
  all_goals
    simp only [compare_nulls, compare_null_left, compare_null_right, ha, hb, hc] at hab hbc ⊢
    cases hfirst : key.nullsFirst <;> simp_all

/-- In no column of three tuples one of the values blurs the other two. -/
inductive ClearAll : List Value → List Value → List Value → Prop
  | nil : ClearAll [] [] []
  | cons {a b c : Value} {as bs cs : List Value} : a.Clear b c → ClearAll as bs cs →
      ClearAll (a :: as) (b :: bs) (c :: cs)

theorem compareAll_swap (keys : List Sorter) (as bs : List Value) :
    compareAll keys bs as = (compareAll keys as bs).swap := by
  induction keys generalizing as bs with
  | nil => rfl
  | cons key keys ih =>
    cases as with
    | nil => cases bs <;> rfl
    | cons a as =>
      cases bs with
      | nil => rfl
      | cons b bs => rw [compareAll, compareAll, compare_swap key a b, ih as bs, Ordering.swap_then]

theorem compareAll_then (keys : List Sorter) (hclear : ClearAll as bs cs)
    (hab : compareAll keys as bs ≠ .gt) (hbc : compareAll keys bs cs ≠ .gt) :
    compareAll keys as cs = (compareAll keys as bs).then (compareAll keys bs cs) := by
  induction keys generalizing as bs cs with
  | nil => rfl
  | cons key keys ih =>
    cases hclear with
    | nil => rfl
    | @cons a b c as bs cs hfirst hrest =>
      rw [compareAll] at hab hbc
      have hfab : key.compare a b ≠ .gt := fun h => hab (by rw [h]; rfl)
      have hfbc : key.compare b c ≠ .gt := fun h => hbc (by rw [h]; rfl)
      rw [compareAll, compareAll, compareAll, compare_then key hfirst hfab hfbc]
      -- later keys count only from where on the first one ties the tuples
      cases hab' : key.compare a b with
      | lt => rfl
      | gt => exact absurd hab' hfab
      | eq =>
        rw [hab'] at hab
        cases hbc' : key.compare b c with
        | lt =>
          cases hrab : compareAll keys as bs with
          | gt => exact absurd hrab hab
          | _ => rfl
        | gt => exact absurd hbc' hfbc
        | eq =>
          rw [hbc'] at hbc
          exact ih hrest hab hbc

theorem compare_blurred (key : Sorter) {u v w : Value} (h : v.Blurs u w) :
    key.compare u v = .eq ∧ key.compare v w = .eq ∧ key.compare u w ≠ .eq := by
  have hv := Value.isNull_eq_false_iff.mpr h.value
  have hu := Value.isNull_eq_false_iff.mpr h.left_ne_null
  have hw := Value.isNull_eq_false_iff.mpr h.symm.left_ne_null
  rw [compare_values key hu hv, compare_values key hv hw, compare_values key hu hw,
    Value.order_swap v u, Value.order_swap v w, h.order_left, h.symm.order_left]
  cases key.descending with
  | true => exact ⟨rfl, rfl, h.symm.order_apart⟩
  | false => exact ⟨rfl, rfl, h.order_apart⟩

/-- Comparing keys is fair: it comes out reversed when the tuples change places. It is transitive
unless in some column a value blurs two others; and where one does, a key for that column is not
transitive. -/
theorem compareAll_consistent :
    (∀ (keys : List Sorter) (as bs : List Value),
      compareAll keys bs as = (compareAll keys as bs).swap) ∧
    (∀ (keys : List Sorter) (as bs cs : List Value), ClearAll as bs cs →
      (compareAll keys as bs ≠ .gt → compareAll keys bs cs ≠ .gt → compareAll keys as cs ≠ .gt) ∧
      (compareAll keys as bs = .eq → compareAll keys bs cs = .eq → compareAll keys as cs = .eq)) ∧
    (∀ (key : Sorter) (u v w : Value), v.Blurs u w →
      compareAll [key] [u] [v] = .eq ∧ compareAll [key] [v] [w] = .eq ∧
        compareAll [key] [u] [w] ≠ .eq) := by
  refine ⟨compareAll_swap, ?_, ?_⟩
  · intro keys as bs cs hclear
    constructor
    · intro hab hbc
      rw [compareAll_then keys hclear hab hbc]
      cases hfirst : compareAll keys as bs with
      | lt => exact Ordering.noConfusion
      | eq => exact hbc
      | gt => exact absurd hfirst hab
    · intro hab hbc
      have hne : Ordering.eq ≠ .gt := Ordering.noConfusion
      rw [compareAll_then keys hclear (hab ▸ hne) (hbc ▸ hne), hab, hbc]
      rfl
  · intro key u v w h
    have single (a b : Value) : compareAll [key] [a] [b] = key.compare a b := Ordering.then_eq
    rw [single, single, single]
    exact compare_blurred key h

/-- Tuples of a short, a long and a byte in the first column, and of a text and two nulls in the
second, where the first key ties the first two tuples; and a text that blurs two numbers. -/
theorem compareAll_consistent_widths :
    let keys : List Sorter := [⟨.input 0, true, true⟩, ⟨.input 1, false, false⟩]
    let first : List Value := [.short 7, .string "x"]
    let second : List Value := [.long 7, .null]
    let third : List Value := [.byte 3, .null]
    let sole : Sorter := ⟨.input 0, false, false⟩
    (ClearAll first second third ∧ compareAll keys first second ≠ .gt ∧
      compareAll keys second third ≠ .gt ∧ compareAll keys first third ≠ .gt) ∧
    (Value.string "x").Blurs (.long 2) (.long 1) ∧ compareAll [sole] [.long 2] [.long 1] ≠ .eq := by
  intro keys first second third sole
  have hclear : ClearAll first second third :=
    .cons (by decide +kernel) (.cons (by decide +kernel) .nil)
  have hfirst : compareAll keys first second ≠ .gt := by decide +kernel
  have hsecond : compareAll keys second third ≠ .gt := by decide +kernel
  have hblurs : (Value.string "x").Blurs (.long 2) (.long 1) := by decide +kernel
  exact ⟨⟨hclear, hfirst, hsecond,
    (compareAll_consistent.2.1 keys first second third hclear).1 hfirst hsecond⟩, hblurs,
    (compareAll_consistent.2.2 sole _ _ _ hblurs).2.2⟩

/-- A column of several types may not have an order. The double is equal to both integers, as
they are compared with it after rounding, but one of them is greater than the other; a text has
no order with numbers at all. -/
theorem compareAll_inconsistent :
    let key : Sorter := ⟨.input 0, false, false⟩
    (compareAll [key] [.long 9007199254740993] [.double ⟨0x4340000000000000⟩] ≠ .gt ∧
      compareAll [key] [.double ⟨0x4340000000000000⟩] [.long 9007199254740992] ≠ .gt ∧
      compareAll [key] [.long 9007199254740993] [.long 9007199254740992] = .gt) ∧
    compareAll [key] [.long 2] [.string "x"] ≠ .gt ∧
    compareAll [key] [.string "x"] [.long 1] ≠ .gt ∧
    compareAll [key] [.long 2] [.long 1] = .gt := by
  decide +kernel

-- ---------------------------------------------------------------------------
-- The order of rows
-- ---------------------------------------------------------------------------

/-- A value stands before another by a key: a null as the key says, whatever its direction, and
other values by their comparison, turned round if the key is descending. -/
inductive Before (key : Sorter) : Value → Value → Prop
  | null_first {v : Value} : key.nullsFirst = true → v ≠ .null → Before key .null v
  | null_last {v : Value} : key.nullsFirst = false → v ≠ .null → Before key v .null
  | ascending {v w : Value} : key.descending = false → v.compare? w = some .lt → Before key v w
  | descending {v w : Value} : key.descending = true → v.compare? w = some .gt → Before key v w

inductive Tied : Value → Value → Prop
  | nulls : Tied .null .null
  | values {v w : Value} : v.compare? w = some .eq → Tied v w

/-- The order of tuples by several keys: the first key that does not tie them decides. -/
inductive BeforeAll : List Sorter → List Value → List Value → Prop
  | first {key : Sorter} {keys : List Sorter} {a b : Value} {as bs : List Value} :
      key.Before a b → BeforeAll (key :: keys) (a :: as) (b :: bs)
  | later {key : Sorter} {keys : List Sorter} {a b : Value} {as bs : List Value} :
      Tied a b → BeforeAll keys as bs → BeforeAll (key :: keys) (a :: as) (b :: bs)

theorem before_of_compare (h : key.compare a b = .lt) : key.Before a b := by
  cases ha : a.isNull <;> cases hb : b.isNull
  case false.false =>
    rw [compare_values key ha hb] at h
    cases hdescending : key.descending with
    | true =>
      rw [hdescending, if_pos rfl] at h
      refine .descending hdescending ?_
      rw [Value.compare?_swap b a, Value.compare?_of_order h Ordering.noConfusion]
      rfl
    | false =>
      rw [hdescending, if_neg Bool.false_ne_true] at h
      exact .ascending hdescending (Value.compare?_of_order h Ordering.noConfusion)
  case false.true =>
    rw [compare_null_right key ha hb] at h
    cases Value.isNull_iff.mp hb
    refine .null_last ?_ (Value.isNull_eq_false_iff.mp ha)
    cases hfirst : key.nullsFirst with
    | true =>
      rw [hfirst] at h
      cases h
    | false => rfl
  case true.false =>
    rw [compare_null_left key ha hb] at h
    cases Value.isNull_iff.mp ha
    refine .null_first ?_ (Value.isNull_eq_false_iff.mp hb)
    cases hfirst : key.nullsFirst with
    | true => rfl
    | false =>
      rw [hfirst] at h
      cases h
  case true.true =>
    rw [compare_nulls key ha hb] at h
    cases h

variable {t : DataType} {types : List DataType}

theorem tied_of_compare (ht : t.isComparable = true) (hat : a.fits t = true)
    (hbt : b.fits t = true) (h : key.compare a b = .eq) : Tied a b := by
  cases ha : a.isNull <;> cases hb : b.isNull
  case false.false =>
    have hanull := Value.isNull_eq_false_iff.mp ha
    have hatype := Value.dataType_of_fits hat hanull
    have hbtype := Value.dataType_of_fits hbt (Value.isNull_eq_false_iff.mp hb)
    have hplace := Value.compare?_eq_place hanull (hatype ▸ ht) (hatype.trans hbtype.symm)
    have horder : a.order b = .eq := by
      rw [compare_values key ha hb] at h
      split at h
      · rw [Value.order_swap b a, h]
        rfl
      · exact h
    refine .values (hplace.trans (congrArg some ?_))
    rw [← Value.order_of_compare? hplace]
    exact horder
  case false.true =>
    rw [compare_null_right key ha hb] at h
    cases hfirst : key.nullsFirst <;> rw [hfirst] at h <;> cases h
  case true.false =>
    rw [compare_null_left key ha hb] at h
    cases hfirst : key.nullsFirst <;> rw [hfirst] at h <;> cases h
  case true.true =>
    cases Value.isNull_iff.mp ha
    cases Value.isNull_iff.mp hb
    exact .nulls

def Columns (types : List DataType) (as : List Value) : Prop :=
  List.Forall₂ (fun v (t : DataType) => t.isComparable = true ∧ v.fits t = true) as types

theorem clearAll_of_columns (ha : Columns types as) (hb : Columns types bs)
    (hc : Columns types cs) : ClearAll as bs cs := by
  unfold Columns at ha hb hc
  induction ha generalizing bs cs with
  | nil =>
    cases hb
    cases hc
    exact .nil
  | cons hfirst _ ih =>
    cases hb with
    | cons hbfirst hbrest =>
      cases hc with
      | cons hcfirst hcrest =>
        exact .cons (Value.clear_of_fits hfirst.1 hfirst.2 hbfirst.2 hcfirst.2) (ih hbrest hcrest)

theorem beforeAll_of_compareAll (ha : Columns types as) (hb : Columns types bs)
    (h : compareAll keys as bs = .lt) : BeforeAll keys as bs := by
  induction keys generalizing types as bs with
  | nil => cases h
  | cons key keys ih =>
    cases ha with
    | nil =>
      cases hb
      cases h
    | cons hafirst harest =>
      cases hb with
      | cons hbfirst hbrest =>
        rw [compareAll] at h
        cases hfirst : key.compare _ _ with
        | lt => exact .first (before_of_compare hfirst)
        | eq =>
          rw [hfirst] at h
          exact .later (tied_of_compare hafirst.1 hafirst.2 hbfirst.2 hfirst) (ih harest hbrest h)
        | gt =>
          rw [hfirst] at h
          cases h

theorem tiedAll_of_compareAll (ha : Columns types as) (hb : Columns types bs)
    (hlength : as.length = keys.length) (h : compareAll keys as bs = .eq) :
    List.Forall₂ Tied as bs := by
  induction keys generalizing types as bs with
  | nil =>
    cases List.length_eq_zero_iff.mp hlength
    cases ha
    cases hb
    exact .nil
  | cons key keys ih =>
    cases ha with
    | nil => cases hlength
    | cons hafirst harest =>
      cases hb with
      | cons hbfirst hbrest =>
        rw [compareAll, Ordering.then_eq_eq] at h
        exact .cons (tied_of_compare hafirst.1 hafirst.2 hbfirst.2 h.1)
          (ih harest hbrest (Nat.succ.inj hlength) h.2)

-- ---------------------------------------------------------------------------
-- Sorting rows
-- ---------------------------------------------------------------------------

variable {rows : List Row} {tuples : List (List Value)} {session after : Session}

theorem decorate_ok {decorated : List (List Value × Row)}
    (h : (decorate keys rows).within session = (.ok decorated, after)) :
    decorated.map Prod.snd = rows := by
  induction rows generalizing decorated session after with
  | nil =>
    cases h
    rfl
  | cons row rest ih =>
    obtain ⟨_, _, -, h⟩ := Work.bind_within_ok.mp h
    obtain ⟨values, _, -, h⟩ := Work.bind_within_ok.mp h
    obtain ⟨others, _, hothers, h⟩ := Work.bind_within_ok.mp h
    cases h
    rw [List.map_cons, ih hothers]

theorem sortRows_perm {sorted : List Row}
    (h : (sortRows keys rows).within session = (.ok sorted, after)) : sorted.Perm rows := by
  obtain ⟨decorated, _, hdecorated, h⟩ := Work.bind_within_ok.mp h
  cases h
  exact decorate_ok hdecorated ▸ (sort_perm _ decorated).map Prod.snd

theorem decorate_keyed (hcancelled : session.cancelled = false)
    (hkeys : rows.mapM (fun row => keys.mapM fun key => key.expression.evaluate row) =
      .ok tuples) : (decorate keys rows).within session = (.ok (tuples.zip rows), session) := by
  replace hkeys := mapM_eq_ok.mp hkeys
  induction hkeys with
  | nil => rfl
  | @cons row tuple rows tuples hrow _ ih =>
    rw [decorate, Work.within_bind, Run.within_checkCancelled, hcancelled,
      if_neg Bool.false_ne_true]
    dsimp only
    rw [Work.within_bind, Work.within_ofExcept, hrow]
    dsimp only
    rw [Work.within_bind, ih]
    rfl

/-- The rows in the order of their keys, and rows with tied keys in the order in which they came:
every row stands with its keys and its former place. -/
def StablySorted (keys : List Sorter) (tuples : List (List Value)) (rows sorted : List Row) :
    Prop :=
  ∃ entries : List ((List Value × Row) × Nat),
    entries.Perm (tuples.zip rows).zipIdx ∧ entries.map (·.1.2) = sorted ∧
    entries.Pairwise fun a b => BeforeAll keys a.1.1 b.1.1 ∨
      (List.Forall₂ Tied a.1.1 b.1.1 ∧ a.2 < b.2)

theorem zipIdx_pairwise {α : Type} (items : List α) (n : Nat) :
    (items.zipIdx n).Pairwise fun a b => a.2 < b.2 := by
  induction items generalizing n with
  | nil => exact .nil
  | cons item items ih =>
    refine List.pairwise_cons.mpr ⟨?_, ih (n + 1)⟩
    intro a ha
    exact (List.mem_zipIdx ha).1

theorem sort_stablySorted (hcolumns : ∀ tuple ∈ tuples, Columns types tuple)
    (hlength : ∀ tuple ∈ tuples, tuple.length = keys.length) :
    StablySorted keys tuples rows
      ((sort (fun a b => compareAll keys a.1 b.1 == .lt) (tuples.zip rows)).map (·.2)) := by
  let isBefore (a b : (List Value × Row) × Nat) : Bool := compareAll keys a.1.1 b.1.1 == .lt
  let items := (tuples.zip rows).zipIdx
  have hmem {a : (List Value × Row) × Nat} (ha : a ∈ items) : a.1.1 ∈ tuples :=
    (List.of_mem_zip (List.fst_mem_of_mem_zipIdx ha)).1
  have htyped {a : (List Value × Row) × Nat} (ha : a ∈ items) : Columns types a.1.1 :=
    hcolumns _ (hmem ha)
  have horders : OrdersAll isBefore items := by
    intro a ha b hb c hc hab hcb
    rw [beq_iff_eq] at hab ⊢
    have hbc : compareAll keys b.1.1 c.1.1 ≠ .gt := by
      rw [compareAll_swap keys c.1.1 b.1.1]
      intro hgt
      rw [Ordering.swap_eq_gt] at hgt
      exact beq_eq_false_iff_ne.mp hcb hgt
    have hclear := clearAll_of_columns (htyped ha) (htyped hb) (htyped hc)
    rw [compareAll_then keys hclear (hab ▸ Ordering.noConfusion) hbc, hab]
    rfl
  refine ⟨sort isBefore items, sort_perm isBefore items, ?_, ?_⟩
  · have hitems : items.map Prod.fst = tuples.zip rows := List.zipIdx_map_fst _ _
    rw [← hitems, sort_map _ Prod.fst items, List.map_map]
    rfl
  · refine (sort_inOrder horders (zipIdx_pairwise _ 0)).imp_of_mem ?_
    intro a b ha hb h
    have haitem := (sort_perm isBefore items).subset ha
    have hbitem := (sort_perm isBefore items).subset hb
    rcases h with hbefore | ⟨hnot, hearlier⟩
    · exact .inl (beforeAll_of_compareAll (htyped haitem) (htyped hbitem) (beq_iff_eq.mp hbefore))
    · cases hcompare : compareAll keys a.1.1 b.1.1 with
      | lt => exact .inl (beforeAll_of_compareAll (htyped haitem) (htyped hbitem) hcompare)
      | eq =>
        exact .inr ⟨tiedAll_of_compareAll (htyped haitem) (htyped hbitem) (hlength _ (hmem haitem))
          hcompare, hearlier⟩
      | gt =>
        have hbefore : compareAll keys b.1.1 a.1.1 = .lt := by
          rw [compareAll_swap keys a.1.1 b.1.1, hcompare]
          rfl
        exact absurd hbefore (beq_eq_false_iff_ne.mp hnot)

/-- Rows whose keys have a common type in each column, nulls apart, are sorted by them. -/
theorem sortRows_sorted (hcancelled : session.cancelled = false)
    (hkeys : rows.mapM (fun row => keys.mapM fun key => key.expression.evaluate row) =
      .ok tuples) (hcolumns : ∀ tuple ∈ tuples, Columns types tuple) :
    ∃ sorted, (sortRows keys rows).within session = (.ok sorted, session) ∧ sorted.Perm rows ∧
      StablySorted keys tuples rows sorted := by
  have hlength : ∀ tuple ∈ tuples, tuple.length = keys.length := by
    intro tuple htuple
    obtain ⟨row, -, hrow⟩ := forall₂_mem_right (mapM_eq_ok.mp hkeys) htuple
    exact (mapM_eq_ok.mp hrow).length_eq.symm
  have hrun : (sortRows keys rows).within session = (.ok ((sort (fun a b =>
      compareAll keys a.1 b.1 == .lt) (tuples.zip rows)).map (·.2)), session) := by
    rw [sortRows, Work.within_bind, decorate_keyed hcancelled hkeys]
    rfl
  exact ⟨_, hrun, sortRows_perm hrun, sort_stablySorted hcolumns hlength⟩

/-- Falling by a double with the nulls last, then rising by a text: the NaN comes first, positive
zero before negative zero, and the two nulls are told apart by the text. -/
theorem sortRows_sorted_zeros :
    let keys : List Sorter := [⟨.input 0, true, false⟩, ⟨.input 1, false, false⟩]
    let zero : Value := .double ⟨0⟩
    let minusZero : Value := .double ⟨0x8000000000000000⟩
    let nan : Value := .double ⟨0x7ff8000000000000⟩
    let rows : List Row := [[.null, .string "b"], [minusZero, .null], [nan, .string "c"],
      [.null, .string "a"], [zero, .string "d"]]
    let session : Session := .start false .empty
    rows.mapM (fun row => keys.mapM fun key => key.expression.evaluate row) = .ok rows ∧
    (∀ row ∈ rows, Columns [.double, .string] row) ∧
    ∃ sorted, (sortRows keys rows).within session = (.ok sorted, session) ∧ sorted.Perm rows ∧
      StablySorted keys rows rows sorted := by
  intro keys zero minusZero nan rows session
  have hkeys : rows.mapM (fun row => keys.mapM fun key => key.expression.evaluate row) =
      .ok rows := by decide +kernel
  have hcolumns : ∀ row ∈ rows, Columns [.double, .string] row := by
    simp [rows, Columns, zero, minusZero, nan, DataType.isComparable, Value.fits, Value.isNull,
      Value.dataType]
  exact ⟨hkeys, hcolumns, sortRows_sorted rfl hkeys hcolumns⟩

end Sorter

end ShardQuery
