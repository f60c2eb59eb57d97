import Mathlib.Data.List.Perm.Basic
import ShardQuery.Aggregate.Function
import ShardQuery.Proofs.Except
import ShardQuery.Proofs.Value.Order
/-!
# What a state knows of its values

The states of counts, integral sums and extremes are exact: they depend on nothing
but the values that were taken in, and not on their order. Taking in a value and
merging two states keep to that.
-/

namespace ShardQuery

-- ---------------------------------------------------------------------------
-- Totals
-- ---------------------------------------------------------------------------

def total (op : α → α → α) (view : Value → Option α) (values : List Value) : Option α :=
  values.foldr (fun v rest => Option.merge op (view v) rest) none

section Total

variable {op : α → α → α} {view : Value → Option α}

theorem total_cons (v : Value) (xs : List Value) :
    total op view (v :: xs) = Option.merge op (view v) (total op view xs) := rfl

theorem total_eq_none {xs : List Value} : total op view xs = none ↔ ∀ v ∈ xs, view v = none := by
  induction xs with
  | nil => simp [total]
  | cons v xs ih => rw [total_cons, Option.merge_eq_none_iff, ih, List.forall_mem_cons]

variable [Std.Associative op]

theorem total_append (xs ys : List Value) :
    total op view (xs ++ ys) = Option.merge op (total op view xs) (total op view ys) := by
  induction xs with
  | nil => simp [total]
  | cons x xs ih =>
    rw [List.cons_append, total_cons, total_cons, ih, (Option.associative_merge op).assoc]

theorem total_snoc (xs : List Value) (v : Value) :
    total op view (xs ++ [v]) = Option.merge op (total op view xs) (view v) := by
  rw [total_append]
  simp [total]

theorem total_perm [Std.Commutative op] {xs ys : List Value} (h : xs.Perm ys) :
    total op view xs = total op view ys := by
  induction h with
  | nil => rfl
  | cons v _ ih => rw [total_cons, total_cons, ih]
  | swap v w rest =>
    simp only [total_cons]
    rw [← (Option.associative_merge op).assoc, ← (Option.associative_merge op).assoc,
      (Option.commutative_merge op).comm (view w)]
  | trans _ _ ihx ihy => exact ihx.trans ihy

end Total

namespace Value

def integer? (v : Value) : Option Int := v.long?.map Int64.toInt

def place? (v : Value) : Option (Int ⊕ₗ String) := if v.isNull then none else some v.place

/-- The value is null or of the type, and no NaN of a single. -/
structure Plain (t : DataType) (v : Value) : Prop where
  fits : v.fits t = true
  notNaN : v.isSingleNaN = false

end Value

namespace AggregateFunction

def prefer {α : Type} [LinearOrder α] (isMax : Bool) (a b : α) : α :=
  if isMax then max a b else min a b

section Prefer

variable {α : Type} [LinearOrder α]

instance : Std.Associative (prefer (α := α) isMax) where
  assoc a b c := by
    cases isMax
    · exact min_assoc a b c
    · exact max_assoc a b c

instance : Std.Commutative (prefer (α := α) isMax) where
  comm a b := by
    cases isMax
    · exact min_comm a b
    · exact max_comm a b

theorem prefer_eq (isMax : Bool) (a b : α) :
    prefer isMax a b = if compare b a == (if isMax then .gt else .lt) then b else a := by
  cases isMax
  · simp only [prefer, Bool.false_eq_true, ↓reduceIte, beq_iff_eq, compare_lt_iff_lt]
    split
    · rename_i h
      exact min_eq_right h.le
    · rename_i h
      exact min_eq_left (not_lt.mp h)
  · simp only [prefer, ↓reduceIte, beq_iff_eq, compare_gt_iff_gt]
    split
    · rename_i h
      exact max_eq_right h.le
    · rename_i h
      exact max_eq_left (not_lt.mp h)

end Prefer

-- ---------------------------------------------------------------------------
-- States
-- ---------------------------------------------------------------------------

def counts (f : AggregateFunction) (v : Value) : Bool :=
  f.info.argumentTypes.isEmpty || !v.isNull

inductive Represents (f : AggregateFunction) (values : List Value) : PartialState → Prop
  | count {n : UInt64} : f.summary = .count → n.toNat = values.countP f.counts →
      Represents f values (.count n)
  | sum {sum : Option Int64} : f.summary = .sum →
      sum.map Int64.toInt = total (· + ·) Value.integer? values →
      Represents f values (.sumLong sum)
  | extreme {isMax : Bool} {t : DataType} {v : Value} : f.summary = .extreme isMax →
      f.info.argumentTypes = [t] → t.isComparable = true → v.Plain t →
      v.place? = total (prefer isMax) Value.place? values →
      Represents f values (.extreme isMax v)

def Admits (f : AggregateFunction) (v : Value) : Prop :=
  ∀ t ∈ f.info.argumentTypes.head?, v.Plain t

variable {f : AggregateFunction} {xs ys : List Value} {s t u : PartialState}

theorem Represents.perm (h : f.Represents xs s) (hp : xs.Perm ys) : f.Represents ys s := by
  cases h with
  | count hf hn => exact .count hf (hn.trans (by rw [hp.countP_eq]))
  | sum hf hs => exact .sum hf (hs.trans (total_perm hp))
  | extreme hf ht hc hv hp' => exact .extreme hf ht hc hv (hp'.trans (total_perm hp))

theorem place?_injective {t : DataType} {v w : Value} (hc : t.isComparable = true) (hv : v.Plain t)
    (hw : w.Plain t) (h : v.place? = w.place?) : v = w := by
  by_cases hvn : v.isNull = true <;> by_cases hwn : w.isNull = true <;>
    simp only [Value.place?, hvn, hwn, Bool.false_eq_true, ↓reduceIte, reduceCtorEq,
      Option.some.injEq] at h
  · rw [Value.isNull_iff.mp hvn, Value.isNull_iff.mp hwn]
  · rw [Value.isNull_iff] at hvn hwn
    obtain rfl := Value.dataType_of_fits hv.fits hvn
    exact Value.place_injective hvn hc (Value.dataType_of_fits hw.fits hwn).symm hv.notNaN
      hw.notNaN h

theorem Represents.of_count (h : f.Represents xs s) (hf : f.summary = .count) :
    ∃ n : UInt64, s = .count n ∧ n.toNat = xs.countP f.counts := by
  cases h with
  | count _ hn => exact ⟨_, rfl, hn⟩
  | sum hf' _ => cases hf.symm.trans hf'
  | extreme hf' _ _ _ _ => cases hf.symm.trans hf'

theorem Represents.of_sum (h : f.Represents xs s) (hf : f.summary = .sum) :
    ∃ sum, s = .sumLong sum ∧ sum.map Int64.toInt = total (· + ·) Value.integer? xs := by
  cases h with
  | count hf' _ => cases hf.symm.trans hf'
  | sum _ hsum => exact ⟨_, rfl, hsum⟩
  | extreme hf' _ _ _ _ => cases hf.symm.trans hf'

theorem Represents.of_extreme {isMax : Bool} {type : DataType} (h : f.Represents xs s)
    (hf : f.summary = .extreme isMax) (htypes : f.info.argumentTypes = [type]) :
    ∃ v, s = .extreme isMax v ∧ v.Plain type ∧
      v.place? = total (prefer isMax) Value.place? xs := by
  cases h with
  | count hf' _ => cases hf.symm.trans hf'
  | sum hf' _ => cases hf.symm.trans hf'
  | extreme hf' htypes' _ hv hp =>
    cases hf.symm.trans hf'
    obtain rfl := List.singleton_inj.mp (htypes.symm.trans htypes')
    exact ⟨_, rfl, hv, hp⟩

/-- The values determine the state. -/
theorem Represents.unique (hs : f.Represents xs s) (ht : f.Represents xs t) : s = t := by
  cases hs with
  | count hf hn =>
    obtain ⟨m, rfl, hm⟩ := ht.of_count hf
    rw [UInt64.toNat_inj.mp (hn.trans hm.symm)]
  | sum hf hsum =>
    obtain ⟨sum', rfl, hsum'⟩ := ht.of_sum hf
    rw [Option.map_injective (fun _ _ => Int64.toInt_inj.mp) (hsum.trans hsum'.symm)]
  | extreme hf htypes hc hv hp =>
    obtain ⟨w, rfl, hw, hq⟩ := ht.of_extreme hf htypes
    rw [place?_injective hc hv hw (hp.trans hq.symm)]

/-- The aggregate is a count, a sum of integers or an extreme, found for its argument types. -/
def Exact (f : AggregateFunction) : Prop :=
  ∃ summary types, resolve summary types = .ok f ∧
    (summary = .count ∨ (summary = .sum ∧ ∀ t ∈ types, t.isIntegral = true) ∨
      ∃ isMax, summary = .extreme isMax)

theorem resolve_count {types : List DataType} (h : resolve .count types = .ok f) :
    f.summary = .count := by
  simp only [resolve] at h
  split at h
  · cases h
  · split at h <;> cases h
    rfl

theorem resolve_unary {summary : Summary} {types : List DataType} (hs : summary ≠ .count)
    (h : resolve summary types = .ok f) :
    f.summary = summary ∧ ∃ t, types = [t] ∧ f.info.argumentTypes = [t] ∧
      summary.returnType? t = some f.info.returnType := by
  unfold resolve at h
  split at h
  case h_1 => exact absurd rfl hs
  case h_2 _ _ t _ =>
    split at h
    · rename_i r hr
      cases h
      exact ⟨rfl, t, rfl, rfl, hr⟩
    · cases h
  case h_3 => cases h

theorem resolve_sum {t : DataType} (h : resolve .sum [t] = .ok f) (ht : t.isIntegral = true) :
    f.summary = .sum ∧ f.info.returnType = .long := by
  obtain ⟨hf, u, hu, -, hreturn⟩ := resolve_unary (by decide) h
  obtain rfl := List.singleton_inj.mp hu
  simp only [Summary.returnType?, ht, ↓reduceIte, Option.some.injEq] at hreturn
  exact ⟨hf, hreturn.symm⟩

theorem resolve_extreme {isMax : Bool} {t : DataType} (h : resolve (.extreme isMax) [t] = .ok f) :
    f.summary = .extreme isMax ∧ f.info.argumentTypes = [t] ∧ t.isComparable = true := by
  obtain ⟨hf, u, hu, htypes, hreturn⟩ := resolve_unary (by simp) h
  obtain rfl := List.singleton_inj.mp hu
  simp only [Summary.returnType?, Option.ite_none_right_eq_some, Bool.and_eq_true] at hreturn
  exact ⟨hf, htypes, hreturn.1.1⟩

theorem finalize_count {n : UInt64} {m : Int64} (hf : f.summary = .count)
    (hm : toLong? n.toNat = some m) : f.finalize (.count n) = .ok (.long m) := by
  unfold finalize
  -- hidden, as the kernel would count up to the bounds of longs
  obtain ⟨narrow, hnarrow⟩ : ∃ narrow, narrow = toLong? := ⟨toLong?, rfl⟩
  rw [← hnarrow] at hm ⊢
  simp only [hf, hm]

theorem finalize_extreme {isMax kind : Bool} {v : Value} (hf : f.summary = .extreme isMax) :
    f.finalize (.extreme kind v) = .ok v := by
  obtain ⟨info, summary⟩ := f
  cases hf
  rfl

theorem Exact.cases (h : f.Exact) :
    f.summary = .count ∨ (f.summary = .sum ∧ f.info.returnType = .long) ∨
      ∃ isMax t, f.summary = .extreme isMax ∧ f.info.argumentTypes = [t] ∧
        t.isComparable = true := by
  obtain ⟨summary, types, hr, hcases⟩ := h
  rcases hcases with rfl | ⟨rfl, hint⟩ | ⟨isMax, rfl⟩
  · exact .inl (resolve_count hr)
  · obtain ⟨-, t, rfl, -⟩ := resolve_unary (by decide) hr
    exact .inr (.inl (resolve_sum hr (hint t List.mem_cons_self)))
  · obtain ⟨-, t, rfl, -⟩ := resolve_unary (by simp) hr
    exact .inr (.inr ⟨isMax, t, resolve_extreme hr⟩)

theorem Exact.initial (h : f.Exact) : f.Represents [] f.initial := by
  rcases h.cases with hf | ⟨hf, hr⟩ | ⟨isMax, t, hf, ht, hc⟩
  · simp only [AggregateFunction.initial, hf]
    exact .count hf rfl
  · simp only [AggregateFunction.initial, hf, hr, ↓reduceIte]
    exact .sum hf rfl
  · simp only [AggregateFunction.initial, hf]
    exact .extreme hf ht hc ⟨rfl, rfl⟩ rfl

-- ---------------------------------------------------------------------------
-- Steps
-- ---------------------------------------------------------------------------

/-- Of two plain values the one at the preferred place is kept. -/
theorem keepExtreme_eq (isMax : Bool) {t : DataType} {v w : Value} (hc : t.isComparable = true)
    (hv : v.Plain t) (hw : w.Plain t) :
    ∃ kept, keepExtreme isMax v w = .ok kept ∧ kept.Plain t ∧
      kept.place? = Option.merge (prefer isMax) v.place? w.place? := by
  by_cases hwn : w.isNull = true
  · refine ⟨v, by simp only [keepExtreme, hwn, ↓reduceIte], hv, ?_⟩
    simp [Value.place?, hwn]
  by_cases hvn : v.isNull = true
  · refine ⟨w, by simp only [keepExtreme, hwn, hvn, Bool.false_eq_true, ↓reduceIte], hw, ?_⟩
    simp [Value.place?, hvn]
  -- neither is null, so both are of the type and have an order
  have hwt := Value.dataType_of_fits hw.fits (Value.isNull_iff.not.mp hwn)
  have hvt := Value.dataType_of_fits hv.fits (Value.isNull_iff.not.mp hvn)
  have horder : w.compare? v = some (compare w.place v.place) :=
    Value.compare?_eq_place (Value.isNull_iff.not.mp hwn) (hwt ▸ hc) (hwt.trans hvt.symm)
  simp only [keepExtreme, hwn, hvn, horder, Bool.false_eq_true, ↓reduceIte]
  by_cases hbeyond : (compare w.place v.place == if isMax then .gt else .lt) = true
  · refine ⟨w, by simp only [hbeyond, ↓reduceIte], hw, ?_⟩
    simp only [Value.place?, hwn, hvn, Bool.false_eq_true, ↓reduceIte, Option.merge_some_some,
      prefer_eq, hbeyond]
  · refine ⟨v, by simp only [hbeyond, Bool.false_eq_true, ↓reduceIte], hv, ?_⟩
    simp only [Value.place?, hwn, hvn, Bool.false_eq_true, ↓reduceIte, Option.merge_some_some,
      prefer_eq, hbeyond]

theorem addLongs_eq_ok {a b c : Int64} (h : addLongs a b = .ok c) :
    c.toInt = a.toInt + b.toInt := by
  unfold addLongs toLong? at h
  split at h
  · rename_i c' hc
    cases h
    rw [Option.ite_none_right_eq_some] at hc
    obtain ⟨⟨hlow, hhigh⟩, hc⟩ := hc
    cases hc
    exact Int64.toInt_ofInt_of_le hlow hhigh
  · cases h

theorem combineSums_eq_ok {x y z : Option Int64} (h : combineSums addLongs x y = .ok z) :
    z.map Int64.toInt = Option.merge (· + ·) (x.map Int64.toInt) (y.map Int64.toInt) := by
  cases x with
  | none =>
    cases y <;> cases h <;> rfl
  | some a =>
    cases y with
    | none =>
      cases h
      rfl
    | some b =>
      cases hc : addLongs a b with
      | error e => simp [combineSums, hc, Except.map] at h
      | ok c =>
        simp only [combineSums, hc, Except.map, Except.ok.injEq] at h
        subst h
        exact congrArg some (addLongs_eq_ok hc)

theorem addLongs_getD (sum : Option Int64) (n : Int64) :
    (addLongs (sum.getD 0) n).map some = combineSums addLongs sum (some n) := by
  cases sum with
  | none =>
    have hn : addLongs 0 n = .ok n := by
      have hlow := n.le_toInt
      have hhigh := n.toInt_lt
      simp only [addLongs, toLong?, Int64.toInt_zero, zero_add]
      rw [if_pos ⟨hlow, hhigh⟩, Int64.ofInt_toInt]
    simp only [Option.getD_none, hn]
    rfl
  | some m => rfl

theorem iterate_count {n : UInt64} (arguments : List Value) (hf : f.summary = .count) :
    f.iterate (.count n) arguments =
      if f.counts (arguments.headD .null) then (addCounts n 1).map .count else .ok (.count n) := by
  simp only [AggregateFunction.iterate, hf]
  rfl

theorem Represents.iterate_count {arguments : List Value} (hs : f.Represents xs s)
    (hf : f.summary = .count) (h : f.iterate s arguments = .ok t) :
    f.Represents (xs ++ [arguments.headD .null]) t := by
  obtain ⟨n, rfl, hn⟩ := hs.of_count hf
  rw [AggregateFunction.iterate_count arguments hf] at h
  by_cases hc : f.counts (arguments.headD .null) = true
  · rw [if_pos hc] at h
    obtain ⟨sum, hsum, rfl⟩ := map_eq_ok.mp h
    refine .count hf ?_
    rw [addCounts_eq_ok.mp hsum, List.countP_append, List.countP_singleton, if_pos hc, hn]
    rfl
  · rw [if_neg hc] at h
    cases h
    refine .count hf ?_
    rw [List.countP_append, List.countP_singleton, if_neg hc, Nat.add_zero, hn]

theorem Represents.iterate {arguments : List Value} (hs : f.Represents xs s)
    (ha : f.Admits (arguments.headD .null)) (h : f.iterate s arguments = .ok t) :
    f.Represents (xs ++ [arguments.headD .null]) t := by
  generalize hv : arguments.headD .null = v at ha ⊢
  cases hs with
  | count hf hn => exact hv ▸ (Represents.count hf hn).iterate_count hf h
  | @sum sum hf hsum =>
    simp only [AggregateFunction.iterate, hf, hv, Halt.ofExcept_eq_ok] at h
    by_cases hvn : v.isNull = true
    · simp only [hvn, ↓reduceIte] at h
      cases h
      refine .sum hf ?_
      rw [total_snoc, hsum, Value.isNull_iff.mp hvn]
      simp [Value.integer?, Value.long?]
    · simp only [hvn, Bool.false_eq_true, ↓reduceIte] at h
      cases hl : v.long? with
      | none => simp [hl] at h
      | some n =>
        simp only [hl] at h
        cases hsum' : addLongs (sum.getD 0) n with
        | error e => simp [hsum', Except.map] at h
        | ok c =>
          simp only [hsum', Except.map, Except.ok.injEq] at h
          subst h
          refine .sum hf ?_
          have hcombine := addLongs_getD sum n
          rw [hsum'] at hcombine
          rw [combineSums_eq_ok hcombine.symm, total_snoc, hsum, Value.integer?, hl]
  | @extreme isMax t' w hf htypes hc hw hp =>
    have hvp : v.Plain t' := ha t' (by simp [htypes])
    obtain ⟨kept, hk, hkept, hplace⟩ := keepExtreme_eq isMax hc hw hvp
    simp only [AggregateFunction.iterate, hf, hv, hk, ne_eq, not_true_eq_false, ↓reduceIte,
      Except.map, Halt.ofExcept_eq_ok] at h
    split at h
    · rename_i hempty
      cases h
      -- a call without arguments counts as one for null, which no extreme takes in
      obtain rfl : v = .null := by rw [← hv, List.isEmpty_iff.mp hempty]; rfl
      refine .extreme hf htypes hc hw ?_
      rw [total_snoc, ← hp]
      simp [Value.place?, Value.isNull]
    · cases h
      refine .extreme hf htypes hc hkept ?_
      rw [total_snoc, hplace, hp]

theorem Represents.merge (hs : f.Represents xs s) (ht : f.Represents ys t)
    (h : f.merge s t = .ok u) : f.Represents (xs ++ ys) u := by
  cases hs with
  | @count m hf hm =>
    obtain ⟨n, rfl, hn⟩ := ht.of_count hf
    simp only [AggregateFunction.merge, hf] at h
    obtain ⟨sum, hsum, rfl⟩ := map_eq_ok.mp h
    refine .count hf ?_
    rw [addCounts_eq_ok.mp hsum, List.countP_append, hm, hn]
  | @sum x hf hx =>
    obtain ⟨y, rfl, hy⟩ := ht.of_sum hf
    simp only [AggregateFunction.merge, hf, Halt.ofExcept_eq_ok] at h
    cases hz : combineSums addLongs x y with
    | error e => simp [hz, Except.map] at h
    | ok z =>
      simp only [hz, Except.map, Except.ok.injEq] at h
      subst h
      refine .sum hf ?_
      rw [combineSums_eq_ok hz, total_append, hx, hy]
  | @extreme isMax type v hf htypes hc hv hp =>
    obtain ⟨w, rfl, hw, hq⟩ := ht.of_extreme hf htypes
    obtain ⟨kept, hk, hkept, hplace⟩ := keepExtreme_eq isMax hc hv hw
    simp only [AggregateFunction.merge, hf, hk, ne_eq, not_true_eq_false, or_self, ↓reduceIte,
      Except.map, Halt.ofExcept_eq_ok] at h
    cases h
    refine .extreme hf htypes hc hkept ?_
    rw [total_append, hplace, hp, hq]

end AggregateFunction

end ShardQuery
