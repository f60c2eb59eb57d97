import ShardQuery.Proofs.Aggregate.Amounts
import ShardQuery.Proofs.Aggregate.MergeTree
import ShardQuery.Proofs.Aggregate.Typing
/-!
# Counts and sums of longs

Counts go wrong along no tree. A sum of integers is exact where it succeeds, and fails
exactly if the values of some part of the tree do not come to a long. So trees of the
same values can differ: all of them agree only if the values come to no long at all, or
if no choice of them leaves the longs.
-/

namespace ShardQuery

-- ---------------------------------------------------------------------------
-- Steps
-- ---------------------------------------------------------------------------

namespace AggregateFunction

variable {f : AggregateFunction} {t : DataType} {xs ys : List Value} {a b : Option Int64}

theorem addLongs_ok {m n : Int64} (h : IsLong (m.toInt + n.toInt)) :
    ∃ sum, addLongs m n = .ok sum :=
  ⟨_, by rw [addLongs, toLong?_of_isLong h]⟩

theorem addLongs_error {m n : Int64} (h : ¬ IsLong (m.toInt + n.toInt)) :
    addLongs m n = .error sumOverflow := by
  rw [addLongs, toLong?_of_not_isLong h]

theorem combineSums_ok (h : IsLong ((a.getD 0).toInt + (b.getD 0).toInt)) :
    ∃ sum, combineSums addLongs a b = .ok sum := by
  cases a with
  | none => cases b <;> exact ⟨_, rfl⟩
  | some m =>
    cases b with
    | none => exact ⟨_, rfl⟩
    | some n =>
      obtain ⟨sum, hsum⟩ := addLongs_ok h
      exact ⟨some sum, congrArg (Except.map some) hsum⟩

theorem combineSums_error (h : ¬ IsLong ((a.getD 0).toInt + (b.getD 0).toInt)) :
    combineSums addLongs a b = .error sumOverflow := by
  cases a with
  | none =>
    refine absurd ?_ h
    rw [Option.getD_none, Int64.toInt_zero, Int.zero_add]
    exact isLong_toInt _
  | some m =>
    cases b with
    | none =>
      refine absurd ?_ h
      rw [Option.getD_none, Int64.toInt_zero, Int.add_zero]
      exact isLong_toInt _
    | some n => exact congrArg (Except.map some) (addLongs_error h)

theorem settles_combineSums (hf : f.summary = .sum)
    (ha : a.map Int64.toInt = total (· + ·) Value.integer? xs)
    (hb : b.map Int64.toInt = total (· + ·) Value.integer? ys) :
    f.Settles sumOverflow (xs ++ ys) (IsLong (exactSum (xs ++ ys)))
      ((combineSums addLongs a b).map .sumLong) := by
  rw [exactSum_append, exactSum_eq ha, exactSum_eq hb]
  by_cases hlong : IsLong ((a.getD 0).toInt + (b.getD 0).toInt)
  · obtain ⟨sum, hsum⟩ := combineSums_ok hlong
    rw [hsum]
    refine .ok hlong (.sum hf ?_)
    rw [combineSums_eq_ok hsum, total_append, ha, hb]
  · rw [combineSums_error hlong]
    exact .error hlong

theorem iterate_sum {arguments : List Value} (hf : f.summary = .sum) (ht : t.isIntegral = true)
    (hv : (arguments.headD .null).fits t = true) :
    Halt.reported (f.iterate (.sumLong a) arguments) =
      (combineSums addLongs a (arguments.headD .null).long?).map .sumLong := by
  simp only [iterate, hf, Halt.reported_ofExcept]
  generalize arguments.headD .null = v at hv ⊢
  by_cases hnull : v.isNull = true
  · obtain rfl := Value.isNull_iff.mp hnull
    cases a <;> rfl
  · obtain ⟨n, hn⟩ := Value.exists_long_of_fits ht hv (Value.isNull_iff.not.mp hnull)
    simp only [hnull, hn, Bool.false_eq_true, ↓reduceIte, ← addLongs_getD]
    cases addLongs (a.getD 0) n <;> rfl

theorem bounded_sum (h : resolve .sum [t] = .ok f) (ht : t.isIntegral = true) :
    f.Bounded (fun v => v.fits t = true) (fun xs => IsLong (exactSum xs)) sumOverflow := by
  obtain ⟨hf, hreturn⟩ := resolve_sum h ht
  refine ⟨?_, ?_, ?_⟩
  · refine .ok (isLong_toInt 0) ?_
    simp only [AggregateFunction.initial, hf, hreturn, ↓reduceIte]
    exact .sum hf rfl
  · intro xs s arguments hs hv
    obtain ⟨sum, rfl, hsum⟩ := hs.of_sum hf
    rw [iterate_sum hf ht hv]
    exact settles_combineSums hf hsum (by simp [total, Value.integer?])
  · intro xs ys s t hs ht
    obtain ⟨a, rfl, ha⟩ := hs.of_sum hf
    obtain ⟨b, rfl, hb⟩ := ht.of_sum hf
    simp only [merge, hf, Halt.reported_ofExcept]
    exact settles_combineSums hf ha hb

theorem settles_addCounts {m n : UInt64} (hf : f.summary = .count)
    (h : m.toNat + n.toNat = xs.countP f.counts) :
    f.Settles Halt.overflow.report xs (xs.countP f.counts < 2 ^ 64)
      (Halt.reported ((addCounts m n).map .count)) := by
  rw [← h]
  by_cases hroom : m.toNat + n.toNat < 2 ^ 64
  · have hsum := addCounts_of_lt hroom
    rw [hsum]
    exact .ok hroom (.count hf ((addCounts_eq_ok.mp hsum).trans h))
  · rw [addCounts_of_le (Nat.le_of_not_lt hroom)]
    exact .error hroom

theorem bounded_count {types : List DataType} (h : resolve .count types = .ok f) :
    f.Bounded (fun _ => True) (fun xs => xs.countP f.counts < 2 ^ 64) Halt.overflow.report := by
  have hf := resolve_count h
  refine ⟨.ok (by simp) (Exact.initial ⟨.count, types, h, .inl rfl⟩), ?_, ?_⟩
  · intro xs s arguments hs _
    obtain ⟨n, rfl, hn⟩ := hs.of_count hf
    rw [iterate_count arguments hf]
    by_cases hc : f.counts (arguments.headD .null) = true
    · rw [if_pos hc]
      refine settles_addCounts hf ?_
      rw [List.countP_append, List.countP_singleton, if_pos hc, hn]
      rfl
    · have hsame : (xs ++ [arguments.headD .null]).countP f.counts = n.toNat := by
        rw [List.countP_append, List.countP_singleton, if_neg hc, Nat.add_zero, hn]
      rw [if_neg hc, hsame]
      exact .ok n.toNat_lt (.count hf hsame.symm)
  · intro xs ys s t hs ht
    obtain ⟨m, rfl, hm⟩ := hs.of_count hf
    obtain ⟨n, rfl, hn⟩ := ht.of_count hf
    simp only [merge, hf]
    exact settles_addCounts hf (by rw [List.countP_append, hm, hn])

-- ---------------------------------------------------------------------------
-- Results
-- ---------------------------------------------------------------------------

/-- The sum of the values: null if all of them are null, and else exact. -/
inductive IsSum (values : List Value) : Value → Prop
  | null : (∀ v ∈ values, v = .null) → IsSum values .null
  | long {n : Int64} : (∃ v ∈ values, v ≠ .null) → n.toInt = exactSum values →
      IsSum values (.long n)

theorem IsSum.unique {v w : Value} (hv : IsSum xs v) (hw : IsSum xs w) : v = w := by
  cases hv with
  | null hnull =>
    cases hw with
    | null => rfl
    | long hsome _ =>
      obtain ⟨u, hu, hne⟩ := hsome
      exact absurd (hnull u hu) hne
  | long hsome hm =>
    cases hw with
    | null hnull =>
      obtain ⟨u, hu, hne⟩ := hsome
      exact absurd (hnull u hu) hne
    | long _ hn => rw [Int64.toInt_inj.mp (hm.trans hn.symm)]

theorem finalize_sum (hf : f.summary = .sum) :
    f.finalize (.sumLong a) = .ok (a.elim .null .long) := by
  obtain ⟨info, summary⟩ := f
  cases hf
  rfl

theorem Represents.isSum {s : PartialState} (hs : f.Represents xs s)
    (h : resolve .sum [t] = .ok f) (ht : t.isIntegral = true)
    (hfits : ∀ v ∈ xs, v.fits t = true) : ∃ v, f.finalize s = .ok v ∧ IsSum xs v := by
  obtain ⟨hf, -⟩ := resolve_sum h ht
  obtain ⟨sum, rfl, hsum⟩ := hs.of_sum hf
  have hnulls : total (· + ·) Value.integer? xs = none ↔ ∀ v ∈ xs, v = .null := by
    rw [total_eq_none]
    exact forall₂_congr fun v hv => Value.integer?_eq_none ht (hfits v hv)
  cases sum with
  | none => exact ⟨.null, finalize_sum hf, .null (hnulls.mp hsum.symm)⟩
  | some n =>
    refine ⟨.long n, finalize_sum hf, .long ?_ (exactSum_eq hsum).symm⟩
    by_contra! hnull
    rw [hnulls.mpr hnull] at hsum
    cases hsum

theorem count_outcome {α : Type} {types : List DataType} (arguments : α → List Value)
    {tree : MergeTree α} (h : resolve .count types = .ok f) (hrows : tree.items.length < 2 ^ 63) :
    ∃ n : Int64, f.outcome arguments tree = .ok (.long n) ∧
      n.toInt = tree.items.countP fun x => f.counts ((arguments x).headD .null) := by
  have hany : ∀ x ∈ tree.items, True := fun _ _ => trivial
  have hroom : ∀ part ∈ tree.parts,
      (part.items.map fun x => (arguments x).headD .null).countP f.counts < 2 ^ 64 := by
    intro part hpart
    have hle := List.countP_le_length (p := f.counts)
      (l := part.items.map fun x => (arguments x).headD .null)
    have hshort := (MergeTree.items_sublist hpart).length_le
    rw [List.length_map] at hle
    omega
  obtain ⟨s, hs, hrep⟩ := ((bounded_count h).fold arguments hany).exists_ok hroom
  obtain ⟨n, rfl, hn⟩ := hrep.of_count (resolve_count h)
  rw [List.countP_map] at hn
  have hle : n.toNat ≤ tree.items.length := hn ▸ List.countP_le_length
  have hlong : IsLong n.toNat := ⟨by omega, by omega⟩
  refine ⟨Int64.ofInt n.toNat, ?_, ?_⟩
  · rw [outcome_ok hs]
    exact finalize_count (resolve_count h) (toLong?_of_isLong hlong)
  · rw [hlong.toInt_ofInt, hn]
    rfl

-- ---------------------------------------------------------------------------
-- Agreement
-- ---------------------------------------------------------------------------

section Agreement

variable {values : List Value} (h : resolve .sum [t] = .ok f) (ht : t.isIntegral = true)
  (hfits : ∀ v ∈ values, v.fits t = true)

include h ht hfits

/-- A sum along a tree succeeds exactly if every part of the tree comes to a long. -/
theorem sum_settles {tree : MergeTree Value} (hp : tree.items.Perm values) :
    f.Settles sumOverflow values (∀ part ∈ tree.parts, IsLong (exactSum part.items))
      (f.fold ([·]) tree) := by
  have hfold := (bounded_sum h ht).fold ([·]) fun v hv => hfits v (hp.mem_iff.mp hv)
  simp only [List.headD_cons, List.map_id'] at hfold
  exact hfold.perm hp

theorem sum_outcome {tree : MergeTree Value} (hp : tree.items.Perm values)
    (hlong : ∀ part ∈ tree.parts, IsLong (exactSum part.items)) :
    ∃ v, f.outcome ([·]) tree = .ok v ∧ IsSum values v := by
  obtain ⟨s, hs, hrep⟩ := (sum_settles h ht hfits hp).exists_ok hlong
  rw [outcome_ok hs]
  exact hrep.isSum h ht hfits

theorem sum_outcome_error {tree : MergeTree Value} (hp : tree.items.Perm values)
    (hover : ¬ ∀ part ∈ tree.parts, IsLong (exactSum part.items)) :
    f.outcome ([·]) tree = .error sumOverflow :=
  outcome_error ((sum_settles h ht hfits hp).eq_error hover)

/-- Values that come to a long are summed up along some tree. -/
theorem exists_tree_ok (hlong : IsLong (exactSum values)) :
    ∃ (tree : MergeTree Value) (v : Value), tree.items.Perm values ∧
      f.outcome ([·]) tree = .ok v := by
  obtain ⟨ys, hys, hfronts⟩ :=
    exists_order (isLong_toInt 0) (by rwa [Int64.toInt_zero, zero_add])
  simp only [Int64.toInt_zero, zero_add] at hfronts
  let tree : MergeTree Value := .leaf ys
  have hp : tree.items.Perm values := hys
  obtain ⟨v, hv, -⟩ := sum_outcome h ht hfits hp (MergeTree.forall_parts_leaf.mpr hfronts)
  exact ⟨tree, v, hp, hv⟩

theorem exists_tree_error {p : Value → Bool} (hover : ¬ IsLong (exactSum (values.filter p))) :
    ∃ tree : MergeTree Value, tree.items.Perm values ∧
      f.outcome ([·]) tree = .error sumOverflow := by
  let chosen : MergeTree Value := .leaf (values.filter p)
  let tree : MergeTree Value := .node chosen (.leaf (values.filter fun v => !p v))
  have hp : tree.items.Perm values := List.filter_append_perm p values
  have hchosen : chosen ∈ tree.parts :=
    List.mem_cons_of_mem _ (List.mem_append_left _ chosen.mem_parts_self)
  exact ⟨tree, hp, sum_outcome_error h ht hfits hp fun hlong => hover (hlong chosen hchosen)⟩

theorem sum_overflows {tree : MergeTree Value} (hover : ¬ IsLong (exactSum values))
    (hp : tree.items.Perm values) : f.outcome ([·]) tree = .error sumOverflow :=
  sum_outcome_error h ht hfits hp fun hlong =>
    hover (exactSum_perm hp ▸ hlong tree tree.mem_parts_self)

theorem sum_succeeds {tree : MergeTree Value} (hgains : IsLong (gains values))
    (hlosses : IsLong (losses values)) (hp : tree.items.Perm values) :
    ∃ v, f.outcome ([·]) tree = .ok v ∧ IsSum values v := by
  refine sum_outcome h ht hfits hp fun part hpart => ?_
  obtain ⟨hlow, hhigh⟩ := exactSum_bounds (MergeTree.items_sublist hpart)
  rw [losses_perm hp] at hlow
  rw [gains_perm hp] at hhigh
  exact ⟨hlosses.1.trans hlow, hhigh.trans_lt hgains.2⟩

end Agreement

/-- Along a tree the sum is exact if every part of the tree comes to a long, and overflows if some
part does not. All trees of the same values agree exactly if the values come to no long at all, or
if neither the positive nor the negative ones among them leave the longs. -/
theorem sums_agree_iff {values : List Value} (h : resolve .sum [t] = .ok f)
    (ht : t.isIntegral = true) (hfits : ∀ v ∈ values, v.fits t = true) :
    (∀ tree : MergeTree Value, tree.items.Perm values →
      ((∀ part ∈ tree.parts, IsLong (exactSum part.items)) →
        ∃ v, f.outcome ([·]) tree = .ok v ∧ IsSum values v) ∧
      (¬ (∀ part ∈ tree.parts, IsLong (exactSum part.items)) →
        f.outcome ([·]) tree = .error sumOverflow)) ∧
    ((∀ tree other : MergeTree Value, tree.items.Perm values → other.items.Perm values →
        f.outcome ([·]) tree = f.outcome ([·]) other) ↔
      ¬ IsLong (exactSum values) ∨ IsLong (gains values) ∧ IsLong (losses values)) := by
  refine ⟨fun tree hp => ⟨sum_outcome h ht hfits hp, sum_outcome_error h ht hfits hp⟩,
    fun hagree => ?_, ?_⟩
  · by_contra! hmixed
    obtain ⟨hlong, hchoice⟩ := hmixed
    have hover : ∃ p : Value → Bool, ¬ IsLong (exactSum (values.filter p)) := by
      by_cases hgains : IsLong (gains values)
      · exact ⟨_, hchoice hgains⟩
      · exact ⟨_, hgains⟩
    obtain ⟨p, hover⟩ := hover
    obtain ⟨tree, v, hp, hv⟩ := exists_tree_ok h ht hfits hlong
    obtain ⟨other, hq, herror⟩ := exists_tree_error h ht hfits hover
    have hsame := hagree tree other hp hq
    rw [hv, herror] at hsame
    cases hsame
  · rintro (hover | ⟨hgains, hlosses⟩) tree other hp hq
    · rw [sum_overflows h ht hfits hover hp, sum_overflows h ht hfits hover hq]
    · obtain ⟨v, hv, hsum⟩ := sum_succeeds h ht hfits hgains hlosses hp
      obtain ⟨w, hw, hsum'⟩ := sum_succeeds h ht hfits hgains hlosses hq
      rw [hv, hw, hsum.unique hsum']

theorem sums_agree_iff_bytes : ∃ f, resolve .sum [.byte] = .ok f ∧ DataType.byte.isIntegral = true ∧
    (∀ v ∈ [Value.byte 100, .null, .byte (-5)], v.fits .byte = true) ∧
    ∀ tree other : MergeTree Value, tree.items.Perm [.byte 100, .null, .byte (-5)] →
      other.items.Perm [.byte 100, .null, .byte (-5)] →
      f.outcome ([·]) tree = f.outcome ([·]) other := by
  have hfits : ∀ v ∈ [Value.byte 100, .null, .byte (-5)], v.fits .byte = true := by decide
  exact ⟨_, rfl, rfl, hfits,
    (sums_agree_iff rfl rfl hfits).2.mpr (.inr ⟨by decide, by decide⟩)⟩

/-- Merging sums is not associative, and folding them depends on the order. -/
theorem sums_disagree : ∃ f, resolve .sum [.long] = .ok f ∧
    f.outcome ([·]) (.node (.leaf [.long 0x7fffffffffffffff]) (.node (.leaf [.long 1])
      (.leaf [.long (-1)]))) = .ok (.long 0x7fffffffffffffff) ∧
    f.outcome ([·]) (.node (.node (.leaf [.long 0x7fffffffffffffff]) (.leaf [.long 1]))
      (.leaf [.long (-1)])) = .error sumOverflow ∧
    f.outcome ([·]) (.leaf [.long 0x7fffffffffffffff, .long (-1), .long 1]) =
      .ok (.long 0x7fffffffffffffff) ∧
    f.outcome ([·]) (.leaf [.long 0x7fffffffffffffff, .long 1, .long (-1)]) =
      .error sumOverflow :=
  ⟨_, rfl, rfl, rfl, rfl, rfl⟩

-- ---------------------------------------------------------------------------
-- Exactness
-- ---------------------------------------------------------------------------

/-- Along every tree of fewer than 2^63 items, counts are exact. A sum that succeeds is exact, and
one that fails has overflowed in some part of the tree. -/
theorem counts_and_sums_exact {tree : MergeTree Value} (hrows : tree.items.length < 2 ^ 63)
    (hfits : ∀ v ∈ tree.items, v.fits t = true) :
    (∀ f, resolve .count [] = .ok f → ∃ n : Int64,
      f.outcome (fun _ => []) tree = .ok (.long n) ∧ n.toInt = tree.items.length) ∧
    (∀ f, resolve .count [t] = .ok f → ∃ n : Int64,
      f.outcome ([·]) tree = .ok (.long n) ∧ n.toInt = tree.items.countP (!·.isNull)) ∧
    (t.isIntegral = true → ∀ f, resolve .sum [t] = .ok f →
      (∀ s, f.fold ([·]) tree = .ok s → ∃ v, f.finalize s = .ok v ∧ IsSum tree.items v) ∧
      ∀ e, f.outcome ([·]) tree = .error e ↔ e = .execution "long overflow in sum" ∧
        ∃ part ∈ tree.parts, ¬ IsLong (exactSum part.items)) := by
  refine ⟨fun f h => ?_, fun f h => ?_, fun ht f h => ?_⟩
  · obtain ⟨n, hn, hcount⟩ := count_outcome (fun _ => []) h hrows
    refine ⟨n, hn, hcount.trans ?_⟩
    simp [counts, (resolve_wellTyped h).2]
  · obtain ⟨n, hn, hcount⟩ := count_outcome ([·]) h hrows
    refine ⟨n, hn, hcount.trans ?_⟩
    simp [counts, (resolve_wellTyped h).2]
  · refine ⟨fun s hs => ?_, fun e => ?_⟩
    · have hsettles := sum_settles h ht hfits (.refl _)
      rw [hs] at hsettles
      cases hsettles with
      | ok _ hrep => exact hrep.isSum h ht hfits
    · by_cases hlong : ∀ part ∈ tree.parts, IsLong (exactSum part.items)
      · obtain ⟨v, hv, -⟩ := sum_outcome h ht hfits (.refl _) hlong
        rw [hv]
        refine iff_of_false nofun ?_
        rintro ⟨-, part, hpart, hover⟩
        exact hover (hlong part hpart)
      · have hover : ∃ part ∈ tree.parts, ¬ IsLong (exactSum part.items) := by simpa using hlong
        rw [sum_outcome_error h ht hfits (.refl _) hlong, Except.error.injEq,
          and_iff_left hover]
        exact eq_comm

theorem counts_and_sums_exact_over :
    let tree : MergeTree Value := .node (.leaf [.long 0x7fffffffffffffff, .null]) (.leaf [.long 1])
    tree.items.length < 2 ^ 63 ∧ (∀ v ∈ tree.items, v.fits .long = true) ∧
      (∃ f, resolve .count [.long] = .ok f ∧ ∃ n : Int64,
        f.outcome ([·]) tree = .ok (.long n) ∧ n.toInt = tree.items.countP (!·.isNull)) ∧
      ∃ f, resolve .sum [.long] = .ok f ∧
        f.outcome ([·]) tree = .error (.execution "long overflow in sum") := by
  intro tree
  have hrows : tree.items.length < 2 ^ 63 := by decide
  have hfits : ∀ v ∈ tree.items, v.fits .long = true := by decide
  obtain ⟨-, hcount, hsum⟩ := counts_and_sums_exact hrows hfits
  refine ⟨hrows, hfits, ⟨_, rfl, hcount _ rfl⟩, _, rfl, ((hsum rfl _ rfl).2 _).mpr ⟨rfl, tree, ?_⟩⟩
  exact ⟨tree.mem_parts_self, by decide⟩

end AggregateFunction

end ShardQuery
