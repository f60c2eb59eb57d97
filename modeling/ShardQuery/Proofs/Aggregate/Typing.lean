import ShardQuery.Proofs.Aggregate.Represents
/-!
# Types of aggregates

The states that an aggregate can come to from arguments of its types, and the type
of the result that it makes of them. States do not carry these types: the result of a
minimum or maximum can be trusted only where the states that it took matched it.
-/

namespace ShardQuery

namespace AggregateFunction

/-- The states that the aggregate makes of arguments of its types, alone or from parts. -/
inductive Produces (f : AggregateFunction) : PartialState → Prop
  | initial : Produces f f.initial
  | iterate {s t arguments} : Produces f s →
      ScalarFunction.Fit arguments f.info.argumentTypes → f.iterate s arguments = .ok t →
      Produces f t
  | merge {s t u} : Produces f s → Produces f t → f.merge s t = .ok u → Produces f u

def WellTyped (f : AggregateFunction) : Prop :=
  match f.summary with
  | .count => f.info.returnType = .long
  | .sum => f.info.returnType = .long ∨ f.info.returnType = .double
  | .average | .variance | .spread => f.info.returnType = .double
  | .extreme _ => f.info.argumentTypes = [f.info.returnType]

theorem wellTyped_of_returnType? {f : AggregateFunction} {t : DataType}
    (hs : f.summary ≠ .count) (ht : f.info.argumentTypes = [t])
    (hr : f.summary.returnType? t = some f.info.returnType) : f.WellTyped := by
  unfold WellTyped
  unfold Summary.returnType? at hr
  split
  · contradiction
  · rename_i hf
    rw [hf] at hr
    dsimp only at hr
    split at hr
    · exact .inl (Option.some.inj hr).symm
    · split at hr
      · exact .inr (Option.some.inj hr).symm
      · cases hr
  · rename_i hf
    simp only [hf, Option.ite_none_right_eq_some, Option.some.injEq] at hr
    exact hr.2.symm
  · rename_i hf
    simp only [hf, Option.ite_none_right_eq_some, Option.some.injEq] at hr
    exact hr.2.symm
  · rename_i hf
    simp only [hf, Option.ite_none_right_eq_some, Option.some.injEq] at hr
    exact hr.2.symm
  · rename_i hf
    simp only [hf, Option.ite_none_right_eq_some, Option.some.injEq] at hr
    rw [ht, hr.2]

theorem resolve_wellTyped {summary : Summary} {types : List DataType} {f : AggregateFunction}
    (h : resolve summary types = .ok f) : f.WellTyped ∧ f.info.argumentTypes = types := by
  by_cases hs : summary = .count
  · subst hs
    simp only [resolve] at h
    split at h
    · cases h
    · split at h <;> cases h
      exact ⟨rfl, rfl⟩
  · obtain ⟨hf, t, rfl, ht, hr⟩ := resolve_unary hs h
    rw [← hf] at hs hr
    exact ⟨wellTyped_of_returnType? hs ht hr, ht⟩

end AggregateFunction

theorem Registry.aggregateResolver_builtin {name : String} {resolver : AggregateResolver}
    (h : builtin.aggregates.lookup name = some resolver) :
    ∃ summary, resolver = AggregateFunction.resolve summary := by
  obtain ⟨_, _, hl, -⟩ := List.lookup_eq_some_iff.mp h
  have hm : (name, resolver) ∈ builtin.aggregates := by
    rw [hl]
    simp
  obtain ⟨⟨_, summary⟩, -, he⟩ := List.mem_map.mp hm
  exact ⟨summary, (Prod.mk.inj he).2.symm⟩

theorem Registry.resolveAggregate_builtin {signature : Signature} {f : AggregateFunction}
    (h : Registry.builtin.resolveAggregate signature = .ok f) :
    ∃ summary, AggregateFunction.resolve summary signature.argumentTypes = .ok f := by
  simp only [resolveAggregate] at h
  split at h
  · rename_i resolver hresolver
    obtain ⟨summary, rfl⟩ := aggregateResolver_builtin hresolver
    exact ⟨summary, h⟩
  · cases h

theorem Registry.resolveAggregate_max {t : DataType}
    (h : (t.isComparable && t != .undefined) = true) :
    Registry.builtin.resolveAggregate ⟨"max", [t]⟩ =
      .ok ⟨⟨⟨"max", [t]⟩, t, .aggregate⟩, .extreme true⟩ := by
  have hfold : fold "max" = "max" := by decide +kernel
  have hresolve : AggregateFunction.resolve (.extreme true) [t] =
      .ok ⟨⟨⟨"max", [t]⟩, t, .aggregate⟩, .extreme true⟩ := by
    simp only [AggregateFunction.resolve, Summary.returnType?, if_pos h]
    rfl
  simp only [resolveAggregate, hfold]
  exact hresolve

theorem Registry.verifyAggregate_wellTyped {info : FunctionInfo} {f : AggregateFunction}
    (h : Registry.builtin.verifyAggregate info = .ok f) :
    f.WellTyped ∧ f.info.argumentTypes = info.argumentTypes ∧
      f.info.returnType = info.returnType := by
  obtain ⟨-, -, h⟩ := bind_eq_ok.mp h
  obtain ⟨g, hg, h⟩ := bind_eq_ok.mp h
  obtain ⟨_, ht, h⟩ := bind_eq_ok.mp h
  cases h
  obtain ⟨summary, hresolve⟩ := resolveAggregate_builtin hg
  obtain ⟨hf, ha⟩ := AggregateFunction.resolve_wellTyped hresolve
  refine ⟨hf, ha, ?_⟩
  unfold expectReturnType at ht
  split at ht
  · rename_i hreturn
    exact hreturn.symm
  · cases ht

namespace AggregateFunction

-- ---------------------------------------------------------------------------
-- States
-- ---------------------------------------------------------------------------

/-- A state of the kind that the aggregate makes itself. Of the value in a minimum or maximum
nothing is known. -/
inductive Kindred (f : AggregateFunction) : PartialState → Prop
  | count {n} : f.summary = .count → Kindred f (.count n)
  | sumLong {sum} : f.summary = .sum → f.info.returnType = .long → Kindred f (.sumLong sum)
  | sumDouble {sum} : f.summary = .sum → f.info.returnType = .double → Kindred f (.sumDouble sum)
  | average {n sum} : f.summary = .average → Kindred f (.average n sum)
  | extreme {isMax v} : f.summary = .extreme isMax → Kindred f (.extreme isMax v)
  | variance {m} : f.summary = .variance ∨ f.summary = .spread → Kindred f (.variance m)

/-- A minimum or maximum that the aggregate takes for its own holds null or a value of the declared
type. Nothing is asked of other states. -/
def Matches (f : AggregateFunction) (s : PartialState) : Prop :=
  ∀ isMax v, f.summary = .extreme isMax → s = .extreme isMax v → v.fits f.info.returnType = true

/-- What the aggregate can go on with, and finally turn into a value of the declared type. -/
structure Keeps (f : AggregateFunction) (s : PartialState) : Prop where
  kindred : f.Kindred s
  sound : f.Matches s

/-- If both are minima, or both maxima, they return the same type. -/
def Agrees (f g : AggregateFunction) : Prop :=
  ∀ isMax, f.summary = .extreme isMax → g.summary = .extreme isMax →
    f.info.returnType = g.info.returnType

variable {f g : AggregateFunction} {s t u : PartialState} {arguments : List Value}

theorem Kindred.of_extreme {isMax : Bool} {v : Value} (hs : f.Kindred (.extreme isMax v)) :
    f.summary = .extreme isMax := by
  cases hs with
  | extreme hf => exact hf

theorem Kindred.exists_count (hs : f.Kindred s) (hf : f.summary = .count) : ∃ n, s = .count n := by
  cases hs <;> simp_all

theorem Kindred.exists_average (hs : f.Kindred s) (hf : f.summary = .average) :
    ∃ n sum, s = .average n sum := by
  cases hs <;> simp_all

theorem Kindred.exists_variance (hs : f.Kindred s) (hf : f.summary = .variance ∨ f.summary = .spread) :
    ∃ m, s = .variance m := by
  cases hs <;> simp_all

theorem Kindred.exists_extreme {isMax : Bool} (hs : f.Kindred s) (hf : f.summary = .extreme isMax) :
    ∃ v, s = .extreme isMax v := by
  cases hs <;> simp_all

theorem Keeps.matches_of_agrees (hs : f.Keeps s) (h : f.Agrees g) : g.Matches s := by
  rintro isMax v hg rfl
  have hf := hs.kindred.of_extreme
  exact h isMax hf hg ▸ hs.sound isMax v hf rfl

-- ---------------------------------------------------------------------------
-- Steps
-- ---------------------------------------------------------------------------

theorem WellTyped.of_sum (hf : f.WellTyped) (hs : f.summary = .sum) :
    f.info.returnType = .long ∨ f.info.returnType = .double := by
  simpa only [WellTyped, hs] using hf

theorem Kindred.initial
    (hsum : f.summary = .sum → f.info.returnType = .long ∨ f.info.returnType = .double) :
    f.Kindred f.initial := by
  unfold AggregateFunction.initial
  split
  · rename_i hs
    exact .count hs
  · rename_i hs
    split
    · rename_i hlong
      exact .sumLong hs hlong
    · rename_i hlong
      exact .sumDouble hs ((hsum hs).resolve_left hlong)
  · rename_i hs
    exact .average hs
  · rename_i hs
    exact .extreme hs
  · rename_i hs
    exact .variance (.inl hs)
  · rename_i hs
    exact .variance (.inr hs)

theorem Keeps.initial (hf : f.WellTyped) : f.Keeps f.initial := by
  refine ⟨.initial hf.of_sum, fun isMax v hsummary h => ?_⟩
  simp only [AggregateFunction.initial, hsummary] at h
  cases h
  rfl

theorem Kindred.iterate (hs : f.Kindred s) (h : f.iterate s arguments = .ok t) : f.Kindred t := by
  cases hs with
  | count hs =>
    simp only [AggregateFunction.iterate, hs] at h
    split at h
    · obtain ⟨n, -, rfl⟩ := map_eq_ok.mp h
      exact .count hs
    · cases h
      exact .count hs
  | sumLong hs hr =>
    simp only [AggregateFunction.iterate, hs, Halt.ofExcept_eq_ok] at h
    split at h
    · cases h
      exact .sumLong hs hr
    · split at h
      · obtain ⟨sum, -, rfl⟩ := map_eq_ok.mp h
        exact .sumLong hs hr
      · cases h
  | sumDouble hs hr =>
    simp only [AggregateFunction.iterate, hs, Halt.ofExcept_eq_ok] at h
    split at h
    · cases h
      exact .sumDouble hs hr
    · split at h
      · cases h
        exact .sumDouble hs hr
      · cases h
  | average hs =>
    simp only [AggregateFunction.iterate, hs] at h
    split at h
    · obtain ⟨n, -, rfl⟩ := map_eq_ok.mp h
      exact .average hs
    · cases h
      exact .average hs
  | extreme hs =>
    simp only [AggregateFunction.iterate, hs, Halt.ofExcept_eq_ok] at h
    split at h
    · cases h
      exact .extreme hs
    · split at h
      · cases h
      · obtain ⟨kept, -, rfl⟩ := map_eq_ok.mp h
        exact .extreme hs
  | variance hs =>
    have hnext : ∃ m, t = .variance m := by
      rcases hs with hs | hs
      all_goals
        simp only [AggregateFunction.iterate, hs] at h
        split at h
        · obtain ⟨_, -, rfl⟩ := map_eq_ok.mp h
          exact ⟨_, rfl⟩
        · cases h
          exact ⟨_, rfl⟩
    obtain ⟨m, rfl⟩ := hnext
    exact .variance hs

theorem keepExtreme_or {isMax : Bool} {current candidate kept : Value}
    (h : keepExtreme isMax current candidate = .ok kept) : kept = current ∨ kept = candidate := by
  unfold keepExtreme at h
  split at h
  · cases h
    exact .inl rfl
  · split at h
    · cases h
      exact .inr rfl
    · split at h
      · cases h
        exact (ite_eq_or_eq ..).symm
      · cases h

theorem keepExtreme_fits {isMax : Bool} {current candidate kept : Value} {type : DataType}
    (hcurrent : current.fits type = true) (hcandidate : candidate.fits type = true)
    (h : keepExtreme isMax current candidate = .ok kept) : kept.fits type = true := by
  rcases keepExtreme_or h with rfl | rfl
  · exact hcurrent
  · exact hcandidate

theorem Keeps.iterate (hf : f.WellTyped) (hs : f.Keeps s)
    (ha : ScalarFunction.Fit arguments f.info.argumentTypes) (h : f.iterate s arguments = .ok t) :
    f.Keeps t := by
  refine ⟨hs.kindred.iterate h, ?_⟩
  rintro isMax v hsummary rfl
  obtain ⟨current, rfl⟩ := hs.kindred.exists_extreme hsummary
  have hcurrent := hs.sound isMax current hsummary rfl
  have htypes : f.info.argumentTypes = [f.info.returnType] := by
    simpa only [WellTyped, hsummary] using hf
  simp only [AggregateFunction.iterate, hsummary, Halt.ofExcept_eq_ok] at h
  split at h
  · cases h
    exact hcurrent
  · split at h
    · cases h
    · obtain ⟨kept, hkept, he⟩ := map_eq_ok.mp h
      cases he
      rw [htypes] at ha
      cases ha with
      | cons hargument hrest =>
        cases hrest
        exact keepExtreme_fits hcurrent hargument hkept

inductive Merges (f : AggregateFunction) : PartialState → PartialState → PartialState → Prop
  | count {m n sum} : f.summary = .count → addCounts m n = .ok sum →
      Merges f (.count m) (.count n) (.count sum)
  | sumLong {x y z} : f.summary = .sum → combineSums addLongs x y = .ok z →
      Merges f (.sumLong x) (.sumLong y) (.sumLong z)
  | sumDouble {x y z} : f.summary = .sum → combineSums (fun x y => .ok (x + y)) x y = .ok z →
      Merges f (.sumDouble x) (.sumDouble y) (.sumDouble z)
  | average {m n sum x y} : f.summary = .average → addCounts m n = .ok sum →
      Merges f (.average m x) (.average n y) (.average sum (x + y))
  | extreme {isMax x y z} : f.summary = .extreme isMax → keepExtreme isMax x y = .ok z →
      Merges f (.extreme isMax x) (.extreme isMax y) (.extreme isMax z)
  | variance {x y sum} : f.summary = .variance ∨ f.summary = .spread →
      addCounts x.count y.count = .ok sum →
      Merges f (.variance x) (.variance y) (.variance (x.merge y))

theorem merges_of_ok (h : f.merge s t = .ok u) : f.Merges s t u := by
  unfold AggregateFunction.merge at h
  split at h
  · rename_i hsummary
    obtain ⟨sum, hsum, rfl⟩ := map_eq_ok.mp h
    exact .count hsummary hsum
  · rename_i hsummary
    obtain ⟨sum, hsum, rfl⟩ := map_eq_ok.mp (Halt.ofExcept_eq_ok.mp h)
    exact .sumLong hsummary hsum
  · rename_i hsummary
    obtain ⟨sum, hsum, rfl⟩ := map_eq_ok.mp (Halt.ofExcept_eq_ok.mp h)
    exact .sumDouble hsummary hsum
  · cases h
  · cases h
  · rename_i hsummary
    obtain ⟨sum, hsum, rfl⟩ := map_eq_ok.mp h
    exact .average hsummary hsum
  · rename_i hsummary
    rw [Halt.ofExcept_eq_ok] at h
    split at h
    · cases h
    · rename_i hkinds
      obtain ⟨kept, hkept, rfl⟩ := map_eq_ok.mp h
      obtain ⟨hsame, hown⟩ := not_or.mp hkinds
      obtain rfl := Decidable.not_not.mp hown
      obtain rfl := Decidable.not_not.mp hsame
      exact .extreme hsummary hkept
  · rename_i hsummary
    obtain ⟨sum, hsum, rfl⟩ := map_eq_ok.mp h
    exact .variance (.inl hsummary) hsum
  · rename_i hsummary
    obtain ⟨sum, hsum, rfl⟩ := map_eq_ok.mp h
    exact .variance (.inr hsummary) hsum
  · cases h

theorem Kindred.merge (hs : f.Kindred s) (h : f.merge s t = .ok u) :
    f.Kindred t ∧ f.Kindred u := by
  cases merges_of_ok h with
  | count hsummary => exact ⟨.count hsummary, .count hsummary⟩
  | sumLong hsummary =>
    cases hs with
    | sumLong _ hr => exact ⟨.sumLong hsummary hr, .sumLong hsummary hr⟩
  | sumDouble hsummary =>
    cases hs with
    | sumDouble _ hr => exact ⟨.sumDouble hsummary hr, .sumDouble hsummary hr⟩
  | average hsummary => exact ⟨.average hsummary, .average hsummary⟩
  | extreme hsummary => exact ⟨.extreme hsummary, .extreme hsummary⟩
  | variance hsummary => exact ⟨.variance hsummary, .variance hsummary⟩

theorem merge_extreme_or {isMax : Bool} (hf : f.summary = .extreme isMax)
    (h : f.merge s t = .ok u) : u = s ∨ u = t := by
  cases merges_of_ok h with
  | extreme _ hkept => exact (keepExtreme_or hkept).imp (congrArg _) (congrArg _)
  | variance hsummary => rcases hsummary with hsummary | hsummary <;> cases hf.symm.trans hsummary
  | count hsummary | sumLong hsummary | sumDouble hsummary | average hsummary =>
    cases hf.symm.trans hsummary

theorem Keeps.merge (hs : f.Keeps s) (ht : f.Matches t) (h : f.merge s t = .ok u) :
    f.Keeps u := by
  refine ⟨(hs.kindred.merge h).2, fun isMax v hsummary hu => ?_⟩
  rcases merge_extreme_or hsummary h with rfl | rfl
  · exact hs.sound isMax v hsummary hu
  · exact ht isMax v hsummary hu

-- ---------------------------------------------------------------------------
-- Results
-- ---------------------------------------------------------------------------

theorem elim_fits {α : Type} {wrap : α → Value} {type : DataType} (x : Option α)
    (hwrap : ∀ a, (wrap a).dataType = type) : (x.elim .null wrap).fits type = true := by
  cases x with
  | none => rfl
  | some a => exact Value.fits_iff.mpr (.inr (hwrap a))

theorem Keeps.finalize {v : Value} (hf : f.WellTyped) (hs : f.Keeps s)
    (h : f.finalize s = .ok v) : v.fits f.info.returnType = true := by
  unfold WellTyped at hf
  unfold AggregateFunction.finalize at h
  -- the bounds of longs are hidden, as the kernel would count up to them in these cases
  obtain ⟨narrow, hnarrow⟩ : ∃ narrow, narrow = toLong? := ⟨toLong?, rfl⟩
  rw [← hnarrow] at h
  split at h
  · rename_i hsummary
    simp only [hsummary] at hf
    split at h
    · cases h
      exact Value.fits_iff.mpr (.inr hf.symm)
    · cases h
  · cases h
    cases hs.kindred with
    | sumLong _ hr => exact elim_fits _ fun n => hr.symm
  · cases h
    cases hs.kindred with
    | sumDouble _ hr => exact elim_fits _ fun x => hr.symm
  · rename_i hsummary
    simp only [hsummary] at hf
    cases h
    split
    · rfl
    · exact Value.fits_iff.mpr (.inr hf.symm)
  · cases h
    exact hs.sound _ _ hs.kindred.of_extreme rfl
  · rename_i hsummary
    simp only [hsummary] at hf
    cases h
    exact elim_fits _ fun x => hf.symm
  · rename_i hsummary
    simp only [hsummary] at hf
    cases h
    exact elim_fits _ fun x => hf.symm
  · cases h

theorem Produces.keeps (hf : f.WellTyped) (h : f.Produces s) : f.Keeps s := by
  induction h with
  | initial => exact .initial hf
  | iterate _ ha hi ih => exact ih.iterate hf ha hi
  | merge _ _ hm ihs iht => exact ihs.merge iht.sound hm

end AggregateFunction

end ShardQuery
