import Mathlib.Tactic.Tauto
import ShardQuery.Proofs.Number.Single
import ShardQuery.Proofs.Text.Utf8
import ShardQuery.Proofs.Wire.Numbers
import ShardQuery.Value.Hash
import ShardQuery.Value.Order
/-!
# The sameness of values

Values are the same if they are equal, except for the doubles that a state holds by
itself: those are compared as numbers. So a state with a NaN is not even the same as
itself, and states that differ in the sign of a zero are the same.
-/

namespace ShardQuery

-- ---------------------------------------------------------------------------
-- Numbers
-- ---------------------------------------------------------------------------

namespace Double

/-- The double, or positive zero in the place of either zero. -/
def settled (x : Double) : Double := if x.isZero then zero else x

theorem numEq_iff {x y : Double} :
    x.numEq y = true ↔ x.isNaN = false ∧ y.isNaN = false ∧ x.settled = y.settled := by
  simp only [numEq, Bool.and_eq_true, Bool.not_eq_true', Bool.or_eq_true, beq_iff_eq, and_assoc]
  refine and_congr_right fun _ => and_congr_right fun _ => ?_
  by_cases hx : x.isZero = true <;> by_cases hy : y.isZero = true <;>
    simp only [settled, hx, hy, and_self, and_true, and_false, or_true, or_false, if_true,
      Bool.false_eq_true, if_false]
  · exact ⟨fun h => absurd (h ▸ hx) hy, fun h => absurd (h ▸ rfl) hy⟩
  · exact ⟨fun h => absurd (h ▸ hy) hx, fun h => absurd (h ▸ rfl) hx⟩

theorem numEq_iff_eq (x : Double) :
    (∀ y, x.numEq y = true ↔ x = y) ↔ x.isNaN = false ∧ x.isZero = false := by
  constructor
  · intro h
    have hx : x.isNaN = false := (numEq_iff.mp ((h x).mpr rfl)).1
    refine ⟨hx, Bool.eq_false_iff.mpr fun hzero => ?_⟩
    have hboth {y : Double} (hy : y.isNaN = false) (hy' : y.isZero = true) : x = y :=
      (h y).mp (numEq_iff.mpr ⟨hx, hy, by rw [settled, if_pos hzero, settled, if_pos hy']⟩)
    have hpositive : x = zero := hboth rfl rfl
    have hnegative : x = ⟨0x8000000000000000⟩ := hboth rfl rfl
    exact absurd (hpositive.symm.trans hnegative) (by decide)
  · rintro ⟨hx, hzero⟩ y
    constructor
    · intro h
      have h : y.isNaN = false ∧ x = y := by simpa [numEq, hx, hzero] using h
      exact h.2
    · rintro rfl
      exact numEq_iff.mpr ⟨hx, hx, rfl⟩

end Double

-- ---------------------------------------------------------------------------
-- The numbers of a value
-- ---------------------------------------------------------------------------

mutual
/-- The doubles that are compared as numbers where the value is compared. -/
def Value.numbers : Value → List Double
  | .state state => state.numbers
  | _ => []

def PartialState.numbers : PartialState → List Double
  | .count _ | .sumLong _ => []
  | .sumDouble sum => sum.toList
  | .average _ sum => [sum]
  | .extreme _ value => value.numbers
  | .variance m => [m.mean, m.deviation]
end

mutual
def Value.settled : Value → Value
  | .state state => .state state.settled
  | value => value

def PartialState.settled : PartialState → PartialState
  | .sumDouble sum => .sumDouble (sum.map Double.settled)
  | .average count sum => .average count sum.settled
  | .extreme isMax value => .extreme isMax value.settled
  | .variance m => .variance ⟨m.count, m.mean.settled, m.deviation.settled⟩
  | state => state
end

/-- No number of the value is a NaN. -/
def Value.Proper (value : Value) : Prop := ∀ x ∈ value.numbers, x.isNaN = false

/-- No number of the value is a NaN or a zero. -/
def Value.Exact (value : Value) : Prop :=
  ∀ x ∈ value.numbers, x.isNaN = false ∧ x.isZero = false

def PartialState.Proper (state : PartialState) : Prop := ∀ x ∈ state.numbers, x.isNaN = false

def PartialState.Exact (state : PartialState) : Prop :=
  ∀ x ∈ state.numbers, x.isNaN = false ∧ x.isZero = false

instance : DecidablePred Value.Proper :=
  fun v => inferInstanceAs (Decidable (∀ x ∈ v.numbers, x.isNaN = false))

theorem Value.same_iff {v w : Value} (h : v.dataType ≠ .aggregationState) :
    v.same w = true ↔ v = w := by
  cases v with
  | state => exact absurd rfl h
  | _ => rw [Value.same, decide_eq_true_eq]; simp

mutual
theorem Value.same_iff_settled (a b : Value) :
    a.same b = true ↔ a.Proper ∧ b.Proper ∧ a.settled = b.settled := by
  cases a with
  | state s =>
    cases b with
    | state t =>
      simp only [Value.same, Value.settled, Value.state.injEq]
      exact PartialState.same_iff_settled s t
    | _ => simp [Value.same, Value.settled]
  | _ =>
    rw [Value.same_iff (by simp [Value.dataType])]
    cases b <;> simp [Value.settled, Value.Proper, Value.numbers]

theorem PartialState.same_iff_settled (s t : PartialState) :
    s.same t = true ↔ s.Proper ∧ t.Proper ∧ s.settled = t.settled := by
  rcases s with m | m | (_ | x) | ⟨m, x⟩ | ⟨m, v⟩ | m <;>
    rcases t with n | n | (_ | y) | ⟨n, y⟩ | ⟨n, w⟩ | n <;>
    simp [PartialState.same, PartialState.settled, PartialState.Proper, PartialState.numbers,
      Double.numEq_iff]
  -- the pairs of one kind that hold more than one part
  case average.average => tauto
  case extreme.extreme =>
    rw [Value.same_iff_settled v w, Value.Proper, Value.Proper]
    tauto
  case variance.variance => tauto
end

-- ---------------------------------------------------------------------------
-- What sameness is, and what it is not
-- ---------------------------------------------------------------------------

namespace Value

variable {a b c : Value}

theorem same_self : a.same a = true ↔ a.Proper :=
  (same_iff_settled a a).trans ⟨And.left, fun h => ⟨h, h, rfl⟩⟩

theorem same_symm (h : a.same b = true) : b.same a = true := by
  obtain ⟨ha, hb, hsettled⟩ := (same_iff_settled a b).mp h
  exact (same_iff_settled b a).mpr ⟨hb, ha, hsettled.symm⟩

theorem same_trans (h : a.same b = true) (h' : b.same c = true) : a.same c = true := by
  obtain ⟨ha, -, hab⟩ := (same_iff_settled a b).mp h
  obtain ⟨-, hc, hbc⟩ := (same_iff_settled b c).mp h'
  exact (same_iff_settled a c).mpr ⟨ha, hc, hab.trans hbc⟩

end Value

mutual
theorem Value.same_iff_eq (v : Value) : (∀ w, v.same w = true ↔ v = w) ↔ v.Exact := by
  cases v with
  | state s =>
    refine Iff.trans ⟨fun h t => ?_, fun h w => ?_⟩ (PartialState.same_iff_eq s)
    · simpa [Value.same] using h (.state t)
    · cases w <;> simp [Value.same, h]
  | _ =>
    refine iff_of_true (fun w => Value.same_iff ?_) fun x hx => nomatch hx
    simp [Value.dataType]

theorem PartialState.same_iff_eq (s : PartialState) :
    (∀ t, s.same t = true ↔ s = t) ↔ s.Exact := by
  rcases s with m | m | (_ | x) | ⟨m, x⟩ | ⟨m, v⟩ | m
  -- the states of one kind that differ in one part say what the part is the same as
  case count | sumLong | sumDouble.none =>
    refine iff_of_true (fun t => ?_) fun x hx => nomatch hx
    rw [PartialState.same, decide_eq_true_eq] <;> simp
  case sumDouble.some =>
    refine Iff.trans ⟨fun h y => ?_, fun h t => ?_⟩ ((Double.numEq_iff_eq x).trans ?_)
    · simpa [PartialState.same] using h (.sumDouble (some y))
    · rcases t with n | n | (_ | y) | n | n | n <;> simp [PartialState.same, h]
    · simp [PartialState.Exact, PartialState.numbers]
  case average =>
    refine Iff.trans ⟨fun h y => ?_, fun h t => ?_⟩ ((Double.numEq_iff_eq x).trans ?_)
    · simpa [PartialState.same] using h (.average m y)
    · rcases t with n | n | (_ | y) | n | n | n <;> simp [PartialState.same, h]
    · simp [PartialState.Exact, PartialState.numbers]
  case extreme =>
    refine Iff.trans ⟨fun h w => ?_, fun h t => ?_⟩ (Value.same_iff_eq v)
    · simpa [PartialState.same] using h (.extreme m w)
    · rcases t with n | n | (_ | y) | n | n | n <;> simp [PartialState.same, h]
  case variance =>
    obtain ⟨count, mean, deviation⟩ := m
    constructor
    · intro h
      have hself : mean.numEq mean = true ∧ deviation.numEq deviation = true := by
        simpa [PartialState.same] using h (.variance ⟨count, mean, deviation⟩)
      have hmean : ∀ y, mean.numEq y = true ↔ mean = y := fun y => by
        simpa [PartialState.same, hself] using h (.variance ⟨count, y, deviation⟩)
      have hdeviation : ∀ y, deviation.numEq y = true ↔ deviation = y := fun y => by
        simpa [PartialState.same, hself] using h (.variance ⟨count, mean, y⟩)
      simpa [PartialState.Exact, PartialState.numbers] using
        ⟨(Double.numEq_iff_eq mean).mp hmean, (Double.numEq_iff_eq deviation).mp hdeviation⟩
    · intro h t
      have hmean := (Double.numEq_iff_eq mean).mpr (h mean (by simp [PartialState.numbers]))
      have hdeviation :=
        (Double.numEq_iff_eq deviation).mpr (h deviation (by simp [PartialState.numbers]))
      rcases t with n | n | (_ | y) | n | n | ⟨count', mean', deviation'⟩ <;>
        simp [PartialState.same, hmean, hdeviation, and_assoc]
end

-- ---------------------------------------------------------------------------
-- Hashing
-- ---------------------------------------------------------------------------

theorem DataType.write_injective {t u : DataType} (h : t.write = u.write) : t = u := by
  cases t <;> cases u <;> first | rfl | cases h

namespace Value

variable {a b : Value}

theorem hashed_settled (v : Value) : v.settled.hashed = v.hashed := by
  cases v <;> rfl

theorem hashed_eq_of_same (h : a.same b = true) : a.hashed = b.hashed := by
  obtain ⟨-, -, hsettled⟩ := (same_iff_settled a b).mp h
  rw [← hashed_settled a, hsettled, hashed_settled b]

/-- Values that are no states are told apart by what they feed. -/
theorem hashed_injective (ha : a.dataType ≠ .aggregationState) (h : a.hashed = b.hashed) :
    a = b := by
  obtain ⟨htype, hcontents⟩ := List.append_inj h rfl
  have ht := DataType.write_injective htype
  cases a <;> cases b <;> simp only [dataType, reduceCtorEq] at ht
  case null.null => rfl
  case state.state => exact absurd rfl ha
  case boolean.boolean x y => cases x <;> cases y <;> first | rfl | cases hcontents
  case byte.byte x y =>
    cases x
    cases y
    exact congrArg (byte ∘ Int8.ofUInt8) (List.cons.inj hcontents).1
  case short.short x y =>
    have hbits := Wire.littleEndian_injective x.toUInt16.toNat_lt y.toUInt16.toNat_lt hcontents
    cases x
    cases y
    exact congrArg (short ∘ Int16.ofUInt16) (UInt16.toNat_inj.mp hbits)
  case integer.integer x y =>
    have hbits := Wire.littleEndian_injective x.toUInt32.toNat_lt y.toUInt32.toNat_lt hcontents
    cases x
    cases y
    exact congrArg (integer ∘ Int32.ofUInt32) (UInt32.toNat_inj.mp hbits)
  case long.long x y =>
    have hbits := Wire.littleEndian_injective x.toUInt64.toNat_lt y.toUInt64.toNat_lt hcontents
    cases x
    cases y
    exact congrArg (long ∘ Int64.ofUInt64) (UInt64.toNat_inj.mp hbits)
  case timestamp.timestamp x y =>
    have hbits := Wire.littleEndian_injective x.toUInt64.toNat_lt y.toUInt64.toNat_lt hcontents
    cases x
    cases y
    exact congrArg (timestamp ∘ Int64.ofUInt64) (UInt64.toNat_inj.mp hbits)
  case float.float x y =>
    have hbits := Wire.littleEndian_injective x.bits.toNat_lt y.bits.toNat_lt hcontents
    exact congrArg float (Single.ext_bits hbits)
  case double.double x y =>
    have hbits := Wire.littleEndian_injective x.bits.toNat_lt y.bits.toNat_lt hcontents
    exact congrArg double (Double.ext_bits hbits)
  case string.string x y =>
    exact congrArg string (Utf8.encode_injective (List.append_cancel_right hcontents))

end Value

-- ---------------------------------------------------------------------------
-- Rows
-- ---------------------------------------------------------------------------

namespace Row

variable {a b : Row}

def Proper (row : Row) : Prop := ∀ v ∈ row, v.Proper

instance : DecidablePred Proper := fun row => inferInstanceAs (Decidable (∀ v ∈ row, v.Proper))

theorem same_iff_settled : Row.same a b = true ↔
    a.Proper ∧ b.Proper ∧ a.map Value.settled = b.map Value.settled := by
  induction a generalizing b with
  | nil => cases b <;> simp [Row.same, Proper]
  | cons v a ih =>
    cases b with
    | nil => simp [Row.same]
    | cons w b =>
      simp only [Row.same, Bool.and_eq_true, Value.same_iff_settled, ih, Proper,
        List.forall_mem_cons, List.map_cons, List.cons.injEq]
      tauto

theorem same_self : Row.same a a = true ↔ a.Proper :=
  same_iff_settled.trans ⟨And.left, fun h => ⟨h, h, rfl⟩⟩

theorem hashed_settled (row : Row) : Row.hashed (row.map Value.settled) = row.hashed := by
  simp [hashed, List.flatMap_map, Value.hashed_settled]

theorem hashed_eq_of_same (h : Row.same a b = true) : a.hashed = b.hashed := by
  obtain ⟨-, -, hsettled⟩ := same_iff_settled.mp h
  rw [← hashed_settled a, hsettled, hashed_settled b]

theorem find?_hashed (key : Row) (keys : List Row) :
    keys.find? (fun k => key.hashed == k.hashed && Row.same key k) = keys.find? (Row.same key) := by
  congr 1
  funext k
  cases h : Row.same key k with
  | false => rw [Bool.and_false]
  | true => rw [hashed_eq_of_same h, beq_self_eq_true, Bool.and_true]

end Row

end ShardQuery
