import ShardQuery.Cell
import ShardQuery.Proofs.Except
import ShardQuery.Proofs.Number.Narrowing
import ShardQuery.Proofs.Timestamp.Text
/-!
# Cells read back

What was read from a cell is printed into a cell again. `read_ofValue_iff`: reading that
cell gives the same value, bit for bit, unless it is a single out of range or a time in a
year that its text has to give a sign. Of the format for times no more is used than that it
conforms to RFC 3339.
-/

namespace ShardQuery

/-- No document has other numbers. -/
def Json.IsFinite : Json → Prop
  | .real x => x.isFinite = true
  | _ => True

namespace Cell

open Timestamp

variable {format : Timestamp.Format} {type : DataType} {cell : Json} {v : Value}

-- ---------------------------------------------------------------------------
-- What is read
-- ---------------------------------------------------------------------------

def IsRead : Value → Prop
  | .null => False
  | .float x => x.isNaN = false
  | .double x => x.isFinite = true
  | .state _ => False
  | _ => True

theorem isFinite_double? {x : Double} (hcell : cell.IsFinite) (hx : cell.double? = some x) :
    x.isFinite = true := by
  cases cell with
  | real y => exact Option.some.inj hx ▸ hcell
  | integer n => exact Option.some.inj hx ▸ Json.isFinite_doubleOfInt n
  | _ => cases hx

theorem valueOf?_spec (hcell : cell.IsFinite) (h : valueOf? format type cell = some v) :
    v.dataType = type ∧ IsRead v := by
  cases type with
  | float =>
    obtain ⟨x, hx, rfl⟩ := Option.map_eq_some_iff.mp h
    exact ⟨rfl, Single.ofDouble_isNaN (Double.isNaN_of_isFinite (isFinite_double? hcell hx))⟩
  | double =>
    obtain ⟨x, hx, rfl⟩ := Option.map_eq_some_iff.mp h
    exact ⟨rfl, isFinite_double? hcell hx⟩
  | timestamp =>
    simp only [valueOf?] at h
    split at h <;> obtain ⟨_, -, rfl⟩ := Option.map_eq_some_iff.mp h <;> exact ⟨rfl, trivial⟩
  | undefined => cases h
  | aggregationState => cases h
  | _ =>
    obtain ⟨_, -, rfl⟩ := Option.map_eq_some_iff.mp h
    exact ⟨rfl, trivial⟩

theorem read_spec (hcell : cell.IsFinite) (h : read format type cell = .ok v) :
    v = .null ∨ v.dataType = type ∧ IsRead v := by
  unfold read at h
  split at h
  · exact .inl (Except.ok.inj h).symm
  · split at h
    · rename_i hvalue
      exact .inr (Except.ok.inj h ▸ valueOf?_spec hcell hvalue)
    · cases h

-- ---------------------------------------------------------------------------
-- What is read back
-- ---------------------------------------------------------------------------

theorem integer?_map {α : Type} {low high n : Int} {ofInt : Int → α} {a : α} (hlow : low ≤ n)
    (hhigh : n < high + 1) (ha : ofInt n = a) :
    ((Json.integer n).integer? low high).map ofInt = some a := by
  rw [Json.integer?, if_pos ⟨hlow, Int.le_of_lt_add_one hhigh⟩, Option.map_some, ha]

theorem int8?_toInt (n : Int8) : (Json.integer n.toInt).int8? = some n :=
  integer?_map n.le_toInt n.toInt_lt n.ofInt_toInt

theorem int16?_toInt (n : Int16) : (Json.integer n.toInt).int16? = some n :=
  integer?_map n.le_toInt n.toInt_lt n.ofInt_toInt

theorem int32?_toInt (n : Int32) : (Json.integer n.toInt).int32? = some n :=
  integer?_map n.le_toInt n.toInt_lt n.ofInt_toInt

theorem int64?_toInt (n : Int64) : (Json.integer n.toInt).int64? = some n :=
  integer?_map n.le_toInt n.toInt_lt n.ofInt_toInt

/-- The values that their cells stand for. -/
def IsKept (format : Timestamp.Format) : Value → Prop
  | .float x => x.isInfinite = false
  | .timestamp millis => ¬format.IsSigned millis
  | _ => True

theorem read_eq_ok (hcell : cell ≠ .null) (h : valueOf? format type cell = some v) :
    read format type cell = .ok v := by
  unfold read
  split
  · exact absurd rfl hcell
  · rw [h]

theorem read_eq_error (hcell : cell ≠ .null) (h : valueOf? format type cell = none) :
    read format type cell = .error s!"cannot read {cell.canonical.render} as {type}" := by
  unfold read
  split
  · exact absurd rfl hcell
  · rw [h]

theorem ofDouble_toDouble {x : Single} (hx : x.isNaN = false) :
    ofDouble x.toDouble = if x.isInfinite = true then .null else .real x.toDouble := by
  rw [ofDouble, Single.isFinite_toDouble hx]
  cases x.isInfinite <;> rfl

theorem read_ofValue_float {x : Single} (hx : x.isNaN = false) :
    read format .float (ofValue format (.float x)) =
      .ok (if x.isInfinite = true then .null else .float x) := by
  have hcell : ofValue format (.float x) = ofDouble x.toDouble := rfl
  rw [hcell, ofDouble_toDouble hx]
  split
  · rfl
  · refine read_eq_ok nofun ?_
    exact congrArg (fun y => some (Value.float y)) (Single.ofDouble_toDouble hx)

theorem ofValue_timestamp (format : Timestamp.Format) (millis : Int64) :
    ofValue format (.timestamp millis) =
      (format.render? millis).elim (.integer millis.toInt) .text := by
  unfold ofValue
  dsimp only
  cases format.render? millis <;> rfl

theorem read_ofValue_signed (hformat : format.Conforms) {millis : Int64}
    (hsigned : format.IsSigned millis) :
    read format .timestamp (ofValue format (.timestamp millis)) =
      .error s!"cannot read {(ofValue format (.timestamp millis)).canonical.render} as {
        DataType.timestamp}" := by
  obtain ⟨hsome, hyear⟩ := hsigned
  obtain ⟨text, htext⟩ := Option.ne_none_iff_exists'.mp hsome
  have hunread : valueOf? format .timestamp (.text text) = none :=
    congrArg (Option.map Value.timestamp) (hformat.parse_signed htext hyear)
  rw [ofValue_timestamp, htext]
  exact read_eq_error nofun hunread

theorem read_ofValue_unsigned (hformat : format.Conforms) {millis : Int64}
    (hunsigned : ¬format.IsSigned millis) :
    read format .timestamp (ofValue format (.timestamp millis)) = .ok (.timestamp millis) := by
  rw [ofValue_timestamp]
  cases htext : format.render? millis with
  | none => exact read_eq_ok nofun (congrArg (Option.map Value.timestamp) (int64?_toInt millis))
  | some text =>
    have hyear : IsPlainYear (yearAt millis) := by
      by_contra hyear
      exact hunsigned ⟨htext ▸ Option.some_ne_none text, hyear⟩
    rw [hformat.writes_plain htext hyear]
    exact read_eq_ok nofun (congrArg (Option.map Value.timestamp) (hformat.parse_textAt hyear))

theorem read_ofValue_kept (hformat : format.Conforms) (hv : IsRead v) (hkept : IsKept format v) :
    read format v.dataType (ofValue format v) = .ok v := by
  cases v with
  | null => exact hv.elim
  | boolean value => rfl
  | byte n => exact read_eq_ok nofun (congrArg (Option.map Value.byte) (int8?_toInt n))
  | short n => exact read_eq_ok nofun (congrArg (Option.map Value.short) (int16?_toInt n))
  | integer n => exact read_eq_ok nofun (congrArg (Option.map Value.integer) (int32?_toInt n))
  | long n => exact read_eq_ok nofun (congrArg (Option.map Value.long) (int64?_toInt n))
  | float x =>
    have hfinite : ¬x.isInfinite = true := Bool.eq_false_iff.mp hkept
    rw [Value.dataType, read_ofValue_float hv, if_neg hfinite]
  | double x =>
    have hx : x.isFinite = true := hv
    have hcell : ofValue format (.double x) = .real x := if_pos hx
    rw [hcell]
    exact read_eq_ok nofun rfl
  | string text => rfl
  | timestamp millis => exact read_ofValue_unsigned hformat hkept
  | state held => exact hv.elim

theorem read_ofValue_iff_kept (hformat : format.Conforms)
    (hv : v = .null ∨ v.dataType = type ∧ IsRead v) :
    read format type (ofValue format v) = .ok v ↔ IsKept format v := by
  obtain rfl | ⟨rfl, hv⟩ := hv
  · exact iff_of_true rfl trivial
  refine ⟨fun hread => ?_, read_ofValue_kept hformat hv⟩
  cases v with
  | float x =>
    rw [Value.dataType, read_ofValue_float hv] at hread
    refine Bool.eq_false_iff.mpr fun hi => ?_
    rw [if_pos hi] at hread
    cases hread
  | timestamp millis =>
    intro hsigned
    rw [Value.dataType, read_ofValue_signed hformat hsigned] at hread
    cases hread
  | _ => trivial

-- ---------------------------------------------------------------------------
-- Rows
-- ---------------------------------------------------------------------------

theorem readRow_eq_ok {types : List DataType} {cells : List Json} {row : Row} :
    readRow format types cells = .ok row ↔ cells.length = types.length ∧
      List.Forall₂ (fun cell v => read format cell.2 cell.1 = .ok v) (cells.zip types) row := by
  unfold readRow
  split
  · rename_i hlength
    exact iff_of_false nofun fun h => hlength h.1
  · rename_i hlength
    exact mapM_eq_ok.trans (iff_and_self.mpr fun _ => not_not.mp hlength)

theorem readCells_iff_kept (hformat : format.Conforms) {types : List DataType} {cells : List Json}
    {row : Row} (hcells : ∀ cell ∈ cells, cell.IsFinite)
    (h : List.Forall₂ (fun cell v => read format cell.2 cell.1 = .ok v) (cells.zip types) row) :
    List.Forall₂ (fun cell v => read format cell.2 cell.1 = .ok v)
        ((row.map (ofValue format)).zip types) row ↔
      ∀ v ∈ row, IsKept format v := by
  induction types generalizing cells row with
  | nil =>
    rw [List.zip_nil_right] at h
    cases h
    simp
  | cons type types ih =>
    cases cells with
    | nil =>
      cases h
      simp
    | cons cell cells =>
      obtain ⟨hcell, hcells⟩ := List.forall_mem_cons.mp hcells
      cases h with
      | cons hread hrest =>
        have hkept := read_ofValue_iff_kept hformat (read_spec hcell hread)
        simp [hkept, ih hcells hrest]

/-- A value that is read from a cell is null or of the type of its column. Its own cell is read as
the same value unless that is a single out of range, which is read as null, or a time that is
written in a signed year, which is not read at all. A row is read back if all its cells are. -/
theorem read_ofValue_iff (hformat : format.Conforms) (hcell : cell.IsFinite)
    (hread : read format type cell = .ok v) :
    (v = .null ∨ v.dataType = type) ∧
    (read format type (ofValue format v) = .ok v ↔ IsKept format v) ∧
    (∀ x, v = .float x → x.isInfinite = true → read format type (ofValue format v) = .ok .null) ∧
    (∀ millis, v = .timestamp millis → format.IsSigned millis →
      read format type (ofValue format v) =
        .error s!"cannot read {(ofValue format v).canonical.render} as {type}") ∧
    ∀ (types : List DataType) (cells : List Json) (row : Row), (∀ cell ∈ cells, cell.IsFinite) →
      readRow format types cells = .ok row →
      (readRow format types (row.map (ofValue format)) = .ok row ↔ ∀ v ∈ row, IsKept format v) := by
  have hv := read_spec hcell hread
  refine ⟨hv.imp_right And.left, read_ofValue_iff_kept hformat hv, ?_, ?_, ?_⟩
  · rintro x rfl hi
    obtain ⟨rfl, hx⟩ := hv.resolve_left nofun
    exact (read_ofValue_float hx).trans (by rw [if_pos hi])
  · rintro millis rfl hsigned
    obtain ⟨rfl, -⟩ := hv.resolve_left nofun
    exact read_ofValue_signed hformat hsigned
  · intro types cells row hcells hread
    obtain ⟨hlength, hread⟩ := readRow_eq_ok.mp hread
    have hwidth : (row.map (ofValue format)).length = types.length := by
      simpa [hlength] using hread.length_eq.symm
    rw [readRow_eq_ok, readCells_iff_kept hformat hcells hread]
    exact and_iff_right hwidth

theorem read_ofValue_iff_mixed :
    let types : List DataType := [.float, .timestamp]
    let row : Row := [.float ⟨0x40e00000⟩, .timestamp 1704164645000]
    (read rfc3339 .float (.real ⟨0x7e37e43c8800759c⟩) = .ok (.float ⟨0x7f800000⟩) ∧
      read rfc3339 .float (ofValue rfc3339 (.float ⟨0x7f800000⟩)) = .ok .null) ∧
    (read rfc3339 .timestamp (.integer 253402300800000) = .ok (.timestamp 253402300800000) ∧
      read rfc3339 .timestamp (ofValue rfc3339 (.timestamp 253402300800000)) =
        .error "cannot read \"+10000-01-01T00:00:00.000Z\" as timestamp") ∧
    readRow rfc3339 types [.integer 7, .text "2024-01-02T03:04:05Z"] = .ok row ∧
      readRow rfc3339 types (row.map (ofValue rfc3339)) = .ok row := by
  have hsingle : read rfc3339 .float (.real ⟨0x7e37e43c8800759c⟩) = .ok (.float ⟨0x7f800000⟩) := rfl
  have htime :
      read rfc3339 .timestamp (.integer 253402300800000) = .ok (.timestamp 253402300800000) := rfl
  obtain ⟨-, -, hnull, -, hrows⟩ := read_ofValue_iff rfc3339_conforms (by exact rfl) hsingle
  obtain ⟨-, -, -, hrefused, -⟩ := read_ofValue_iff rfc3339_conforms (by exact trivial) htime
  have hsigned : rfc3339.IsSigned 253402300800000 := ⟨Option.some_ne_none _, by decide⟩
  refine ⟨⟨hsingle, hnull _ rfl rfl⟩, ⟨htime, hrefused _ rfl hsigned⟩, rfl, ?_⟩
  refine (hrows _ [.integer 7, .text "2024-01-02T03:04:05Z"] _ ?_ rfl).mpr ?_
  · simp [Json.IsFinite]
  · simp only [List.mem_cons, List.not_mem_nil, or_false, forall_eq_or_imp, forall_eq]
    exact ⟨rfl, fun hsigned => hsigned.2 (by decide)⟩

/-- A time of the year 10000 is accepted as a number, but its text is not, and the nearest single
of a great double is printed as null. -/
theorem unread_cells :
    (read rfc3339 .timestamp (.integer 253402300800000) = .ok (.timestamp 253402300800000) ∧
      ofValue rfc3339 (.timestamp 253402300800000) = .text "+10000-01-01T00:00:00.000Z" ∧
      read rfc3339 .timestamp (.text "+10000-01-01T00:00:00.000Z") =
        .error "cannot read \"+10000-01-01T00:00:00.000Z\" as timestamp") ∧
    read rfc3339 .float (.real ⟨0x7e37e43c8800759c⟩) = .ok (.float ⟨0x7f800000⟩) ∧
      ofValue rfc3339 (.float ⟨0x7f800000⟩) = .null ∧ read rfc3339 .float .null = .ok .null :=
  ⟨⟨rfl, rfl, rfl⟩, rfl, rfl, rfl⟩

end Cell

end ShardQuery
