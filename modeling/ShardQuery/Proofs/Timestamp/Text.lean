import Mathlib.Algebra.Group.Nat.Defs
import ShardQuery.Proofs.Timestamp.Calendar
/-!
# Timestamps read back

A time of a year with four digits is found again in its text. The texts of all other
years start with a sign, and nothing is read from them. This holds of every format that
conforms to RFC 3339, as the one of the program does.
-/

namespace ShardQuery.Timestamp

-- ---------------------------------------------------------------------------
-- Digits
-- ---------------------------------------------------------------------------

variable {width n : Nat}

theorem toList_padded (width n : Nat) :
    (padded width n).toList =
      List.replicate (width - (Nat.toDigits 10 n).length) '0' ++ Nat.toDigits 10 n := by
  simp only [padded, Nat.toString_eq_ofList_toDigits, String.toList_append, String.toList_ofList,
    String.length_ofList]

theorem length_padded (hn : n < 10 ^ width) (hwidth : 0 < width) :
    (padded width n).toList.length = width := by
  have hle : (Nat.toDigits 10 n).length ≤ width :=
    (Nat.length_toDigits_le_iff (by decide) hwidth).mpr hn
  simp [toList_padded]
  omega

theorem isDigit_padded {c : Char} (hc : c ∈ (padded width n).toList) : c.isDigit = true := by
  rw [toList_padded, List.mem_append, List.mem_replicate] at hc
  obtain ⟨-, rfl⟩ | hc := hc
  · decide
  · exact Nat.isDigit_of_mem_toDigits (by decide) (by decide) hc

theorem value_padded (width n : Nat) :
    (padded width n).toList.foldl (fun n c => 10 * n + (c.toNat - 48)) 0 = n := by
  change Nat.ofDigitChars 10 (padded width n).toList 0 = n
  rw [toList_padded, Nat.ofDigitChars_append, Nat.ofDigitChars_replicate_zero, Nat.mul_zero,
    Nat.ofDigitChars_ten_toDigits]

theorem number?_padded (hn : n < 10 ^ width) (hwidth : 0 < width) (rest : List Char) :
    number? width ((padded width n).toList ++ rest) = some (n, rest) := by
  have hlength := length_padded hn hwidth
  have hdigits : (padded width n).toList.all Char.isDigit = true :=
    List.all_eq_true.mpr fun c hc => isDigit_padded hc
  simp [number?, List.take_left' hlength, List.drop_left' hlength, hlength, hdigits, value_padded]

theorem fraction?_padded (hn : n < 10 ^ width) (hwidth : 0 < width) (hnine : width ≤ 9)
    {c : Char} (hc : c.isDigit = false) (rest : List Char) :
    fraction? ((padded width n).toList ++ c :: rest) = some (n * 10 ^ (9 - width), c :: rest) := by
  have hlength := length_padded hn hwidth
  have hdigits (c) (hc : c ∈ (padded width n).toList) : c.isDigit = true := isDigit_padded hc
  have htake : ((padded width n).toList ++ c :: rest).takeWhile Char.isDigit =
      (padded width n).toList := by
    simp [List.takeWhile_append_of_pos hdigits, hc]
  have hdrop : ((padded width n).toList ++ c :: rest).dropWhile Char.isDigit = c :: rest := by
    simp [List.dropWhile_append_of_pos hdigits, hc]
  have hall : (padded width n).toList.take 9 = (padded width n).toList :=
    List.take_of_length_le (by rwa [hlength])
  have hsome : (padded width n).toList ≠ [] := List.ne_nil_of_length_pos (by rwa [hlength])
  simp only [fraction?, htake, hdrop, hall, List.isEmpty_iff, hsome, ↓reduceIte, hlength,
    value_padded, Nat.pow_eq]

theorem parse?_eq_none {text : String} {c : Char} (hc : c ∈ text.toList.take 4)
    (hdigit : c.isDigit = false) : parse? text = none := by
  have hnumber : number? 4 text.toList = none := by
    have hall : (text.toList.take 4).all Char.isDigit = false :=
      List.all_eq_false.mpr ⟨c, hc, by simp [hdigit]⟩
    simp [number?, hall]
  rw [parse?, hnumber]
  rfl

-- ---------------------------------------------------------------------------
-- Whole timestamps
-- ---------------------------------------------------------------------------

section

variable {year month day hour minute second milli : Nat}

theorem symbol?_cons (c : Char) (rest : List Char) : symbol? c (c :: rest) = some rest := if_pos rfl

theorem bind_of_eq_some {α β : Type} {x : Option α} {f : α → Option β} {a : α} {b : Option β}
    (hx : x = some a) (h : f a = b) : x >>= f = b := by
  rw [hx]
  exact h

def plainText (year month day hour minute second milli : Nat) : String :=
  padded 4 year ++ "-" ++ padded 2 month ++ "-" ++ padded 2 day ++ "T" ++ padded 2 hour ++ ":" ++
    padded 2 minute ++ ":" ++ padded 2 second ++ "." ++ padded 3 milli ++ "Z"

theorem toList_plainText (year month day hour minute second milli : Nat) :
    (plainText year month day hour minute second milli).toList =
      (padded 4 year).toList ++ '-' :: ((padded 2 month).toList ++ '-' :: ((padded 2 day).toList ++
        'T' :: ((padded 2 hour).toList ++ ':' :: ((padded 2 minute).toList ++
          ':' :: ((padded 2 second).toList ++ '.' :: ((padded 3 milli).toList ++ ['Z'])))))) := by
  simp [plainText]

/-- Whatever the fields are, they are found in their places. -/
theorem parse?_plainText (hyear : year < 10000) (hmonth : month < 100) (hday : day < 100)
    (hhour : hour < 100) (hminute : minute < 100) (hsecond : second < 100) (hmilli : milli < 1000) :
    parse? (plainText year month day hour minute second milli) =
      if 1 ≤ month ∧ month ≤ 12 ∧ 1 ≤ day ∧ day ≤ monthLength year month ∧ hour ≤ 23 ∧
          minute ≤ 59 ∧ second ≤ 60 then
        some (Int64.ofInt (((((Date.mk year month day).toDays * 24 + hour) * 60 + minute) * 60 +
          second) * 1000 + milli))
      else none := by
  rw [parse?, toList_plainText]
  refine bind_of_eq_some (number?_padded hyear (by decide) _) ?_
  refine bind_of_eq_some (symbol?_cons '-' _) ?_
  refine bind_of_eq_some (number?_padded hmonth (by decide) _) ?_
  refine bind_of_eq_some (symbol?_cons '-' _) ?_
  refine bind_of_eq_some (number?_padded hday (by decide) _) ?_
  refine bind_of_eq_some rfl ?_
  refine bind_of_eq_some (number?_padded hhour (by decide) _) ?_
  refine bind_of_eq_some (symbol?_cons ':' _) ?_
  refine bind_of_eq_some (number?_padded hminute (by decide) _) ?_
  refine bind_of_eq_some (symbol?_cons ':' _) ?_
  refine bind_of_eq_some (number?_padded hsecond (by decide) _) ?_
  refine bind_of_eq_some (fraction?_padded hmilli (by decide) (by decide) (by decide) []) ?_
  refine bind_of_eq_some (show offset? ['Z'] = some (0, []) from rfl) ?_
  have hnanos : ((milli * 10 ^ (9 - 3) : Nat) : Int) / 1000000 = milli := by omega
  simp only [hnanos, List.isEmpty_nil, true_and, Int.sub_zero]

end

-- ---------------------------------------------------------------------------
-- Formats
-- ---------------------------------------------------------------------------

def yearAt (millis : Int64) : Int := (Date.ofDays (millis.toInt / 86400000)).year

/-- The years that have four digits and no sign. -/
def IsPlainYear (year : Int) : Prop := 0 ≤ year ∧ year ≤ 9999

instance (year : Int) : Decidable (IsPlainYear year) := inferInstanceAs (Decidable (_ ∧ _))

/-- The text of a time in such a year, with its milliseconds and in universal time. -/
def textAt (millis : Int64) : String :=
  let date := Date.ofDays (millis.toInt / 86400000)
  let rest := (millis.toInt % 86400000).toNat
  plainText date.year.toNat date.month date.day (rest / 3600000) (rest / 60000 % 60)
    (rest / 1000 % 60) (rest % 1000)

/-- RFC 3339, with the signs that ISO 8601 has for the years that it does without. Where the
calendar of the format ends is left open. -/
structure Format.Conforms (format : Format) : Prop where
  writes_plain {millis text} : format.render? millis = some text → IsPlainYear (yearAt millis) →
    text = textAt millis
  writes_sign {millis text} : format.render? millis = some text → ¬IsPlainYear (yearAt millis) →
    text.toList.head? = some '+' ∨ text.toList.head? = some '-'
  /-- A date and time in universal time is read as the milliseconds up to it. -/
  reads_plain {year month day hour minute second milli : Nat} : year ≤ 9999 →
    (Date.mk year month day).IsValid → hour ≤ 23 → minute ≤ 59 → second ≤ 59 → milli ≤ 999 →
    format.parse? (plainText year month day hour minute second milli) =
      some (Int64.ofInt (((((Date.mk year month day).toDays * 24 + hour) * 60 + minute) * 60 +
        second) * 1000 + milli))
  /-- Every text that is read starts with the four digits of its year. -/
  reads_digits {text millis} : format.parse? text = some millis →
    ∀ c ∈ text.toList.take 4, c.isDigit = true

def Format.IsSigned (format : Format) (millis : Int64) : Prop :=
  format.render? millis ≠ none ∧ ¬IsPlainYear (yearAt millis)

theorem monthLength_le (year : Int) (month : Nat) : monthLength year month ≤ 31 := by
  unfold monthLength
  split <;> (try split) <;> decide

namespace Format.Conforms

variable {format : Format} {millis : Int64} {text : String}

/-- The date of a day tells which day it is, so a time is found again in its text. -/
theorem parse_textAt (h : format.Conforms) (hyear : IsPlainYear (yearAt millis)) :
    format.parse? (textAt millis) = some millis := by
  obtain ⟨hlow, hhigh⟩ := hyear
  unfold yearAt at hlow hhigh
  have hdate := toDays_ofDays (millis.toInt / 86400000)
  have hvalid := ofDays_isValid (millis.toInt / 86400000)
  rw [textAt]
  generalize Date.ofDays (millis.toInt / 86400000) = date at *
  obtain ⟨year, month, day⟩ := date
  obtain ⟨year, rfl⟩ := Int.eq_ofNat_of_zero_le hlow
  dsimp only at *
  generalize hmillis : (millis.toInt % 86400000).toNat = rest
  rw [Int.toNat_natCast, h.reads_plain (by omega) hvalid (by omega) (by omega) (by omega)
    (by omega), hdate]
  have hsum : (((millis.toInt / 86400000 * 24 + (rest / 3600000 : Nat)) * 60 +
      (rest / 60000 % 60 : Nat)) * 60 + (rest / 1000 % 60 : Nat)) * 1000 + (rest % 1000 : Nat) =
        millis.toInt := by omega
  rw [hsum, Int64.ofInt_toInt]

theorem parse_signed (h : format.Conforms) (htext : format.render? millis = some text)
    (hyear : ¬IsPlainYear (yearAt millis)) : format.parse? text = none := by
  cases hread : format.parse? text with
  | none => rfl
  | some other =>
    have hdigits := h.reads_digits hread
    have hsign := h.writes_sign htext hyear
    cases hchars : text.toList with
    | nil => simp [hchars] at hsign
    | cons c rest =>
      rw [hchars] at hsign hdigits
      have hdigit := hdigits c List.mem_cons_self
      rcases hsign with hsign | hsign <;> cases hsign <;> cases hdigit

end Format.Conforms

theorem rfc3339_conforms : rfc3339.Conforms where
  writes_plain {millis text} htext hyear := by
    change render? millis = some text at htext
    unfold IsPlainYear yearAt at hyear
    rw [render?] at htext
    dsimp only at htext
    rw [if_neg (by omega), renderYear, if_pos hyear] at htext
    exact (Option.some.inj htext).symm
  writes_sign {millis text} htext hyear := by
    change render? millis = some text at htext
    unfold IsPlainYear yearAt at hyear
    rw [render?] at htext
    dsimp only at htext
    split at htext
    · cases htext
    · rw [renderYear, if_neg hyear] at htext
      rw [← Option.some.inj htext]
      split
      · exact .inr (by simp)
      · exact .inl (by simp)
  reads_plain {year month day hour minute second milli} hyear hvalid hhour hminute hsecond
      hmilli := by
    obtain ⟨hmonth, hmonths, hday, hdays⟩ := hvalid
    have hlength := monthLength_le year month
    dsimp only at *
    exact (parse?_plainText (by omega) (by omega) (by omega) (by omega) (by omega) (by omega)
      (by omega)).trans (if_pos ⟨hmonth, hmonths, hday, hdays, by omega, by omega, by omega⟩)
  reads_digits {text millis} hread c hc := by
    cases hdigit : c.isDigit with
    | true => rfl
    | false => cases (parse?_eq_none hc hdigit).symm.trans hread

end ShardQuery.Timestamp
