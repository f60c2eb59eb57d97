import ShardQuery.Text.Utf8
/-!
# Text and its bytes

The bytes that are decoded to a text are the ones that it is encoded as.
-/

namespace ShardQuery.Utf8

theorem toList_loop (bytes : ByteArray) (i : Nat) (taken : List UInt8) :
    ByteArray.toList.loop bytes i taken = taken.reverse ++ bytes.data.toList.drop i := by
  fun_induction ByteArray.toList.loop with
  | case1 i taken hi ih =>
    have hi' : i < bytes.data.toList.length := hi
    have hget : bytes.get! i = bytes.data.toList[i] := by
      change bytes.data[i]! = _
      rw [getElem!_pos bytes.data i hi, Array.getElem_toList]
    rw [ih, List.drop_eq_getElem_cons hi', hget]
    simp
  | case2 i taken hi =>
    have hle : bytes.data.toList.length ≤ i := Nat.le_of_not_lt hi
    rw [List.drop_eq_nil_of_le hle, List.append_nil]

theorem toList_eq (bytes : ByteArray) : bytes.toList = bytes.data.toList := by
  rw [ByteArray.toList, toList_loop]
  rfl

theorem decode_eq_ok {bytes : List UInt8} {s : String} :
    decode bytes = .ok s ↔ bytes = encode s := by
  rw [encode, toList_eq, decode]
  constructor
  · intro h
    split at h
    · rename_i text htext
      cases h
      rw [String.fromUTF8?] at htext
      split at htext
      · cases htext
        rfl
      · cases htext
    · cases h
  · rintro rfl
    have hvalid : (⟨s.toUTF8.data.toList.toArray⟩ : ByteArray).IsValidUTF8 := s.isValidUTF8
    simp only [String.fromUTF8?, hvalid, ↓reduceDIte]
    rfl

theorem encode_injective {s t : String} (h : encode s = encode t) : s = t :=
  Except.ok.inj ((decode_eq_ok.mpr rfl).symm.trans (decode_eq_ok.mpr h))

end ShardQuery.Utf8
