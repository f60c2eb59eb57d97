import Mathlib.Data.List.Nodup
/-!
# Entries by key

Values in a list, each under its key. What a lookup finds once entries were removed.
-/

namespace ShardQuery

variable {κ α : Type} [BEq κ] [LawfulBEq κ] {k l : κ} {x : α} {entries : List (κ × α)}

theorem lookup_cons_ne (h : l ≠ k) : ((k, x) :: entries).lookup l = entries.lookup l := by
  simp [List.lookup_cons, beq_eq_false_iff_ne.mpr h]

theorem lookup_filter_ne (entries : List (κ × α)) (h : l ≠ k) :
    (entries.filter (·.1 != k)).lookup l = entries.lookup l := by
  induction entries with
  | nil => rfl
  | cons entry rest ih =>
    obtain ⟨key, x⟩ := entry
    by_cases hk : key = k
    · subst hk
      simpa [lookup_cons_ne h] using ih
    · simp [hk, List.lookup_cons, ih]

theorem lookup_filter_self (entries : List (κ × α)) (k : κ) :
    (entries.filter (·.1 != k)).lookup k = none := by
  rw [List.lookup_eq_none_iff]
  intro entry hm
  simpa [bne_comm] using (List.mem_filter.mp hm).2

theorem lookup_eq_none_of_not_mem (h : k ∉ entries.map Prod.fst) : entries.lookup k = none := by
  rw [List.lookup_eq_none_iff]
  intro entry hm
  rw [bne_iff_ne]
  rintro rfl
  exact h (List.mem_map_of_mem hm)

theorem lookup_filter (p : κ × α → Bool) (h : (entries.map Prod.fst).Nodup) (k : κ) :
    (entries.filter p).lookup k = (entries.lookup k).filter fun x => p (k, x) := by
  induction entries with
  | nil => rfl
  | cons entry rest ih =>
    obtain ⟨key, x⟩ := entry
    obtain ⟨hkey, hrest⟩ := List.nodup_cons.mp h
    by_cases hk : k = key
    · subst hk
      cases hp : p (k, x) with
      | true => simp [hp, Option.filter]
      | false => simp [hp, Option.filter, ih hrest, lookup_eq_none_of_not_mem hkey]
    · cases hp : p (key, x) <;> simp [hp, lookup_cons_ne hk, ih hrest]

end ShardQuery
