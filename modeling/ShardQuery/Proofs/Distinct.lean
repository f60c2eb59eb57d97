import Mathlib.Data.List.Induction
import Mathlib.Data.List.Perm.Basic
import Mathlib.Data.List.Nodup
/-!
# First occurrences

A list without its repetitions, every item at the place where it is first seen.
-/

namespace ShardQuery

variable {α : Type} [BEq α] [LawfulBEq α]

theorem eraseDups_snoc (xs : List α) (x : α) :
    (xs ++ [x]).eraseDups = if x ∈ xs then xs.eraseDups else xs.eraseDups ++ [x] := by
  rw [List.eraseDups_append]
  by_cases h : x ∈ xs
  · simp [h, List.removeAll]
  · simp [h, List.removeAll, List.eraseDups_cons]

theorem filter_eraseDups (p : α → Bool) (xs : List α) :
    (xs.filter p).eraseDups = xs.eraseDups.filter p := by
  induction xs using List.reverseRecOn with
  | nil => rfl
  | append_singleton xs x ih =>
    rw [List.filter_append, eraseDups_snoc, List.filter_singleton]
    cases hp : p x with
    | true =>
      rw [cond_true, eraseDups_snoc, ih]
      by_cases hx : x ∈ xs <;> simp [hx, hp]
    | false =>
      rw [cond_false, List.append_nil, ih]
      by_cases hx : x ∈ xs <;> simp [hx, hp]

theorem nodup_eraseDups (xs : List α) : xs.eraseDups.Nodup := by
  induction xs using List.reverseRecOn with
  | nil => exact .nil
  | append_singleton xs x ih =>
    rw [eraseDups_snoc]
    split
    · exact ih
    · rename_i hx
      refine List.nodup_append.mpr ⟨ih, List.nodup_singleton x, ?_⟩
      intro y hy z hz
      rw [List.mem_singleton.mp hz]
      rintro rfl
      exact hx (List.mem_eraseDups.mp hy)

theorem eraseDups_of_nodup {xs : List α} (h : xs.Nodup) : xs.eraseDups = xs := by
  induction xs using List.reverseRecOn with
  | nil => rfl
  | append_singleton xs x ih =>
    have hx : x ∉ xs := fun hx => (List.nodup_append.mp h).2.2 x hx x (by simp) rfl
    rw [eraseDups_snoc, if_neg hx, ih h.of_append_left]

theorem eraseDups_perm {xs ys : List α} (h : xs.Perm ys) : xs.eraseDups.Perm ys.eraseDups := by
  rw [List.perm_ext_iff_of_nodup (nodup_eraseDups xs) (nodup_eraseDups ys)]
  intro x
  rw [List.mem_eraseDups, List.mem_eraseDups, h.mem_iff]

theorem eraseDups_filter_beq (xs : List α) (x : α) :
    xs.eraseDups.filter (· == x) = if x ∈ xs then [x] else [] := by
  rw [List.filter_beq]
  split
  · rename_i hx
    rw [List.count_eq_one_of_mem (nodup_eraseDups xs) (List.mem_eraseDups.mpr hx)]
    rfl
  · rename_i hx
    rw [List.count_eq_zero_of_not_mem (mt List.mem_eraseDups.mp hx)]
    rfl

omit [LawfulBEq α] in
theorem eraseDupsBy_eq {r : α → α → Bool} (xs : List α)
    (h : ∀ x ∈ xs, ∀ y ∈ xs, r x y = (x == y)) : xs.eraseDupsBy r = xs.eraseDups := by
  match xs with
  | [] => rfl
  | x :: rest =>
    have hfilter :
        rest.filter (fun y => decide (r y x = false)) = rest.filter fun y => !y == x := by
      refine List.filter_congr fun y hy => ?_
      rw [h y (List.mem_cons_of_mem x hy) x List.mem_cons_self]
      cases y == x <;> rfl
    have hrest : ∀ y ∈ rest.filter (fun y => !y == x), y ∈ x :: rest := fun y hy =>
      List.mem_cons_of_mem x (List.mem_of_mem_filter hy)
    rw [List.eraseDupsBy_cons, List.eraseDups_cons, hfilter,
      eraseDupsBy_eq (rest.filter _) fun y hy z hz => h y (hrest y hy) z (hrest z hz)]
termination_by xs.length
decreasing_by exact Nat.lt_succ_of_le (List.length_filter_le _ rest)

/-- What repeats within one of several lists repeats in all of them together. -/
theorem eraseDups_flatten (xss : List (List α)) :
    (xss.map List.eraseDups).flatten.eraseDups = xss.flatten.eraseDups := by
  induction xss with
  | nil => rfl
  | cons xs xss ih =>
    have hseen (ys : List α) : ys.removeAll xs.eraseDups = ys.removeAll xs := by
      simp [List.removeAll]
    rw [List.map_cons, List.flatten_cons, List.flatten_cons, List.eraseDups_append,
      List.eraseDups_append, eraseDups_of_nodup (nodup_eraseDups xs), hseen]
    simp only [List.removeAll, filter_eraseDups, ih]

end ShardQuery
