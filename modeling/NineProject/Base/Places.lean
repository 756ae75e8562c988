import Mathlib

/-! # Things behind each other

Things that have sizes, put behind each other from a common beginning: each begins where
the one in front of it ends, so no two of them meet, and all end within the whole.
-/

namespace Places

variable {α : Type} {size : α → Nat} {xs ys : List α} {x y : α} {k l : Nat}

variable (size) in
/-- The size of all together. -/
def total (xs : List α) : Nat := (xs.map size).sum

variable (size) in
/-- Where the thing of this number begins. -/
def start (xs : List α) (k : Nat) : Nat := total size (xs.take k)

@[simp] theorem total_append : total size (xs ++ ys) = total size xs + total size ys := by
  simp [total]

theorem start_length : start size xs xs.length = total size xs := by rw [start, List.take_length]

/-- What comes behind moves nothing. -/
theorem start_append (h : k ≤ xs.length) : start size (xs ++ ys) k = start size xs k := by
  rw [start, List.take_append_of_le_length h, start]

theorem start_succ (h : xs[k]? = some x) : start size xs (k + 1) = start size xs k + size x := by
  simp [start, total, List.take_add_one, h]

theorem start_mono (h : k ≤ l) : start size xs k ≤ start size xs l := by
  have split := List.take_append_drop k (xs.take l)
  rw [List.take_take, min_eq_left h] at split
  unfold start
  rw [← split, total_append]
  exact Nat.le_add_right _ _

theorem start_inside (h : xs[k]? = some x) : start size xs k + size x ≤ total size xs := by
  rw [← start_succ h, ← start_length]
  have inside := (List.getElem?_eq_some_iff.mp h).1
  exact start_mono inside

theorem start_apart (one : xs[k]? = some x) (two : xs[l]? = some y) (other : k ≠ l) :
    start size xs k + size x ≤ start size xs l ∨ start size xs l + size y ≤ start size xs k := by
  rcases Nat.lt_or_gt_of_ne other with before | behind
  · exact .inl (start_succ one ▸ start_mono before)
  · exact .inr (start_succ two ▸ start_mono behind)

/-- Of things with sizes of their own only none at all take no room. -/
theorem total_eq_zero (positive : ∀ x ∈ xs, 0 < size x) : total size xs = 0 ↔ xs = [] := by
  cases xs with
  | nil => simp [total]
  | cons x rest =>
      have first := positive x (List.mem_cons_self ..)
      simp [total]
      omega

end Places
