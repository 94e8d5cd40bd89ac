import Mathlib.Order.Lattice
import Mathlib.Data.List.Basic
import Mathlib.Data.List.Dedup

/-!
# TurbopackWasi.Lib.Comm

**The difference of two sorted lists, by one walk over both**, as `comm -23` computes it: of
the heads the smaller is done with, and a head of the first list that also heads the second
is left out. It is the difference of multisets (`count_comm`).
-/

namespace TurbopackWasi.Lib

universe u

variable {α : Type u} [LinearOrder α]

/-- What is in the first list only. -/
def comm : List α → List α → List α
  | [], _ => []
  | x :: xs, [] => x :: xs
  | x :: xs, y :: ys =>
      if x < y then x :: comm xs (y :: ys)
      else if y < x then comm (x :: xs) ys
      else comm xs ys
  termination_by xs ys => xs.length + ys.length

/-- A head that is smaller than the head of a sorted list is not in it. -/
theorem not_mem_of_lt_head {x y : α} {ys : List α} (hs : (y :: ys).Pairwise (· ≤ ·))
    (h : x < y) : x ∉ y :: ys := by
  intro hx
  rcases List.mem_cons.mp hx with rfl | hx
  · exact lt_irrefl x h
  · exact absurd ((List.pairwise_cons.mp hs).1 x hx) (not_le.mpr h)

/-- **The walk computes the difference of multisets.** -/
theorem count_comm {xs ys : List α} (hx : xs.Pairwise (· ≤ ·)) (hy : ys.Pairwise (· ≤ ·))
    (z : α) : (comm xs ys).count z = xs.count z - ys.count z := by
  fun_induction comm xs ys with
  | case1 ys => simp
  | case2 x xs => simp
  | case3 x xs y ys hlt ih =>
      have hnot := List.count_eq_zero_of_not_mem (not_mem_of_lt_head hy hlt)
      have hrest := ih (List.pairwise_cons.mp hx).2 hy
      by_cases hz : x = z
      · subst hz
        rw [List.count_cons_self, List.count_cons_self, hrest, hnot, Nat.sub_zero, Nat.sub_zero]
      · rw [List.count_cons_of_ne hz, List.count_cons_of_ne hz, hrest]
  | case4 x xs y ys hle hlt ih =>
      have hnot := List.count_eq_zero_of_not_mem (not_mem_of_lt_head hx hlt)
      have hrest := ih hx (List.pairwise_cons.mp hy).2
      by_cases hz : y = z
      · subst hz
        rw [hrest, hnot, Nat.zero_sub, Nat.zero_sub]
      · rw [List.count_cons_of_ne hz, hrest]
  | case5 x xs y ys hle hge ih =>
      obtain rfl : x = y := le_antisymm (not_lt.mp hge) (not_lt.mp hle)
      rw [ih (List.pairwise_cons.mp hx).2 (List.pairwise_cons.mp hy).2, List.count_cons,
        List.count_cons]
      omega

theorem mem_comm {xs ys : List α} (hx : xs.Pairwise (· ≤ ·)) (hy : ys.Pairwise (· ≤ ·))
    (hnd : xs.Nodup) {z : α} : z ∈ comm xs ys ↔ z ∈ xs ∧ z ∉ ys := by
  rw [← List.count_pos_iff, count_comm hx hy, ← List.count_pos_iff, ← List.count_eq_zero]
  have hone := List.nodup_iff_count_le_one.mp hnd z
  omega

theorem nodup_comm {xs ys : List α} (hx : xs.Pairwise (· ≤ ·)) (hy : ys.Pairwise (· ≤ ·))
    (hnd : xs.Nodup) : (comm xs ys).Nodup := by
  rw [List.nodup_iff_count_le_one]
  intro z
  have hone := List.nodup_iff_count_le_one.mp hnd z
  rw [count_comm hx hy]
  omega

/-! ### Sorting first -/

/-- `sort` -/
def sort (xs : List α) : List α := xs.mergeSort fun x y => decide (x ≤ y)

/-- `sort -u` -/
def sortUnique (xs : List α) : List α := (sort xs).dedup

theorem sort_pairwise (xs : List α) : (sort xs).Pairwise (· ≤ ·) := by
  have htrans : ∀ a b c : α, decide (a ≤ b) = true → decide (b ≤ c) = true →
      decide (a ≤ c) = true := by
    intro a b c hab hbc
    simp only [decide_eq_true_eq] at *
    exact le_trans hab hbc
  have htotal : ∀ a b : α, (decide (a ≤ b) || decide (b ≤ a)) = true := by
    intro a b
    simpa using le_total a b
  simpa [sort] using List.pairwise_mergeSort htrans htotal xs

theorem sort_perm (xs : List α) : (sort xs).Perm xs := List.mergeSort_perm _ _

theorem sortUnique_pairwise (xs : List α) : (sortUnique xs).Pairwise (· ≤ ·) :=
  (sort_pairwise xs).sublist (List.dedup_sublist _)

theorem mem_sortUnique {xs : List α} {z : α} : z ∈ sortUnique xs ↔ z ∈ xs := by
  rw [sortUnique, List.mem_dedup, (sort_perm xs).mem_iff]

/-- The pipeline: what the first list has, and the second has not. -/
theorem mem_comm_sort {xs ys : List α} (hnd : xs.Nodup) {z : α} :
    z ∈ comm (sort xs) (sortUnique ys) ↔ z ∈ xs ∧ z ∉ ys := by
  rw [mem_comm (sort_pairwise xs) (sortUnique_pairwise ys) ((sort_perm xs).nodup_iff.mpr hnd),
    (sort_perm xs).mem_iff, mem_sortUnique]

theorem nodup_comm_sort {xs ys : List α} (hnd : xs.Nodup) :
    (comm (sort xs) (sortUnique ys)).Nodup :=
  nodup_comm (sort_pairwise xs) (sortUnique_pairwise ys) ((sort_perm xs).nodup_iff.mpr hnd)

end TurbopackWasi.Lib
