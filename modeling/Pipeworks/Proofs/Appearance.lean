import Mathlib.Data.List.Basic
import Mathlib.Tactic.Common

/-!
Lists without their repetitions. What remains of a list has every member once, where it appears first.
-/

namespace Pipeworks

variable {α : Type} [DecidableEq α]

theorem eraseDups_sublist (xs : List α) : xs.eraseDups.Sublist xs := by
  cases xs with
  | nil => exact List.Sublist.refl _
  | cons x xs =>
      rw [List.eraseDups_cons]
      exact ((eraseDups_sublist _).trans List.filter_sublist).cons_cons x
termination_by xs.length
decreasing_by exact Nat.lt_succ_of_le (List.length_filter_le _ _)

/-- What a list keeps stays in the order of first appearance. -/
theorem idxOf_lt_of_filter {p : α → Bool} {a b : α} (ha : p a = true) (hb : p b = true) (xs : List α)
    (h : (xs.filter p).idxOf a < (xs.filter p).idxOf b) : xs.idxOf a < xs.idxOf b := by
  induction xs with
  | nil => simp at h
  | cons x xs ih =>
      by_cases hx : p x = true
      · rw [List.filter_cons_of_pos hx] at h
        by_cases hxa : x = a
        · subst hxa
          have hne : x ≠ b := fun heq => by simp [heq] at h
          rw [List.idxOf_cons_self, List.idxOf_cons_ne _ hne]
          exact Nat.succ_pos _
        · have hxb : x ≠ b := fun heq => by simp [heq] at h
          rw [List.idxOf_cons_ne _ hxa, List.idxOf_cons_ne _ hxb] at h ⊢
          exact Nat.succ_lt_succ (ih (Nat.lt_of_succ_lt_succ h))
      · have hxa : x ≠ a := fun heq => hx (heq ▸ ha)
        have hxb : x ≠ b := fun heq => hx (heq ▸ hb)
        rw [List.filter_cons_of_neg hx] at h
        rw [List.idxOf_cons_ne _ hxa, List.idxOf_cons_ne _ hxb]
        exact Nat.succ_lt_succ (ih h)

/-- A list without its repetitions has every member where it appears first. -/
theorem pairwise_idxOf_eraseDups (xs : List α) :
    xs.eraseDups.Pairwise fun a b => xs.idxOf a < xs.idxOf b := by
  cases xs with
  | nil => simp
  | cons x xs =>
      have hrest : ∀ y ∈ (xs.filter fun z => !z == x).eraseDups, y ≠ x := fun y hy => by
        simpa using (List.mem_filter.mp (List.mem_eraseDups.mp hy)).2
      rw [List.eraseDups_cons, List.pairwise_cons]
      refine ⟨fun y hy => ?_, ?_⟩
      · rw [List.idxOf_cons_self, List.idxOf_cons_ne _ (hrest y hy).symm]
        exact Nat.succ_pos _
      · refine (pairwise_idxOf_eraseDups _).imp_of_mem fun {a b} ha hb hab => ?_
        rw [List.idxOf_cons_ne _ (hrest a ha).symm, List.idxOf_cons_ne _ (hrest b hb).symm]
        refine Nat.succ_lt_succ (idxOf_lt_of_filter ?_ ?_ xs hab)
        · simpa using hrest a ha
        · simpa using hrest b hb
termination_by xs.length
decreasing_by exact Nat.lt_succ_of_le (List.length_filter_le _ _)

theorem nodup_eraseDups (xs : List α) : xs.eraseDups.Nodup := by
  refine (pairwise_idxOf_eraseDups xs).imp fun {a b} hlt heq => ?_
  subst heq
  exact Nat.lt_irrefl _ hlt

end Pipeworks
