import Pipeworks.Json.Decode
import Pipeworks.Proofs.Json.Shape
import Mathlib.Data.String.Basic

/-!
Fields in ascending order of their keys. A value that is put under a key leaves the order as it is, and one whose key
comes last is put at the end; so fields that ascend already are gathered as they stand.
-/

namespace Pipeworks.Json

open Keyed (putAscending putBy)

variable {α : Type} {k : String} {v : α} {fs : List (String × α)}

theorem putAscending_cons (k : String) (v : α) (f : String × α) (fs : List (String × α)) :
    putAscending k v (f :: fs) =
      if k = f.1 then (k, v) :: fs else if k < f.1 then (k, v) :: f :: fs else f :: putAscending k v fs := by
  simp only [putAscending, putBy, decide_eq_true_eq]

theorem mem_putAscending {f : String × α} (h : f ∈ putAscending k v fs) : f = (k, v) ∨ f ∈ fs := by
  induction fs with
  | nil => exact .inl (List.mem_singleton.mp h)
  | cons g fs ih =>
      rw [putAscending_cons] at h
      split_ifs at h with heq hlt
      · rcases List.mem_cons.mp h with h | h
        · exact .inl h
        · exact .inr (List.mem_cons_of_mem _ h)
      · exact List.mem_cons.mp h
      · rcases List.mem_cons.mp h with h | h
        · exact .inr (h ▸ List.mem_cons_self)
        · exact (ih h).imp_right (List.mem_cons_of_mem _)

theorem ascending_cons {f : String × α} : Ascending (f :: fs) ↔ (∀ g ∈ fs, f.1 < g.1) ∧ Ascending fs := by
  simp [Ascending]

theorem ascending_putAscending (h : Ascending fs) : Ascending (putAscending k v fs) := by
  induction fs with
  | nil => exact List.pairwise_singleton _ k
  | cons f fs ih =>
      obtain ⟨hf, hfs⟩ := ascending_cons.mp h
      rw [putAscending_cons]
      split_ifs with heq hlt
      · exact ascending_cons.mpr ⟨fun g hg => heq ▸ hf g hg, hfs⟩
      · refine ascending_cons.mpr ⟨fun g hg => ?_, h⟩
        rcases List.mem_cons.mp hg with rfl | hg
        · exact hlt
        · exact hlt.trans (hf g hg)
      · refine ascending_cons.mpr ⟨fun g hg => ?_, ih hfs⟩
        rcases mem_putAscending hg with rfl | hg
        · exact lt_of_le_of_ne (not_lt.mp hlt) (Ne.symm heq)
        · exact hf g hg

theorem putAscending_of_lt (h : ∀ f ∈ fs, f.1 < k) : putAscending k v fs = fs ++ [(k, v)] := by
  induction fs with
  | nil => rfl
  | cons f fs ih =>
      have hlt : f.1 < k := h f List.mem_cons_self
      rw [putAscending_cons, if_neg hlt.ne', if_neg hlt.not_gt, ih fun g hg => h g (List.mem_cons_of_mem _ hg),
        List.cons_append]

/-- Fields that ascend, gathered one after another onto smaller ones, are only appended. -/
theorem foldl_putAscending (gs : List (String × α)) (h : Ascending (gs ++ fs)) :
    fs.foldl (fun acc f => putAscending f.1 f.2 acc) gs = gs ++ fs := by
  induction fs generalizing gs with
  | nil => simp
  | cons f fs ih =>
      have hlt : ∀ g ∈ gs, g.1 < f.1 := by
        intro g hg
        rw [Ascending, List.map_append, List.pairwise_append] at h
        exact h.2.2 g.1 (List.mem_map_of_mem hg) f.1 (by simp)
      rw [List.foldl_cons, putAscending_of_lt hlt, ih _ (by simpa using h), List.append_assoc, List.singleton_append]

end Pipeworks.Json
