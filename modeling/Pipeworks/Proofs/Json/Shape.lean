import Pipeworks.Json.Doc
import Mathlib.Tactic.Common

/-!
The shape of a value: induction through its containers, and what holds of every number within it. Properties that are
defined along the lists of a container are given here by membership.
-/

namespace Pipeworks.Json

/-- Induction over a value, through the items and the fields of its containers. -/
@[elab_as_elim]
theorem structural {motive : Json → Prop} (null : motive .null) (bool : ∀ b, motive (.bool b))
    (num : ∀ n, motive (.num n)) (str : ∀ s, motive (.str s))
    (arr : ∀ xs, (∀ x ∈ xs, motive x) → motive (.arr xs))
    (obj : ∀ fs : List (String × Json), (∀ f ∈ fs, motive f.2) → motive (.obj fs)) : ∀ j, motive j
  | .null => null
  | .bool b => bool b
  | .num n => num n
  | .str s => str s
  | .arr xs => arr xs fun x _ => structural null bool num str arr obj x
  | .obj fs => obj fs fun f _ => structural null bool num str arr obj f.2
termination_by j => sizeOf j
decreasing_by
  · have hlt := List.sizeOf_lt_of_mem ‹x ∈ xs›
    simp only [Json.arr.sizeOf_spec]
    omega
  · have hlt := List.sizeOf_lt_of_mem ‹f ∈ fs›
    obtain ⟨k, v⟩ := f
    simp only [Json.obj.sizeOf_spec, Prod.mk.sizeOf_spec] at hlt ⊢
    omega

/-! ### Numbers within a value -/

mutual
def All (P : Number → Prop) : Json → Prop
  | .num n => P n
  | .arr items => AllItems P items
  | .obj fields => AllFields P fields
  | _ => True
def AllItems (P : Number → Prop) : List Json → Prop
  | [] => True
  | x :: xs => All P x ∧ AllItems P xs
def AllFields (P : Number → Prop) : List (String × Json) → Prop
  | [] => True
  | (_, x) :: xs => All P x ∧ AllFields P xs
end

variable {P Q : Number → Prop} {xs : List Json} {fs : List (String × Json)} {j : Json} {n : Nat}

@[simp] theorem all_arr : (Json.arr xs).All P ↔ ∀ x ∈ xs, x.All P := by
  rw [All]
  induction xs with
  | nil => simp [AllItems]
  | cons x xs ih => simp [AllItems, ih]

@[simp] theorem all_obj : (Json.obj fs).All P ↔ ∀ f ∈ fs, f.2.All P := by
  rw [All]
  induction fs with
  | nil => simp [AllFields]
  | cons f fs ih => simp [AllFields, ih]

theorem All.imp (h : ∀ n, P n → Q n) (hj : j.All P) : j.All Q := by
  induction j using structural with
  | null | bool | str => trivial
  | num n => exact h n hj
  | arr xs ih => exact all_arr.mpr fun x hx => ih x hx (all_arr.mp hj x hx)
  | obj fs ih => exact all_obj.mpr fun f hf => ih f hf (all_obj.mp hj f hf)

theorem All.and (hP : j.All P) (hQ : j.All Q) : j.All fun n => P n ∧ Q n := by
  induction j using structural with
  | null | bool | str => trivial
  | num n => exact ⟨hP, hQ⟩
  | arr xs ih => exact all_arr.mpr fun x hx => ih x hx (all_arr.mp hP x hx) (all_arr.mp hQ x hx)
  | obj fs ih => exact all_obj.mpr fun f hf => ih f hf (all_obj.mp hP f hf) (all_obj.mp hQ f hf)

/-! ### Order of keys, and depth -/

abbrev Ascending {α : Type} (fs : List (String × α)) : Prop := (fs.map Prod.fst).Pairwise (· < ·)

@[simp] theorem canonical_arr : (Json.arr xs).Canonical ↔ ∀ x ∈ xs, x.Canonical := by
  rw [Canonical]
  induction xs with
  | nil => simp [CanonicalItems]
  | cons x xs ih => simp [CanonicalItems, ih]

@[simp] theorem canonical_obj : (Json.obj fs).Canonical ↔ Ascending fs ∧ ∀ f ∈ fs, f.2.Canonical := by
  rw [Canonical]
  have hfields : CanonicalFields fs ↔ ∀ f ∈ fs, f.2.Canonical := by
    induction fs with
    | nil => simp [CanonicalFields]
    | cons f fs ih => simp [CanonicalFields, ih]
  rw [hfields]

@[simp] theorem depth_arr_le : (Json.arr xs).depth ≤ n + 1 ↔ ∀ x ∈ xs, x.depth ≤ n := by
  rw [depth, Nat.add_le_add_iff_right]
  induction xs with
  | nil => simp [depthItems]
  | cons x xs ih => simp only [depthItems, Nat.max_le, ih, List.forall_mem_cons]

@[simp] theorem depth_obj_le : (Json.obj fs).depth ≤ n + 1 ↔ ∀ f ∈ fs, f.2.depth ≤ n := by
  rw [depth, Nat.add_le_add_iff_right]
  induction fs with
  | nil => simp [depthFields]
  | cons f fs ih => simp only [depthFields, Nat.max_le, ih, List.forall_mem_cons]

theorem depth_arr_pos : 0 < (Json.arr xs).depth := Nat.succ_pos _

theorem depth_obj_pos : 0 < (Json.obj fs).depth := Nat.succ_pos _

/-! ### Trees of values -/

theorem ofItems_eq_map (xs : List Json) : Doc.ofItems xs = xs.map Doc.ofJson := by
  induction xs with
  | nil => rfl
  | cons x xs ih => rw [Doc.ofItems, ih, List.map_cons]

theorem ofFields_eq_map (fs : List (String × Json)) :
    Doc.ofFields fs = fs.map fun f => (.ok f.1, Doc.ofJson f.2) := by
  induction fs with
  | nil => rfl
  | cons f fs ih => rw [Doc.ofFields, ih, List.map_cons]

/-- A map is told from its image where its function is injective on the items. -/
theorem map_injOn {α β : Type} {f : α → β} {xs ys : List α} (hf : ∀ x ∈ xs, ∀ y, f x = f y → x = y)
    (h : xs.map f = ys.map f) : xs = ys := by
  induction xs generalizing ys with
  | nil => simpa [eq_comm] using h
  | cons x xs ih =>
      cases ys with
      | nil => simp at h
      | cons y ys =>
          simp only [List.map_cons, List.cons.injEq] at h
          rw [hf x (by simp) y h.1, ih (fun x hx => hf x (by simp [hx])) h.2]

theorem ofFields_append (fs gs : List (String × Json)) :
    Doc.ofFields (fs ++ gs) = Doc.ofFields fs ++ Doc.ofFields gs := by
  rw [ofFields_eq_map, ofFields_eq_map, ofFields_eq_map, List.map_append]

theorem ofJson_injective : Function.Injective Doc.ofJson := by
  intro j
  induction j using structural with
  | null | bool | num | str =>
      intro j' h
      cases j' <;> simp_all [Doc.ofJson]
  | arr xs ih =>
      intro j' h
      cases j' with
      | arr ys =>
          simp only [Doc.ofJson, Doc.array.injEq, ofItems_eq_map, and_true] at h
          exact congrArg Json.arr (map_injOn (fun x hx y hxy => ih x hx hxy) h)
      | _ => simp [Doc.ofJson] at h
  | obj fs ih =>
      intro j' h
      cases j' with
      | obj gs =>
          simp only [Doc.ofJson, Doc.object.injEq, ofFields_eq_map, and_true] at h
          refine congrArg Json.obj (map_injOn (fun f hf g hfg => ?_) h)
          simp only [Prod.mk.injEq, Except.ok.injEq] at hfg
          exact Prod.ext hfg.1 (ih f hf hfg.2)
      | _ => simp [Doc.ofJson] at h

end Pipeworks.Json
