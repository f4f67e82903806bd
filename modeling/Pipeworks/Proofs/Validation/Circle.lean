import Pipeworks.Proofs.Validation.WellFormed
import Mathlib.Data.List.Chain
import Mathlib.Data.List.Nodup

/-!
The circle that the check for cycles reports. The path of the search meets no node twice, so where it comes upon one
of its own nodes, what lies between closes a circle: this is the path that the one diagnostic names, and there is a
diagnostic exactly if the flows lead in a circle at all.
-/

namespace Pipeworks

namespace Edges

variable {es : Edges}

/-- A path along edges that ends where it begins, and meets no node twice before. -/
structure IsCircle (es : Edges) (path : List NodeRef) : Prop where
  /-- There is an edge on it. -/
  long : 2 ≤ path.length
  closed : path.getLast? = path.head?
  distinct : path.dropLast.Nodup
  linked : path.IsChain fun a b => (a, b) ∈ es

/-- What a return closes is the path back to the node, in the order in which it was gone. -/
theorem closed_eq (path : List NodeRef) (n : NodeRef) :
    closed path n = (n :: (path.takeWhile (· ≠ n) ++ [n])).reverse := by
  simp [closed]

theorem takeWhile_concat_prefix {path : List NodeRef} {n : NodeRef} (hn : n ∈ path) :
    path.takeWhile (· ≠ n) ++ [n] <+: path := by
  induction path with
  | nil => simp at hn
  | cons p path ih =>
      by_cases hp : p = n
      · subst hp
        simp
      · have hn' : n ∈ path := (List.mem_cons.mp hn).resolve_left fun h => hp h.symm
        rw [List.takeWhile_cons_of_pos (by simpa using hp), List.cons_append]
        exact List.cons_prefix_cons.mpr ⟨rfl, ih hn'⟩

theorem isCircle_closed {path : List NodeRef} {n : NodeRef} (hn : n ∈ path) (hnodup : path.Nodup)
    (hchain : es.IsPath (n :: path)) : es.IsCircle (closed path n) := by
  have hback := takeWhile_concat_prefix hn
  have hlinked : es.IsPath (n :: (path.takeWhile (· ≠ n) ++ [n])) :=
    List.IsChain.prefix hchain (List.cons_prefix_cons.mpr ⟨rfl, hback⟩)
  rw [closed_eq]
  exact {
    long := by simp
    closed := by
      rw [List.getLast?_reverse, List.head?_reverse, ← List.cons_append, List.getLast?_concat, List.cons_append,
        List.head?_cons]
    distinct := by
      rw [List.dropLast_reverse, List.tail_cons]
      exact List.nodup_reverse.mpr (hnodup.sublist hback.sublist)
    linked := List.isChain_reverse.mpr hlinked }

theorem foldlM_eq_error {α β ε : Type} {f : β → α → Except ε β} {e : ε} {l : List α} {b : β}
    (h : l.foldlM f b = .error e) : ∃ a ∈ l, ∃ b', f b' a = .error e := by
  induction l generalizing b with
  | nil => simp [pure, Except.pure] at h
  | cons a l ih =>
      rw [List.foldlM_cons] at h
      cases ha : f b a with
      | error e' =>
          rw [ha] at h
          exact ⟨a, by simp, b, ha.trans h⟩
      | ok b' =>
          rw [ha] at h
          obtain ⟨a', ha', hb⟩ := ih h
          exact ⟨a', by simp [ha'], hb⟩

/-- A visit that does not end well has found a circle. -/
theorem isCircle_of_visit {fuel : ℕ} {path visited cycle : List NodeRef} {n : NodeRef} (hnodup : path.Nodup)
    (hchain : es.IsPath (n :: path)) (h : es.visit fuel path visited n = .error cycle) : es.IsCircle cycle := by
  induction fuel generalizing path visited n with
  | zero => simp [visit] at h
  | succ fuel ih =>
      simp only [visit] at h
      split_ifs at h with hmem
      · cases h
        exact isCircle_closed hmem hnodup hchain
      · obtain ⟨m, hm, visited', hvisit⟩ := foldlM_eq_error h
        exact ih (List.nodup_cons.mpr ⟨hmem, hnodup⟩) (List.isChain_cons_cons.mpr ⟨mem_next.mp hm, hchain⟩) hvisit

theorem isCircle_of_findCycle? {roots path : List NodeRef} (h : es.findCycle? roots = some path) :
    es.IsCircle path := by
  simp only [findCycle?] at h
  split at h
  · simp at h
  · rename_i cycle hfold
    cases h
    obtain ⟨n, -, visited, hvisit⟩ := foldlM_eq_error hfold
    exact isCircle_of_visit List.nodup_nil (List.isChain_singleton n) hvisit

end Edges

namespace Graph

/-- The check is silent exactly if no flows lead in a circle; otherwise it says one thing, and that is a circle. -/
theorem circular_reports_circle (g : Graph) :
    (g.circular = [] ↔ ∀ n, ¬g.edges.OnCycle n) ∧
      (g.circular ≠ [] → ∃ path, g.edges.IsCircle path ∧
        g.circular = [{ rule := .cycle
                        message := "Cycle detected in pipeline flows: " ++ " -> ".intercalate (path.map (·.name))
                        node := path.head? }]) := by
  refine ⟨circular_eq_nil_iff, fun hsaid => ?_⟩
  cases hfound : g.edges.findCycle? g.cycleRoots with
  | none => exact absurd (by simp [circular, hfound]) hsaid
  | some path => exact ⟨path, Edges.isCircle_of_findCycle? hfound, by simp [circular, hfound]⟩

end Graph

end Pipeworks
