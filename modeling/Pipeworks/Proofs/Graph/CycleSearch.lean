import Pipeworks.Validation.Cycle
import Pipeworks.Proofs.Graph.Walk

/-!
The depth-first search for a cycle. A node is finished when it was visited and is not on the path of the search
any more. Finished nodes lead to finished nodes only and lie on no cycle; this is what a visit preserves. A visit
that meets the path closes a cycle. The bound on the length of the path is never met, since a path does not
repeat a node.
-/

namespace Pipeworks.Edges

variable {es : Edges}

/-- The path of the search, its newest node first: every node leads to the one before it. -/
def IsPath (es : Edges) (path : List NodeRef) : Prop := path.IsChain fun a b => (b, a) ∈ es

def Finished (es : Edges) (path visited : List NodeRef) : Prop :=
  ∀ x ∈ visited, x ∉ path → ¬es.OnCycle x ∧ ∀ y, (x, y) ∈ es → y ∈ visited ∧ y ∉ path

/-- What the visits of some nodes come to: a cycle exists, or the nodes are finished, as are all others that were
visited meanwhile. -/
def Visited (es : Edges) (path ns visited : List NodeRef) : Except (List NodeRef) (List NodeRef) → Prop
  | .error _ => ∃ m, es.OnCycle m
  | .ok visited' => visited ⊆ visited' ∧ (∀ n ∈ ns, n ∈ visited' ∧ n ∉ path) ∧ es.Finished path visited'

/-- The last node of a path is led to by all others. -/
theorem IsPath.walk {n : NodeRef} {path : List NodeRef} (h : es.IsPath (n :: path)) :
    ∀ x ∈ path, ∃ m, (x, m) ∈ es ∧ Walk es m n := by
  induction path generalizing n with
  | nil => simp
  | cons p path ih =>
      rw [IsPath, List.isChain_cons_cons] at h
      intro x hx
      rcases List.mem_cons.mp hx with rfl | hx
      · exact ⟨n, h.1, .here n⟩
      · obtain ⟨m, hxm, hmp⟩ := ih h.2 x hx
        exact ⟨m, hxm, hmp.snoc h.1⟩

theorem foldlM_visit {path : List NodeRef} {visit : List NodeRef → NodeRef → Except (List NodeRef) (List NodeRef)}
    (ns visited : List NodeRef) (hpath : path ⊆ visited) (hfin : es.Finished path visited)
    (hvisit : ∀ n ∈ ns, ∀ visited, path ⊆ visited → es.Finished path visited →
      es.Visited path [n] visited (visit visited n)) :
    es.Visited path ns visited (ns.foldlM visit visited) := by
  induction ns generalizing visited with
  | nil => exact ⟨List.Subset.refl _, by simp, hfin⟩
  | cons n ns ih =>
      have hn := hvisit n (by simp) visited hpath hfin
      rw [List.foldlM_cons]
      cases hv : visit visited n with
      | error cycle =>
          rw [hv] at hn
          exact hn
      | ok middle =>
          rw [hv] at hn
          obtain ⟨hsub, hmem, hfin'⟩ := hn
          have hrest := ih middle (List.Subset.trans hpath hsub) hfin' fun m hm => hvisit m (by simp [hm])
          change es.Visited path (n :: ns) visited (ns.foldlM visit middle)
          cases hr : ns.foldlM visit middle with
          | error cycle =>
              rw [hr] at hrest
              exact hrest
          | ok visited' =>
              rw [hr] at hrest
              obtain ⟨hsub', hmem', hfin''⟩ := hrest
              refine ⟨List.Subset.trans hsub hsub', fun m hm => ?_, hfin''⟩
              rcases List.mem_cons.mp hm with rfl | hm
              · exact ⟨hsub' (hmem m (by simp)).1, (hmem m (by simp)).2⟩
              · exact hmem' m hm

theorem Finished.pop {n : NodeRef} {path visited : List NodeRef} (hfin : es.Finished (n :: path) visited)
    (hn : n ∈ visited) (hnext : ∀ y, (n, y) ∈ es → y ∈ visited ∧ y ∉ n :: path) : es.Finished path visited := by
  have hstays : ∀ x y, (x, y) ∈ es → x ∈ visited ∧ x ∉ n :: path → y ∈ visited ∧ y ∉ n :: path :=
    fun x y hxy hx => (hfin x hx.1 hx.2).2 y hxy
  intro x hx hxpath
  by_cases hxn : x = n
  · subst hxn
    refine ⟨?_, fun y hy => ⟨(hnext y hy).1, fun h => (hnext y hy).2 (by simp [h])⟩⟩
    rintro ⟨m, hxm, hwalk⟩
    -- a cycle through `x` would lead from finished nodes back to `x`, which is on the path
    exact (hwalk.stays hstays (hnext m hxm)).2 (by simp)
  · have hx' := hfin x hx (by simp [hxn, hxpath])
    exact ⟨hx'.1, fun y hy => ⟨(hx'.2 y hy).1, fun h => (hx'.2 y hy).2 (by simp [h])⟩⟩

/-- One visit, where `nodes` has all nodes that there are. -/
theorem visit_spec (nodes : List NodeRef) (hnodes : ∀ a b, (a, b) ∈ es → b ∈ nodes) (fuel : ℕ)
    (path visited : List NodeRef) (n : NodeRef) (hfuel : nodes.length < fuel + path.length) (hn : n ∈ nodes)
    (hsub : path ⊆ nodes) (hnodup : path.Nodup) (hchain : es.IsPath (n :: path)) (hpath : path ⊆ visited)
    (hfin : es.Finished path visited) : es.Visited path [n] visited (es.visit fuel path visited n) := by
  induction fuel generalizing path visited n with
  | zero =>
      -- the path does not repeat a node, so the bound is not met
      have hlen := (List.subperm_of_subset hnodup hsub).length_le
      omega
  | succ fuel ih =>
      simp only [visit]
      split_ifs with hmem hseen
      · obtain ⟨m, hnm, hmn⟩ := hchain.walk n hmem
        exact ⟨n, m, hnm, hmn⟩
      · exact ⟨List.Subset.refl _, by simp [hseen, hmem], hfin⟩
      · have hpath' : n :: path ⊆ n :: visited := List.cons_subset_cons n hpath
        have hfin' : es.Finished (n :: path) (n :: visited) := by
          intro x hx hxpath
          obtain ⟨hxn, hxp⟩ := not_or.mp (List.mem_cons.not.mp hxpath)
          have hx' := hfin x ((List.mem_cons.mp hx).resolve_left hxn) hxp
          refine ⟨hx'.1, fun y hy => ⟨by simp [(hx'.2 y hy).1], ?_⟩⟩
          have hyn : y ≠ n := fun h => hseen (h ▸ (hx'.2 y hy).1)
          simp [hyn, (hx'.2 y hy).2]
        have hnext := foldlM_visit (es.next n) (n :: visited) hpath' hfin' fun m hm visited' hpath'' hfin'' =>
          ih (n :: path) visited' m (by simp only [List.length_cons]; omega) (hnodes n m (mem_next.mp hm))
            (List.cons_subset.mpr ⟨hn, hsub⟩) (List.nodup_cons.mpr ⟨hmem, hnodup⟩)
            (List.isChain_cons_cons.mpr ⟨mem_next.mp hm, hchain⟩) hpath'' hfin''
        cases hfold : (es.next n).foldlM (es.visit fuel (n :: path)) (n :: visited) with
        | error cycle =>
            rw [hfold] at hnext
            exact hnext
        | ok visited' =>
            rw [hfold] at hnext
            obtain ⟨hsub', hmem', hfin''⟩ := hnext
            have hnv : n ∈ visited' := hsub' (by simp)
            exact ⟨fun x hx => hsub' (by simp [hx]), by simp [hnv, hmem],
              hfin''.pop hnv fun y hy => hmem' y (mem_next.mpr hy)⟩

/-- The search finds a cycle exactly if there is one, as long as every start of an edge is among the roots. -/
theorem findCycle?_eq_none_iff {roots : List NodeRef} (hroots : ∀ a b, (a, b) ∈ es → a ∈ roots) :
    es.findCycle? roots = none ↔ ∀ n, ¬es.OnCycle n := by
  have hfold := @foldlM_visit es [] (es.visit (roots.length + es.length + 2) []) roots []
    (List.Subset.refl _) (by simp [Finished]) fun n hn visited _ hfin =>
      visit_spec (roots ++ es.map Prod.snd)
        (fun a b hab => List.mem_append_right _ (List.mem_map.mpr ⟨(a, b), hab, rfl⟩)) _ [] visited n
        (by simp) (by simp [hn]) (by simp) (by simp) (by simp [IsPath]) (by simp) hfin
  rw [findCycle?]
  cases h : roots.foldlM (es.visit (roots.length + es.length + 2) []) [] with
  | error cycle =>
      rw [h] at hfold
      obtain ⟨m, hm⟩ := hfold
      simp only [reduceCtorEq, false_iff, not_forall, not_not]
      exact ⟨m, hm⟩
  | ok visited =>
      rw [h] at hfold
      obtain ⟨-, hmem, hfin⟩ := hfold
      simp only [true_iff]
      rintro n ⟨m, hnm, hmn⟩
      exact (hfin n (hmem n (hroots n m hnm)).1 (by simp)).1 ⟨m, hnm, hmn⟩

end Pipeworks.Edges
