import Pipeworks.Proofs.Plan.Release

/-!
The order of flows. Sorting by the release of the nodes that flows start at is stable, so flows of one node keep
their order, and a flow into a released node comes before all flows from it. What is left over are the flows from
nodes that a cycle blocks, as they stood.
-/

namespace Pipeworks

open Release

variable {flows : List Flow}

def orderedFlows (flows : List Flow) : List Flow :=
  (flows.filter fun f => decide (f.source ∈ order flows)).mergeSort fun a b =>
    (order flows).idxOf a.source ≤ (order flows).idxOf b.source

theorem source_mem_order_iff {f : Flow} (hf : f ∈ flows) :
    f.source ∈ order flows ↔ ¬(Edges.ofFlows flows).Blocked f.source := by
  have happ : f.source ∈ appearance flows := mem_appearance.mpr ⟨f, hf, .inl rfl⟩
  rw [mem_order]
  exact and_iff_right happ

theorem sortFlows_eq (flows : List Flow) :
    sortFlows flows =
      orderedFlows flows ++ flows.filter fun f => decide ((Edges.ofFlows flows).Blocked f.source) := by
  rw [sortFlows]
  simp only [List.partition_eq_filter_filter, orderedFlows]
  congr 1
  refine List.filter_congr fun f hf => ?_
  simp [source_mem_order_iff hf]

theorem mem_orderedFlows {f : Flow} :
    f ∈ orderedFlows flows ↔ f ∈ flows ∧ ¬(Edges.ofFlows flows).Blocked f.source := by
  rw [orderedFlows, List.mem_mergeSort, List.mem_filter, decide_eq_true_iff]
  exact and_congr_right fun hf => source_mem_order_iff hf

theorem sortFlows_perm (flows : List Flow) : (sortFlows flows).Perm flows := by
  rw [sortFlows]
  simp only [List.partition_eq_filter_filter]
  exact ((List.mergeSort_perm _ _).append_right _).trans (List.filter_append_perm _ _)

theorem mem_sortFlows {f : Flow} : f ∈ sortFlows flows ↔ f ∈ flows := (sortFlows_perm flows).mem_iff

theorem pairwise_orderedFlows (flows : List Flow) :
    (orderedFlows flows).Pairwise fun a b => (order flows).idxOf a.source ≤ (order flows).idxOf b.source := by
  refine (List.pairwise_mergeSort (fun a b c => ?_) (fun a b => ?_) _).imp fun h => by simpa using h
  · simp only [decide_eq_true_eq]
    exact le_trans
  · simpa using le_total _ _

/-- No flow that comes later ends where an earlier one starts, unless a cycle blocks that node. -/
theorem pairwise_sortFlows (flows : List Flow) {n : NodeRef} (hn : ¬(Edges.ofFlows flows).Blocked n) :
    (sortFlows flows).Pairwise fun a b => ¬(a.source = n ∧ b.target = n) := by
  rw [sortFlows_eq, List.pairwise_append]
  refine ⟨?_, ?_, ?_⟩
  · refine ((pairwise_orderedFlows flows).imp_of_mem fun ha hb hab => ?_)
    rintro ⟨rfl, hbn⟩
    obtain ⟨hbf, -⟩ := mem_orderedFlows.mp hb
    obtain ⟨haf, -⟩ := mem_orderedFlows.mp ha
    have hlt := idxOf_source_lt hbf (hbn ▸ (source_mem_order_iff haf).mpr hn)
    rw [hbn] at hlt
    omega
  · refine List.pairwise_of_forall_mem_list fun a ha b hb hab => hn ?_
    exact hab.1 ▸ of_decide_eq_true (List.mem_filter.mp ha).2
  · rintro a ha b hb ⟨-, hbn⟩
    obtain ⟨hbf, hblocked⟩ := List.mem_filter.mp hb
    exact hn (hbn ▸ (of_decide_eq_true hblocked).step (Edges.mem_ofFlows.mpr ⟨b, hbf, rfl, rfl⟩))

/-- A stable sort leaves elements in place among each other when it does not tell them apart. -/
theorem filter_mergeSort {α : Type} {le : α → α → Bool} {p : α → Bool}
    (trans : ∀ a b c, le a b → le b c → le a c) (total : ∀ a b, le a b || le b a)
    (hp : ∀ a b, p a → p b → le a b) (l : List α) : (l.mergeSort le).filter p = l.filter p := by
  have hpairs : (l.filter p).Pairwise fun a b => le a b :=
    List.pairwise_of_forall_mem_list fun a ha b hb => hp a b (List.mem_filter.mp ha).2 (List.mem_filter.mp hb).2
  have hsub := (List.sublist_mergeSort trans total hpairs List.filter_sublist).filter p
  rw [List.filter_filter, funext fun a => Bool.and_self (p a)] at hsub
  exact (hsub.eq_of_length ((List.mergeSort_perm l le).filter p).length_eq.symm).symm

theorem filter_source_sortFlows (flows : List Flow) (n : NodeRef) :
    (sortFlows flows).filter (fun f => decide (f.source = n)) = flows.filter fun f => decide (f.source = n) := by
  rw [sortFlows_eq, List.filter_append, orderedFlows,
    filter_mergeSort (by simpa using fun a b c => le_trans) (by simpa using fun a b => le_total _ _)
      (fun a b ha hb => by simp [of_decide_eq_true ha, of_decide_eq_true hb]),
    List.filter_filter, List.filter_filter]
  -- all flows from `n` are left over if a cycle blocks it, and none is if not
  by_cases hn : (Edges.ofFlows flows).Blocked n
  · have hnone : n ∉ order flows := fun h => not_blocked_of_mem_order h hn
    rw [List.filter_eq_nil_iff.mpr, List.nil_append]
    · exact List.filter_congr fun f _ => by by_cases h : f.source = n <;> simp [h, hn]
    · intro f _
      by_cases h : f.source = n <;> simp [h, hnone]
  · have hleft :
        flows.filter (fun f => decide (f.source = n) && decide ((Edges.ofFlows flows).Blocked f.source)) = [] := by
      refine List.filter_eq_nil_iff.mpr fun f _ => ?_
      by_cases h : f.source = n <;> simp [h, hn]
    rw [hleft, List.append_nil]
    refine List.filter_congr fun f hf => ?_
    by_cases h : f.source = n
    · have hmem : n ∈ order flows := h ▸ (source_mem_order_iff hf).mpr (h ▸ hn)
      simp [h, hmem]
    · simp [h]

theorem lt_of_pairwise {α : Type} {P Q : α → Prop} {l : List α} (h : l.Pairwise fun a b => ¬(P a ∧ Q b))
    (hne : ∀ a ∈ l, ¬(P a ∧ Q a)) {i j : ℕ} (hi : i < l.length) (hj : j < l.length) (hQ : Q l[i]) (hP : P l[j]) :
    i < j := by
  rcases Nat.lt_trichotomy i j with hlt | rfl | hlt
  · exact hlt
  · exact absurd ⟨hP, hQ⟩ (hne _ (List.getElem_mem hi))
  · exact absurd ⟨hP, hQ⟩ (List.pairwise_iff_getElem.mp h j i hj hi hlt)

/-- Ordering loses, adds and changes no flow. First come the flows from nodes that no cycle blocks, then the others
as they stood. At a node that no cycle blocks, all flows into it come before all flows from it, and flows from one
node keep their order. -/
theorem sortFlows_topological (flows : List Flow) :
    (sortFlows flows).Perm flows ∧
      (∃ ordered, sortFlows flows = ordered ++ flows.filter (fun f => decide ((Edges.ofFlows flows).Blocked f.source)) ∧
        ∀ f ∈ ordered, ¬(Edges.ofFlows flows).Blocked f.source) ∧
      (∀ n, ¬(Edges.ofFlows flows).Blocked n → ∀ (i j : ℕ) (hi : i < (sortFlows flows).length)
        (hj : j < (sortFlows flows).length),
        (sortFlows flows)[i].target = n → (sortFlows flows)[j].source = n → i < j) ∧
      ∀ n, (sortFlows flows).filter (fun f => decide (f.source = n)) = flows.filter fun f => decide (f.source = n) := by
  refine ⟨sortFlows_perm flows, ⟨orderedFlows flows, sortFlows_eq flows, fun f hf => (mem_orderedFlows.mp hf).2⟩,
    fun n hn i j hi hj hit hjs => ?_, filter_source_sortFlows flows⟩
  refine lt_of_pairwise (pairwise_sortFlows flows hn) (fun f hf => ?_) hi hj hit hjs
  rintro ⟨rfl, hft⟩
  have hloop : (f.source, f.source) ∈ Edges.ofFlows flows := Edges.mem_ofFlows.mpr ⟨f, mem_sortFlows.mp hf, rfl, hft⟩
  exact hn (Edges.OnCycle.blocked ⟨f.source, hloop, .here _⟩)

end Pipeworks
