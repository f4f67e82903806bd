import Pipeworks.Plan.Loop
import Pipeworks.Proofs.Plan.Settled

/-!
The release of nodes, one operation at a time. A round of the loop takes a node from the queue and then counts the flows
that start at it one after another; here each of these is a step of its own, the ranks are a table that is filled as the
loop goes, and what joins the queue is written down. Between any two steps a counter holds the number of flows that are
still to come into its node, those that the round has not yet counted among them. So a counter that is to be lowered is
never at nothing, and a node whose counter has come down to nothing is not named again.
-/

namespace Pipeworks.Release

namespace Loop

variable {flows : List Flow} {l : Loop} {n t : NodeRef} {queue ts : List NodeRef}

theorem next_cons (flows : List Flow) (h : l.pending = t :: ts) : l.next flows =
    { l with
      state := arrive l.state t
      pending := ts
      joined := if (l.state.counters.lower t).get t = 0 then l.joined ++ [t] else l.joined } := by
  simp only [next, h]

theorem next_nil (flows : List Flow) (h : l.pending = []) (hq : l.state.queue = n :: queue) : l.next flows =
    { l with
      state := { l.state with queue, released := l.state.released ++ [n] }
      pending := targets flows n
      ranks := l.ranks.insert n l.ranks.entries.length } := by
  simp only [next, h, hq]

theorem next_of_done (flows : List Flow) (h : l.Done) : l.next flows = l := by
  simp only [next, h.1, h.2]

/-! ### What holds between any two steps -/

structure Inv (flows : List Flow) (l : Loop) : Prop where
  joined : l.joined = l.state.released ++ l.state.queue
  nodup : l.joined.Nodup
  /-- Flows into a node are still to come from nodes that were not taken, and from the node of this round. -/
  counters : ∀ m, l.state.counters.get m = waiting flows l.state.released m + l.pending.count m
  ready : ∀ m ∈ l.joined, l.state.counters.get m = 0
  ranks : l.ranks.entries = (l.state.released.zipIdx.map fun e => ⟨e.1, e.2⟩).reverse

theorem inv_begin (flows : List Flow) : Inv flows (begin flows) where
  joined := rfl
  nodup := (inv_start flows).nodup
  counters := (inv_start flows).counters
  ready m hm := by
    rw [begin, (inv_start flows).counters]
    exact (((inv_start flows).ready m).mp hm).2
  ranks := rfl

/-- A flow that is to be counted is one of those that its end waits for. -/
theorem Inv.counter_pos (h : Inv flows l) (hpending : l.pending = t :: ts) : 0 < l.state.counters.get t := by
  rw [h.counters, hpending, List.count_cons_self]
  omega

theorem Inv.count (h : Inv flows l) (hpending : l.pending = t :: ts) : Inv flows (l.next flows) := by
  have hpos := h.counter_pos hpending
  -- nodes that joined have counters at nothing, so the end of this flow has not joined yet
  have hnew : t ∉ l.joined := fun hmem => hpos.ne' (h.ready t hmem)
  have hcounters : ∀ m, (l.state.counters.lower t).get m = waiting flows l.state.released m + ts.count m := by
    intro m
    have hm := h.counters m
    rw [hpending, List.count_cons] at hm
    rw [Counters.get_lower]
    by_cases hmt : m = t
    · simp [hmt] at hm ⊢
      omega
    · simpa [hmt, Ne.symm hmt] using hm
  have hready : ∀ m ∈ l.joined, (l.state.counters.lower t).get m = 0 := by
    intro m hm
    rw [Counters.get_lower, h.ready m hm]
    split_ifs <;> rfl
  rw [next_cons flows hpending, arrive]
  split_ifs with hlast
  · refine ⟨?_, ?_, hcounters, ?_, h.ranks⟩
    · simp [h.joined]
    · simpa [List.nodup_append] using ⟨h.nodup, fun m hm => ne_of_mem_of_not_mem hm hnew⟩
    · simpa [or_imp, forall_and] using ⟨hready, hlast⟩
  · exact ⟨h.joined, h.nodup, hcounters, hready, h.ranks⟩

theorem Inv.length_ranks (h : Inv flows l) : l.ranks.entries.length = l.state.released.length := by
  rw [h.ranks, List.length_reverse, List.length_map, List.length_zipIdx]

theorem Inv.mem_ranks (h : Inv flows l) : n ∈ l.ranks ↔ n ∈ l.state.released := by
  rw [AList.mem_keys, AList.keys, List.keys, h.ranks]
  simp [List.map_reverse, List.map_map, Function.comp_def]

theorem Inv.notMem_released (h : Inv flows l) (hq : l.state.queue = n :: queue) : n ∉ l.state.released := by
  have hnodup := h.nodup
  rw [h.joined, hq] at hnodup
  exact fun hmem => List.disjoint_of_nodup_append hnodup hmem List.mem_cons_self

theorem Inv.take (h : Inv flows l) (hpending : l.pending = []) (hq : l.state.queue = n :: queue) :
    Inv flows (l.next flows) := by
  have hn := h.notMem_released hq
  rw [next_nil flows hpending hq]
  refine ⟨by simp [h.joined, hq], h.nodup, fun m => ?_, h.ready, ?_⟩
  · have hm := h.counters m
    rw [hpending, List.count_nil, waiting_append hn] at hm
    dsimp only
    omega
  · rw [AList.entries_insert_of_notMem fun hmem => hn (h.mem_ranks.mp hmem), h.length_ranks, h.ranks,
      List.zipIdx_append]
    simp

theorem Inv.next (h : Inv flows l) : Inv flows (l.next flows) := by
  cases hpending : l.pending with
  | cons t ts => exact h.count hpending
  | nil =>
      cases hq : l.state.queue with
      | cons n queue => exact h.take hpending hq
      | nil => exact (next_of_done flows ⟨hpending, hq⟩).symm ▸ h

theorem Inv.iterate (h : Inv flows l) (k : ℕ) : Inv flows ((Loop.next flows)^[k] l) := by
  induction k with
  | zero => exact h
  | succ k ih =>
      rw [Function.iterate_succ_apply']
      exact ih.next

theorem inv_after (flows : List Flow) (k : ℕ) : Inv flows (after flows k) := (inv_begin flows).iterate k

theorem Inv.ranks_perm (h : Inv flows l) :
    (l.ranks.entries.map (·.2)).Perm (List.range l.state.released.length) := by
  have hvalues : l.ranks.entries.map (·.2) = (List.range l.state.released.length).reverse := by
    rw [h.ranks, List.map_reverse, List.map_map, List.range_eq_range', ← List.zipIdx_map_snd]
    rfl
  exact hvalues ▸ List.reverse_perm _

theorem Inv.lookup_eq_some_iff (h : Inv flows l) {i : ℕ} :
    l.ranks.lookup n = some i ↔ l.state.released[i]? = some n := by
  rw [← Option.mem_def, AList.mem_lookup_iff, h.ranks, List.mem_reverse]
  simp [List.mem_zipIdx_iff_getElem?]

/-! ### Rounds -/

theorem iterate_pending (flows : List Flow) (l : Loop) :
    ((Loop.next flows)^[l.pending.length] l).state = l.pending.foldl arrive l.state ∧
      ((Loop.next flows)^[l.pending.length] l).pending = [] := by
  obtain ⟨state, pending, ranks, joined⟩ := l
  induction pending generalizing state joined with
  | nil => exact ⟨rfl, rfl⟩
  | cons t ts ih =>
      simp only [List.length_cons, Function.iterate_succ_apply, List.foldl_cons]
      rw [next_cons flows rfl]
      exact ih _ _

theorem iterate_eq_step (flows : List Flow) (hpending : l.pending = []) (hq : l.state.queue = n :: queue) :
    ((Loop.next flows)^[(targets flows n).length + 1] l).state = step flows l.state ∧
      ((Loop.next flows)^[(targets flows n).length + 1] l).pending = [] := by
  have hround := iterate_pending flows (l.next flows)
  rw [next_nil flows hpending hq] at hround
  rw [Function.iterate_succ_apply, next_nil flows hpending hq, step_cons flows hq]
  exact hround

theorem countP_source_append {released : List NodeRef} (hn : n ∉ released) (flows : List Flow) :
    flows.countP (fun f => decide (f.source ∈ released ++ [n])) =
      flows.countP (fun f => decide (f.source ∈ released)) + (targets flows n).length := by
  induction flows with
  | nil => rfl
  | cons f flows ih =>
      simp only [List.countP_cons, targets, List.filter_cons, List.length_map] at ih ⊢
      by_cases hs : f.source = n <;> by_cases hr : f.source ∈ released <;> simp_all <;> omega

/-- The steps spent between two rounds: one for each node taken, and one for each flow that starts at one of them. -/
def spent (flows : List Flow) (s : State) : ℕ :=
  s.released.length + flows.countP fun f => decide (f.source ∈ s.released)

theorem Inv.spent_step (h : Inv flows l) (hq : l.state.queue = n :: queue) :
    spent flows (step flows l.state) = spent flows l.state + ((targets flows n).length + 1) := by
  have hreleased : (step flows l.state).released = l.state.released ++ [n] := by
    rw [step_cons flows hq, released_foldl_arrive]
  rw [spent, spent, hreleased, countP_source_append (h.notMem_released hq), List.length_append, List.length_singleton]
  omega

/-- The loop of rounds, step by step. -/
theorem Inv.exists_iterate_eq_run (h : Inv flows l) (hpending : l.pending = []) (fuel : ℕ) :
    ∃ k, spent flows (run flows fuel l.state) = spent flows l.state + k ∧
      ((Loop.next flows)^[k] l).state = run flows fuel l.state ∧ ((Loop.next flows)^[k] l).pending = [] := by
  induction fuel generalizing l with
  | zero => exact ⟨0, rfl, rfl, hpending⟩
  | succ fuel ih =>
      rw [run]
      cases hq : l.state.queue with
      | nil => exact ⟨0, rfl, rfl, hpending⟩
      | cons n queue =>
          -- one round, and then the rounds that are left
          obtain ⟨hstate, hround⟩ := iterate_eq_step flows hpending hq
          obtain ⟨k, hspent, hrun⟩ := ih (h.iterate _) hround
          rw [hstate, h.spent_step hq] at hspent
          rw [hstate, ← Function.iterate_add_apply] at hrun
          simp only [List.isEmpty_cons, Bool.false_eq_true, if_false]
          exact ⟨k + ((targets flows n).length + 1), by omega, hrun⟩

def total (flows : List Flow) : ℕ := (order flows).length + (orderedFlows flows).length

/-- After so many steps the loop is done, and the nodes were taken in the order of release. -/
theorem done_after_total (flows : List Flow) :
    (after flows (total flows)).Done ∧ (after flows (total flows)).state.released = order flows := by
  obtain ⟨k, hspent, hstate, hpending⟩ := (inv_begin flows).exists_iterate_eq_run rfl (appearance flows).length
  obtain ⟨-, hend⟩ := run_spec (appearance flows).length (start flows) (inv_start flows) (Nat.le_add_right _ _)
  have hk : total flows = k := by
    have hstart : spent flows (begin flows).state = 0 := by simp [spent, begin, start]
    rw [hstart, Nat.zero_add] at hspent
    rw [← hspent, total, orderedFlows, List.length_mergeSort, ← List.countP_eq_length_filter]
    rfl
  rw [Done, after, hk, hpending, hstate]
  exact ⟨⟨rfl, hend⟩, rfl⟩

/-! ### Flows in the order of the ranks -/

/-- A flow from a node that was released finds the rank of that node, which is its place in the order of release. -/
theorem Inv.lookup_source (h : Inv flows l) (hend : l.state.released = order flows) {f : Flow}
    (hf : f ∈ orderedFlows flows) : l.ranks.lookup f.source = some ((order flows).idxOf f.source) := by
  rw [h.lookup_eq_some_iff, hend]
  exact List.getElem?_idxOf (source_mem_order_of_ordered hf)

theorem Inv.rank_eq (h : Inv flows l) (n : NodeRef) : l.rank n = l.state.released.idxOf n := by
  rw [rank]
  by_cases hn : n ∈ l.state.released
  · rw [h.lookup_eq_some_iff.mpr (List.getElem?_idxOf hn), Option.getD_some]
  · rw [AList.lookup_eq_none.mpr fun hmem => hn (h.mem_ranks.mp hmem), Option.getD_none, h.length_ranks,
      List.idxOf_eq_length hn]

theorem Inv.sorted_eq (h : Inv flows l) (hend : l.state.released = order flows) :
    l.sorted flows = sortFlows flows := by
  simp only [sorted, sortFlows, h.mem_ranks, h.rank_eq, hend]

/-- In the loop over any flows no node joins the queue twice, no counter is lowered that is at nothing, and the ranks are
the numbers below the number of nodes taken, each given once. The loop ends, with one step for each node released and one
for each flow from it, and its ranks are the order of the flows: each flow that is ordered by them has one. -/
theorem joins_once_and_ends (flows : List Flow) :
    (∀ k, (after flows k).joined.Nodup ∧
      (∀ t ts, (after flows k).pending = t :: ts → 0 < (after flows k).state.counters.get t) ∧
        ((after flows k).ranks.entries.map (·.2)).Perm (List.range (after flows k).state.released.length)) ∧
      (after flows (total flows)).Done ∧ (after flows (total flows)).sorted flows = sortFlows flows ∧
        ∀ f ∈ orderedFlows flows,
          (after flows (total flows)).ranks.lookup f.source = some ((order flows).idxOf f.source) := by
  obtain ⟨hdone, hend⟩ := done_after_total flows
  have hlast := inv_after flows (total flows)
  refine ⟨fun k => ?_, hdone, hlast.sorted_eq hend, fun f => hlast.lookup_source hend⟩
  have h := inv_after flows k
  exact ⟨h.nodup, fun t ts => h.counter_pos, h.ranks_perm⟩

/-- Two flows lead from one node to the same other one, which also has a loop: its counter stays at one, and it is never
taken. -/
example : (after [⟨none, .input 1, .transformation 2⟩, ⟨none, .input 1, .transformation 2⟩,
      ⟨none, .transformation 2, .transformation 2⟩, ⟨none, .input 1, .output 3⟩] 5).state =
    ⟨[], [.input 1, .output 3], [(.input 1, 0), (.transformation 2, 1), (.output 3, 0)]⟩ := by
  rfl

end Loop

end Pipeworks.Release
