import Pipeworks.Plan.Basic
import Pipeworks.Proofs.Plan.Order

/-!
Flows that were ordered stay as they are when they are ordered once more. The loop goes by the nodes that are ready at
first, the counters, and the flows from each node in turn. Ordering changes none of this: flows from one node keep
their order, and the nodes that are ready at first are released before all others, so the ordered flows name them in
the order of their release. The second time the queue goes the same way, also where a cycle blocks some of the nodes.
-/

namespace Pipeworks

namespace Release

variable {flows flows' : List Flow} {s t : State}

/-! ### Loops that go alike -/

/-- States from which the loop goes alike. The counters may stand in another order. -/
structure Alike (s t : State) : Prop where
  queue : s.queue = t.queue
  released : s.released = t.released
  counters : ∀ n, s.counters.get n = t.counters.get n

namespace Alike

theorem arrive (h : Alike s t) (n : NodeRef) : Alike (arrive s n) (arrive t n) := by
  have hlower : ∀ m, (s.counters.lower n).get m = (t.counters.lower n).get m := by
    intro m
    rw [Counters.get_lower, Counters.get_lower, h.counters]
  simp only [Release.arrive, hlower n]
  split_ifs
  · exact ⟨congrArg (· ++ [n]) h.queue, h.released, hlower⟩
  · exact ⟨h.queue, h.released, hlower⟩

theorem foldl_arrive (h : Alike s t) (ns : List NodeRef) :
    Alike (ns.foldl Release.arrive s) (ns.foldl Release.arrive t) := by
  induction ns generalizing s t with
  | nil => exact h
  | cons n ns ih => exact ih (h.arrive n)

theorem step (h : Alike s t) (htargets : ∀ n, targets flows n = targets flows' n) :
    Alike (step flows s) (step flows' t) := by
  have hqueue := h.queue
  cases hs : s.queue with
  | nil =>
      rw [hs] at hqueue
      rw [Release.step, Release.step, hs, ← hqueue]
      exact h
  | cons n queue =>
      rw [hs] at hqueue
      rw [step_cons flows hs, step_cons flows' hqueue.symm, ← htargets n]
      have hfront : Alike { s with queue, released := s.released ++ [n] }
          { t with queue, released := t.released ++ [n] } :=
        ⟨rfl, congrArg (· ++ [n]) h.released, h.counters⟩
      exact hfront.foldl_arrive _

theorem run (h : Alike s t) (htargets : ∀ n, targets flows n = targets flows' n) (fuel : ℕ) :
    Alike (run flows fuel s) (run flows' fuel t) := by
  induction fuel generalizing s t with
  | zero => exact h
  | succ fuel ih =>
      rw [Release.run, Release.run, ← h.queue]
      split_ifs
      · exact h
      · exact ih (h.step htargets)

end Alike

/-- The order of release depends on no more than this of the flows. -/
theorem order_congr (hperm : flows.Perm flows') (htargets : ∀ n, targets flows n = targets flows' n)
    (hready : (start flows).queue = (start flows').queue) : order flows = order flows' := by
  have hnodes : (appearance flows).Perm (appearance flows') := by
    refine (List.perm_ext_iff_of_nodup (nodup_appearance flows) (nodup_appearance flows')).mpr fun n => ?_
    simp only [mem_appearance, hperm.mem_iff]
  have hstart : Alike (start flows) (start flows') := by
    refine ⟨hready, rfl, fun n => ?_⟩
    rw [get_start, get_start]
    exact hperm.countP_eq _
  rw [order, order, hnodes.length_eq]
  exact (hstart.run htargets _).released

/-! ### The nodes that are ready at first -/

theorem mem_ready {n : NodeRef} :
    n ∈ (start flows).queue ↔ n ∈ appearance flows ∧ ∀ f ∈ flows, f.target ≠ n := by
  simp [queue_start, List.countP_eq_zero]

theorem nodup_ready (flows : List Flow) : (start flows).queue.Nodup := by
  rw [queue_start]
  exact (nodup_appearance flows).filter _

theorem queue_prefix_foldl_arrive (ns : List NodeRef) (s : State) : s.queue <+: (ns.foldl arrive s).queue := by
  induction ns generalizing s with
  | nil => exact List.prefix_rfl
  | cons n ns ih =>
      have hfirst : s.queue <+: (arrive s n).queue := by
        simp only [arrive]
        split_ifs
        · exact List.prefix_append _ _
        · exact List.prefix_rfl
      exact hfirst.trans (ih (arrive s n))

theorem prefix_step (flows : List Flow) (s : State) :
    s.released ++ s.queue <+: (step flows s).released ++ (step flows s).queue := by
  cases hs : s.queue with
  | nil =>
      have hstep : step flows s = s := by simp only [step, hs]
      exact ⟨[], by rw [hstep, hs, List.append_nil]⟩
  | cons n queue =>
      rw [step_cons _ hs, released_foldl_arrive, List.append_cons]
      exact (List.prefix_append_right_inj _).mpr
        (queue_prefix_foldl_arrive (targets flows n) { s with queue, released := s.released ++ [n] })

theorem prefix_run (flows : List Flow) (fuel : ℕ) (s : State) :
    s.released ++ s.queue <+: (run flows fuel s).released ++ (run flows fuel s).queue := by
  induction fuel generalizing s with
  | zero => exact List.prefix_rfl
  | succ fuel ih =>
      rw [run]
      split_ifs
      · exact List.prefix_rfl
      · exact (prefix_step flows s).trans (ih (step flows s))

theorem ready_prefix_order (flows : List Flow) : (start flows).queue <+: order flows := by
  obtain ⟨-, hend⟩ := run_spec (appearance flows).length (start flows) (inv_start flows) (Nat.le_add_right _ _)
  have hprefix := prefix_run flows (appearance flows).length (start flows)
  rw [hend, List.append_nil] at hprefix
  exact hprefix

theorem nodup_order (flows : List Flow) : (order flows).Nodup := by
  obtain ⟨s, hinv, hlist, -⟩ := inv_order flows
  exact hlist ▸ hinv.nodup

theorem pairwise_idxOf {ns : List NodeRef} (h : ns.Nodup) : ns.Pairwise fun a b => ns.idxOf a < ns.idxOf b := by
  refine List.pairwise_iff_getElem.mpr fun i j hi hj hlt => ?_
  rw [h.idxOf_getElem i hi, h.idxOf_getElem j hj]
  exact hlt

theorem pairwise_ready (flows : List Flow) :
    (start flows).queue.Pairwise fun a b => (order flows).idxOf a ≤ (order flows).idxOf b :=
  ((pairwise_idxOf (nodup_order flows)).sublist (ready_prefix_order flows).sublist).imp le_of_lt

end Release

open Release

variable {flows : List Flow}

/-! ### Flows that were ordered -/

theorem sortFlows_eq_append (flows : List Flow) :
    sortFlows flows = orderedFlows flows ++ flows.filter fun f => !decide (f.source ∈ order flows) := by
  rw [sortFlows]
  simp only [List.partition_eq_filter_filter]
  rfl

/-- Where a property holds of no end of a flow, the nodes that have it are named as starts only. -/
theorem filter_appearing (p : NodeRef → Bool) (fs : List Flow) (h : ∀ f ∈ fs, p f.target = false) :
    (fs.flatMap fun f => [f.source, f.target]).filter p = (fs.filter (p ·.source)).map (·.source) := by
  induction fs with
  | nil => rfl
  | cons f fs ih =>
      have hrest := ih fun f' hf' => h f' (List.mem_cons_of_mem _ hf')
      have htarget := h f List.mem_cons_self
      cases hsource : p f.source <;> simp [hsource, htarget, hrest]

/-- The ordered flows name the nodes that are ready at first in the order of their release. -/
theorem pairwise_ready_sortFlows (flows : List Flow) :
    (start (sortFlows flows)).queue.Pairwise fun a b => (order flows).idxOf a ≤ (order flows).idxOf b := by
  set p : NodeRef → Bool := fun n => decide ((sortFlows flows).countP (·.target = n) = 0) with hp
  have htarget : ∀ f ∈ sortFlows flows, p f.target = false := by
    intro f hf
    have hpos : 0 < (sortFlows flows).countP (·.target = f.target) :=
      List.countP_pos_iff.mpr ⟨f, hf, decide_eq_true rfl⟩
    exact decide_eq_false hpos.ne'
  have hleft : (flows.filter fun f => !decide (f.source ∈ order flows)).filter (p ·.source) = [] := by
    refine List.filter_eq_nil_iff.mpr fun f hf hready => ?_
    obtain ⟨hf, hsource⟩ := List.mem_filter.mp hf
    have hnone : ∀ f' ∈ flows, f'.target ≠ f.source := by
      simpa [hp, List.countP_eq_zero, mem_sortFlows] using hready
    have hmem := (ready_prefix_order flows).subset (mem_ready.mpr ⟨mem_appearance.mpr ⟨f, hf, .inl rfl⟩, hnone⟩)
    simp [hmem] at hsource
  rw [queue_start]
  refine List.Pairwise.sublist ((eraseDups_sublist _).filter p) ?_
  rw [filter_appearing p _ htarget, sortFlows_eq_append, List.filter_append, hleft, List.append_nil]
  exact List.pairwise_map.mpr ((pairwise_orderedFlows flows).sublist List.filter_sublist)

theorem ready_sortFlows (flows : List Flow) : (start (sortFlows flows)).queue = (start flows).queue := by
  have hperm : (start (sortFlows flows)).queue.Perm (start flows).queue := by
    refine (List.perm_ext_iff_of_nodup (nodup_ready _) (nodup_ready _)).mpr fun n => ?_
    simp only [mem_ready, mem_appearance, mem_sortFlows]
  refine hperm.eq_of_pairwise (fun a b _ hb hab hba => ?_) (pairwise_ready_sortFlows flows) (pairwise_ready flows)
  exact ((List.idxOf_inj ((ready_prefix_order flows).subset hb)).mp (le_antisymm hba hab)).symm

/-- Nodes are released in the same order the second time. -/
theorem order_sortFlows (flows : List Flow) : order (sortFlows flows) = order flows := by
  have htargets : ∀ n, targets (sortFlows flows) n = targets flows n := by
    intro n
    rw [targets, filter_source_sortFlows, targets]
  exact order_congr (sortFlows_perm flows) htargets (ready_sortFlows flows)

theorem source_mem_order_of_ordered {f : Flow} (hf : f ∈ orderedFlows flows) : f.source ∈ order flows := by
  obtain ⟨hmem, hfree⟩ := mem_orderedFlows.mp hf
  exact (source_mem_order_iff hmem).mpr hfree

theorem filter_ordered (flows : List Flow) :
    (sortFlows flows).filter (fun f => decide (f.source ∈ order flows)) = orderedFlows flows := by
  rw [sortFlows_eq_append, List.filter_append, List.filter_eq_self.mpr, List.filter_eq_nil_iff.mpr, List.append_nil]
  · intro f hf
    simpa using (List.mem_filter.mp hf).2
  · exact fun f hf => decide_eq_true (source_mem_order_of_ordered hf)

theorem filter_leftover (flows : List Flow) :
    (sortFlows flows).filter (fun f => !decide (f.source ∈ order flows)) =
      flows.filter fun f => !decide (f.source ∈ order flows) := by
  rw [sortFlows_eq_append, List.filter_append, List.filter_eq_nil_iff.mpr, List.nil_append, List.filter_filter]
  · simp only [Bool.and_self]
  · exact fun f hf => by simp [source_mem_order_of_ordered hf]

theorem sortFlows_sortFlows (flows : List Flow) : sortFlows (sortFlows flows) = sortFlows flows := by
  have hsorted : (orderedFlows flows).mergeSort
      (fun a b => (order flows).idxOf a.source ≤ (order flows).idxOf b.source) = orderedFlows flows :=
    List.mergeSort_of_pairwise ((pairwise_orderedFlows flows).imp decide_eq_true)
  calc sortFlows (sortFlows flows)
      = orderedFlows (sortFlows flows) ++
          (sortFlows flows).filter fun f => !decide (f.source ∈ order (sortFlows flows)) := sortFlows_eq_append _
    _ = orderedFlows flows ++ flows.filter fun f => !decide (f.source ∈ order flows) := by
        rw [orderedFlows, order_sortFlows, filter_ordered, filter_leftover, hsorted]
    _ = sortFlows flows := (sortFlows_eq_append flows).symm

/-- To order flows, whatever they are, brings them into an order that stays: ordered again they are the same list. So
the plan of a graph is also the plan of the graph that has its flows in the order of the plan. -/
theorem sorted_flows_stay :
    (∀ flows, sortFlows (sortFlows flows) = sortFlows flows) ∧
      ∀ g : Graph, Plan.compile { g with flows := sortFlows g.flows } = Plan.compile g := by
  refine ⟨sortFlows_sortFlows, fun g => ?_⟩
  simp only [Plan.compile, sortFlows_sortFlows]
  rfl

end Pipeworks
