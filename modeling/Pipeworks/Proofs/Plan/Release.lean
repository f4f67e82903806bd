import Pipeworks.Plan.Order
import Pipeworks.Proofs.Graph.Walk
import Mathlib.Data.List.Nodup
import Mathlib.Order.Lattice

/-!
The release of nodes. The invariant is about the nodes that were released together with those in the queue, in this
order: they are distinct, they are the nodes into which no flow from an unreleased node leads, and every flow into
one of them starts at an earlier one. A counter holds the number of the flows that are still to come in. A node is
never released exactly if it lies on a cycle or a cycle leads to it.
-/

namespace Pipeworks.Release

variable {flows : List Flow}

/-! ### Counters -/

theorem Counters.get_lower (cs : Counters) (n m : NodeRef) :
    (cs.lower n).get m = if m = n then cs.get m - 1 else cs.get m := by
  induction cs with
  | nil => simp [Counters.lower, Counters.get]
  | cons c cs ih =>
      obtain ⟨k, v⟩ := c
      simp only [Counters.lower, Counters.get, List.map_cons, List.find?_cons] at ih ⊢
      by_cases hkn : k = n <;> by_cases hkm : k = m
      · simp [hkn, ← hkm]
      · simpa [hkn, hkm, hkn ▸ hkm] using ih
      · simp [hkm, hkm ▸ hkn]
      · simpa [hkn, hkm] using ih

def waiting (flows : List Flow) (released : List NodeRef) (n : NodeRef) : ℕ :=
  flows.countP fun f => decide (f.target = n) && decide (f.source ∉ released)

theorem waiting_eq_zero_iff {released : List NodeRef} {n : NodeRef} :
    waiting flows released n = 0 ↔ ∀ f ∈ flows, f.target = n → f.source ∈ released := by
  simp [waiting, List.countP_eq_zero]

theorem mem_targets {n m : NodeRef} : m ∈ targets flows n ↔ ∃ f ∈ flows, f.source = n ∧ f.target = m := by
  simp [targets, and_assoc]

/-- The release of a node lets in the flows that start at it, and no others. -/
theorem waiting_append {released : List NodeRef} {n : NodeRef} (hn : n ∉ released) (m : NodeRef) :
    waiting flows released m = (targets flows n).count m + waiting flows (released ++ [n]) m := by
  induction flows with
  | nil => rfl
  | cons f flows ih =>
      simp only [waiting, targets, List.countP_cons, List.filter_cons] at ih ⊢
      by_cases hs : f.source = n <;> by_cases ht : f.target = m <;> by_cases hr : f.source ∈ released <;>
        simp_all <;> omega

theorem mem_appearance {n : NodeRef} : n ∈ appearance flows ↔ ∃ f ∈ flows, f.source = n ∨ f.target = n := by
  simp [appearance, eq_comm]

theorem nodup_appearance (flows : List Flow) : (appearance flows).Nodup := nodup_eraseDups _

theorem get_start (flows : List Flow) (n : NodeRef) : (start flows).counters.get n = waiting flows [] n := by
  have hget : ∀ ns : List NodeRef, Counters.get (ns.map fun m => (m, flows.countP (·.target = m))) n =
      if n ∈ ns then flows.countP (·.target = n) else 0 := by
    intro ns
    induction ns with
    | nil => simp [Counters.get]
    | cons m ns ih =>
        simp only [Counters.get, List.map_cons, List.find?_cons] at ih ⊢
        by_cases hmn : m = n
        · simp [hmn]
        · simpa [hmn, Ne.symm hmn] using ih
  have hwaiting : waiting flows [] n = flows.countP (·.target = n) := by simp [waiting]
  rw [hwaiting]
  change Counters.get ((appearance flows).map fun m => (m, flows.countP (·.target = m))) n = _
  rw [hget]
  split_ifs with hn
  · rfl
  · refine (List.countP_eq_zero.mpr fun f hf hft => hn ?_).symm
    exact mem_appearance.mpr ⟨f, hf, .inr (by simpa using hft)⟩

/-! ### The loop -/

structure Inv (flows : List Flow) (s : State) : Prop where
  nodup : (s.released ++ s.queue).Nodup
  ready : ∀ n, n ∈ s.released ++ s.queue ↔ n ∈ appearance flows ∧ waiting flows s.released n = 0
  counters : ∀ n, s.counters.get n = waiting flows s.released n
  before : ∀ f ∈ flows, f.target ∈ s.released ++ s.queue →
    (s.released ++ s.queue).idxOf f.source < (s.released ++ s.queue).idxOf f.target

theorem queue_start (flows : List Flow) :
    (start flows).queue = (appearance flows).filter fun n => decide (flows.countP (·.target = n) = 0) := by
  simp only [start, List.filter_map, List.map_map]
  exact List.map_id _

theorem inv_start (flows : List Flow) : Inv flows (start flows) := by
  have hqueue : (start flows).released ++ (start flows).queue =
      (appearance flows).filter fun n => decide (flows.countP (·.target = n) = 0) := queue_start flows
  have hready : ∀ n, n ∈ (start flows).released ++ (start flows).queue ↔
      n ∈ appearance flows ∧ waiting flows (start flows).released n = 0 := by
    intro n
    rw [hqueue]
    simp [waiting, start]
  refine ⟨?_, hready, get_start flows, fun f hf hft => ?_⟩
  · rw [hqueue]
    exact (nodup_appearance flows).filter _
  · have := waiting_eq_zero_iff.mp ((hready f.target).mp hft).2 f hf rfl
    simp [start] at this

/-- Flows come in one after another. Nodes whose last flow came in join the queue, each once. -/
theorem foldl_arrive (ts : List NodeRef) (s : State) (h : ∀ m, ts.count m ≤ s.counters.get m) :
    ∃ new, (ts.foldl arrive s).queue = s.queue ++ new ∧ (ts.foldl arrive s).released = s.released ∧
      (∀ m, (ts.foldl arrive s).counters.get m = s.counters.get m - ts.count m) ∧ new.Nodup ∧
      ∀ m, m ∈ new ↔ m ∈ ts ∧ s.counters.get m = ts.count m := by
  induction ts generalizing s with
  | nil => exact ⟨[], by simp, rfl, by simp, List.nodup_nil, by simp⟩
  | cons t ts ih =>
      have hget : ∀ m, (arrive s t).counters.get m = if m = t then s.counters.get m - 1 else s.counters.get m := by
        intro m
        rw [← Counters.get_lower]
        simp only [arrive]
        split_ifs <;> rfl
      have hcount : ∀ m, (t :: ts).count m = ts.count m + if m = t then 1 else 0 := by
        intro m
        rw [List.count_cons]
        by_cases hmt : m = t
        · simp [hmt]
        · simp [hmt, Ne.symm hmt]
      have hrest : ∀ m, ts.count m ≤ (arrive s t).counters.get m := by
        intro m
        have hm := h m
        rw [hcount] at hm
        rw [hget]
        split_ifs at hm ⊢ <;> omega
      obtain ⟨new, hqueue, hreleased, hcounters, hnodup, hmem⟩ := ih (arrive s t) hrest
      have ht := h t
      rw [hcount, if_pos rfl] at ht
      rw [List.foldl_cons]
      -- either this flow is the last one into its end, which joins here and not again, or more are to come
      by_cases hlast : s.counters.get t = 1
      · have hjoin : arrive s t = { s with queue := s.queue ++ [t], counters := s.counters.lower t } := by
          simp [arrive, Counters.get_lower, hlast]
        have hnone : ts.count t = 0 := by omega
        refine ⟨t :: new, by rw [hqueue, hjoin]; simp, by rw [hreleased, hjoin], fun m => ?_, ?_, fun m => ?_⟩
        · rw [hcounters, hget, hcount]
          split_ifs <;> omega
        · exact List.nodup_cons.mpr ⟨fun hmem' => List.count_eq_zero.mp hnone ((hmem t).mp hmem').1, hnodup⟩
        · rw [List.mem_cons, hmem, hget, hcount, List.mem_cons]
          by_cases hmt : m = t
          · simp [hmt, hlast, hnone]
          · simp [hmt]
      · have hstay : arrive s t = { s with counters := s.counters.lower t } := by
          have hne : s.counters.get t - 1 ≠ 0 := by omega
          simp [arrive, Counters.get_lower, hne]
        refine ⟨new, by rw [hqueue, hstay], by rw [hreleased, hstay], fun m => ?_, hnodup, fun m => ?_⟩
        · rw [hcounters, hget, hcount]
          split_ifs <;> omega
        · rw [hmem, hget, hcount, List.mem_cons]
          by_cases hmt : m = t
          · subst hmt
            simp only [if_pos, true_or, true_and]
            constructor
            · rintro ⟨-, hm⟩
              omega
            · intro hm
              have hpos : 0 < ts.count m := by omega
              exact ⟨List.count_pos_iff.mp hpos, by omega⟩
          · simp [hmt]

theorem step_cons (flows : List Flow) {s : State} {n : NodeRef} {queue : List NodeRef} (hq : s.queue = n :: queue) :
    step flows s = (targets flows n).foldl arrive { s with queue, released := s.released ++ [n] } := by
  simp only [step, hq, targets]

theorem inv_step {s : State} (h : Inv flows s) : Inv flows (step flows s) := by
  cases hq : s.queue with
  | nil => simpa [step, hq] using h
  | cons n queue =>
      obtain ⟨hnodup, hready, hcounters, hbefore⟩ := h
      rw [hq] at hnodup hready hbefore
      have hn : n ∉ s.released := fun hmem => (List.disjoint_of_nodup_append hnodup) hmem (by simp)
      have hstep := step_cons flows hq
      obtain ⟨new, hqueue, hreleased, hcounters', hnew, hmem⟩ := foldl_arrive (targets flows n)
        { s with queue, released := s.released ++ [n] } fun m => by
          simp only [hcounters, waiting_append hn]
          omega
      simp only [← hstep] at hqueue hreleased hcounters'
      simp only [hcounters, waiting_append hn] at hcounters' hmem
      have hlist : (step flows s).released ++ (step flows s).queue = (s.released ++ n :: queue) ++ new := by
        rw [hqueue, hreleased]
        simp
      have hnewMem : ∀ m, m ∈ new ↔ m ∈ targets flows n ∧ waiting flows (s.released ++ [n]) m = 0 := by
        intro m
        rw [hmem]
        exact and_congr_right fun _ => by omega
      -- ready is who was, and whose last flow has come in just now
      have hready' : ∀ m, m ∈ (step flows s).released ++ (step flows s).queue ↔
          m ∈ appearance flows ∧ waiting flows (step flows s).released m = 0 := by
        intro m
        rw [hlist, List.mem_append, hready, hnewMem, hreleased, waiting_append hn]
        constructor
        · rintro (⟨happ, hm⟩ | ⟨hm, hzero⟩)
          · exact ⟨happ, by omega⟩
          · obtain ⟨f, hf, -, hft⟩ := mem_targets.mp hm
            exact ⟨mem_appearance.mpr ⟨f, hf, .inr hft⟩, hzero⟩
        · rintro ⟨happ, hzero⟩
          by_cases hm : m ∈ targets flows n
          · exact .inr ⟨hm, hzero⟩
          · exact .inl ⟨happ, by rw [List.count_eq_zero.mpr hm]; omega⟩
      have hdisjoint : (s.released ++ n :: queue).Disjoint new := by
        intro m hm hmnew
        have hzero := ((hready m).mp hm).2
        rw [waiting_append hn] at hzero
        exact List.count_eq_zero.mp (by omega) ((hnewMem m).mp hmnew).1
      refine ⟨?_, hready', fun m => ?_, fun f hf hft => ?_⟩
      · rw [hlist]
        exact hnodup.append hnew hdisjoint
      · rw [hcounters', hreleased]
        omega
      · -- Earlier nodes keep their places, and what is new comes after the node just released.
        rw [hlist] at hft ⊢
        rcases List.mem_append.mp hft with hft | hft
        · have hlt := hbefore f hf hft
          have hfs : f.source ∈ s.released ++ n :: queue := by
            rw [← List.idxOf_lt_length_iff]
            exact hlt.trans_le (List.idxOf_le_length)
          rwa [List.idxOf_append_of_mem hfs, List.idxOf_append_of_mem hft]
        · have hfs : f.source ∈ s.released ++ [n] :=
            waiting_eq_zero_iff.mp ((hnewMem f.target).mp hft).2 f hf rfl
          have hfs' : f.source ∈ s.released ++ n :: queue := by
            simp only [List.mem_append, List.mem_cons] at hfs ⊢
            tauto
          rw [List.idxOf_append_of_mem hfs', List.idxOf_append_of_notMem fun h => hdisjoint h hft]
          exact (List.idxOf_lt_length_of_mem hfs').trans_le (Nat.le_add_right _ _)

theorem released_foldl_arrive (ts : List NodeRef) (s : State) : (ts.foldl arrive s).released = s.released := by
  induction ts generalizing s with
  | nil => rfl
  | cons t ts ih =>
      rw [List.foldl_cons, ih, arrive]
      split_ifs <;> rfl

theorem length_released_step {s : State} {n : NodeRef} {queue : List NodeRef} (hq : s.queue = n :: queue) :
    (step flows s).released.length = s.released.length + 1 := by
  rw [step_cons flows hq, released_foldl_arrive, List.length_append, List.length_singleton]

/-- The loop ends with an empty queue: every release takes one of the nodes that appear. -/
theorem run_spec (fuel : ℕ) (s : State) (h : Inv flows s)
    (hfuel : (appearance flows).length ≤ fuel + s.released.length) :
    Inv flows (run flows fuel s) ∧ (run flows fuel s).queue = [] := by
  induction fuel generalizing s with
  | zero =>
      have hsub : s.released ++ s.queue ⊆ appearance flows := fun n hn => ((h.ready n).mp hn).1
      have hlen := (List.subperm_of_subset h.nodup hsub).length_le
      rw [List.length_append] at hlen
      have hq : s.queue.length = 0 := by omega
      exact ⟨h, List.length_eq_zero_iff.mp hq⟩
  | succ fuel ih =>
      rw [run]
      split_ifs with hq
      · exact ⟨h, List.isEmpty_iff.mp hq⟩
      · obtain ⟨n, queue, hq'⟩ := List.exists_cons_of_ne_nil fun hnil => hq (List.isEmpty_iff.mpr hnil)
        refine ih (step flows s) (inv_step h) ?_
        rw [length_released_step hq']
        omega

/-! ### The order of release -/

theorem inv_order (flows : List Flow) :
    ∃ s, Inv flows s ∧ s.released ++ s.queue = order flows ∧ s.released = order flows := by
  obtain ⟨hinv, hq⟩ := run_spec (appearance flows).length (start flows) (inv_start flows) (Nat.le_add_right _ _)
  exact ⟨_, hinv, by rw [hq, List.append_nil, order], rfl⟩

/-- A flow into a released node starts at a node that was released before. -/
theorem idxOf_source_lt {f : Flow} (hf : f ∈ flows) (hft : f.target ∈ order flows) :
    (order flows).idxOf f.source < (order flows).idxOf f.target := by
  obtain ⟨s, hinv, hlist, -⟩ := inv_order flows
  exact hlist ▸ hinv.before f hf (hlist.symm ▸ hft)

theorem source_mem_order {f : Flow} (hf : f ∈ flows) (hft : f.target ∈ order flows) : f.source ∈ order flows :=
  List.idxOf_lt_length_iff.mp ((idxOf_source_lt hf hft).trans_le List.idxOf_le_length)

/-- Going along a walk to a released node, nodes were released one after another. -/
theorem idxOf_le_of_walk {a b : NodeRef} (h : Edges.Walk (Edges.ofFlows flows) a b) (hb : b ∈ order flows) :
    a ∈ order flows ∧ (order flows).idxOf a ≤ (order flows).idxOf b := by
  induction h with
  | here => exact ⟨hb, le_rfl⟩
  | @step a m b he _ ih =>
      obtain ⟨f, hf, rfl, rfl⟩ := Edges.mem_ofFlows.mp he
      have hm := ih hb
      exact ⟨source_mem_order hf hm.1, (idxOf_source_lt hf hm.1).le.trans hm.2⟩

theorem not_blocked_of_mem_order {n : NodeRef} (hn : n ∈ order flows) : ¬(Edges.ofFlows flows).Blocked n := by
  rintro ⟨m, ⟨x, hmx, hxm⟩, hmn⟩
  obtain ⟨f, hf, rfl, rfl⟩ := Edges.mem_ofFlows.mp hmx
  have hm := (idxOf_le_of_walk hmn hn).1
  have hx := idxOf_le_of_walk hxm hm
  exact absurd (idxOf_source_lt hf hx.1) (not_lt.mpr hx.2)

/-- Exactly the nodes off all cycles, to which no cycle leads, are released. -/
theorem mem_order {n : NodeRef} : n ∈ order flows ↔ n ∈ appearance flows ∧ ¬(Edges.ofFlows flows).Blocked n := by
  obtain ⟨s, hinv, hlist, hreleased⟩ := inv_order flows
  have hready : ∀ x, x ∈ order flows ↔ x ∈ appearance flows ∧ waiting flows (order flows) x = 0 :=
    fun x => by rw [← hreleased, ← hinv.ready, hlist, hreleased]
  constructor
  · exact fun hn => ⟨((hready n).mp hn).1, not_blocked_of_mem_order hn⟩
  · rintro ⟨happ, hfree⟩
    by_contra hn
    have hstuck : n ∈ appearance flows ∧ n ∉ order flows := ⟨happ, hn⟩
    refine hfree (Edges.blocked_of_predecessors (P := fun x => x ∈ appearance flows ∧ x ∉ order flows)
      (appearance flows) (fun x hx => ⟨hx.1, ?_⟩) hstuck)
    -- going back from a node that is stuck, one comes upon stuck nodes only
    have hwaits : ¬waiting flows (order flows) x = 0 := fun h => hx.2 ((hready x).mpr ⟨hx.1, h⟩)
    rw [waiting_eq_zero_iff] at hwaits
    push Not at hwaits
    obtain ⟨f, hf, rfl, hfs⟩ := hwaits
    exact ⟨f.source, ⟨mem_appearance.mpr ⟨f, hf, .inl rfl⟩, hfs⟩, Edges.mem_ofFlows.mpr ⟨f, hf, rfl, rfl⟩⟩

end Pipeworks.Release
