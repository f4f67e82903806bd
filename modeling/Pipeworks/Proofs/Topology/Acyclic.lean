import Pipeworks.Proofs.Topology.Wiring

/-!
The wiring of any cluster, whatever its flows are. A flow that would close a loop is left out, so the wired flows have
no cycle, and the flows ahead of a node grow fewer with each flow that is followed. An input leads to each wired flow,
and the flow ends at a transformation with a step or at an output with a sink.
-/

namespace Pipeworks

namespace Edges

variable {es : Edges} {a b x y n m : NodeRef}

/-- A walk along old edges and a new one: along old ones only, or to the new one first and from its end at last. -/
theorem Walk.of_concat (h : Walk (es ++ [(a, b)]) x y) : Walk es x y ∨ Walk es x a ∧ Walk es b y := by
  induction h with
  | here => exact .inl (.here _)
  | @step x z y he _ ih =>
      obtain he | he := List.mem_append.mp he
      · obtain hold | ⟨hto, hfrom⟩ := ih
        · exact .inl (.step he hold)
        · exact .inr ⟨.step he hto, hfrom⟩
      · obtain ⟨rfl, rfl⟩ := Prod.mk.inj (List.mem_singleton.mp he)
        obtain hold | ⟨-, hfrom⟩ := ih
        · exact .inr ⟨.here _, hold⟩
        · exact .inr ⟨.here _, hfrom⟩

/-- A new edge whose end does not lead to its start closes no cycle. -/
theorem acyclic_concat (hacyclic : ∀ n, ¬es.OnCycle n) (hback : ¬Walk es b a) (n : NodeRef) :
    ¬(es ++ [(a, b)]).OnCycle n := by
  rintro ⟨m, he, hwalk⟩
  obtain he | he := List.mem_append.mp he
  · obtain hold | ⟨hto, hfrom⟩ := hwalk.of_concat
    · exact hacyclic n ⟨m, he, hold⟩
    · exact hback (hfrom.trans (.step he hto))
  · obtain ⟨rfl, rfl⟩ := Prod.mk.inj (List.mem_singleton.mp he)
    obtain hold | ⟨hto, -⟩ := hwalk.of_concat
    · exact hback hold
    · exact hback hto

/-- How many edges start at a node that this one leads to, or at this one. -/
def ahead (es : Edges) (n : NodeRef) : ℕ := es.countP fun e => es.reaches n e.1

theorem ahead_le (es : Edges) (n : NodeRef) : es.ahead n ≤ es.length := List.countP_le_length

theorem ahead_lt (hacyclic : ∀ n, ¬es.OnCycle n) (he : (n, m) ∈ es) : es.ahead m < es.ahead n := by
  have hmono : ∀ e ∈ es, es.reaches m e.1 = true → es.reaches n e.1 = true := by
    intro e _ hm
    exact reaches_iff.mpr (.step he (reaches_iff.mp hm))
  have hn : es.reaches n n = true := reaches_iff.mpr (.here n)
  -- the edge itself is ahead of its start, and not of its end
  have hm : es.reaches m n = false := by
    rw [Bool.eq_false_iff]
    exact fun hback => hacyclic n ⟨m, he, reaches_iff.mp hback⟩
  obtain ⟨before, after, heq⟩ := List.append_of_mem he
  have hbefore : before.countP (fun e => es.reaches m e.1) ≤ before.countP fun e => es.reaches n e.1 :=
    List.countP_mono_left fun e h => hmono e (by simp [heq, h])
  have hafter : after.countP (fun e => es.reaches m e.1) ≤ after.countP fun e => es.reaches n e.1 :=
    List.countP_mono_left fun e h => hmono e (by simp [heq, h])
  have hcount : ∀ x, es.ahead x = before.countP (fun e => es.reaches x e.1) +
      (after.countP (fun e => es.reaches x e.1) + if es.reaches x n then 1 else 0) := by
    intro x
    rw [ahead, ← List.countP_cons (a := (n, m)), ← List.countP_append, ← heq]
  rw [hcount m, hcount n, hm, hn]
  simp only [Bool.false_eq_true, if_false, if_true]
  omega

end Edges

namespace Topology

variable {load : String → Step} {c : Cluster} {t : Topology}

/-- What holds without flows, and still when one more is wired, holds of the wiring of a cluster. -/
theorem build_induction {P : Edges → Prop} (hempty : P [])
    (hwire : ∀ (t : Topology) (f : Flow), P t.edges → t.admits c f = true → c.takes f.target = true →
      P (t.edges ++ [f.ends])) :
    P (build load c).edges := by
  have hfold : ∀ (flows : List Flow) (t : Topology), P t.edges → P (flows.foldl (wire load c) t).edges := by
    intro flows
    induction flows with
    | nil => exact fun t ht => ht
    | cons f flows ih =>
        intro t ht
        refine ih _ ?_
        rw [edges_wire]
        split_ifs with hwired
        · obtain ⟨hadmits, htakes⟩ := Bool.and_eq_true_iff.mp hwired
          exact hwire t f ht hadmits htakes
        · exact ht
  exact hfold c.flows {} hempty

theorem acyclic_build (load : String → Step) (c : Cluster) (n : NodeRef) : ¬(build load c).edges.OnCycle n := by
  refine build_induction (P := fun es => ∀ n, ¬es.OnCycle n) ?_ (fun t f hacyclic hadmits _ => ?_) n
  · rintro n ⟨m, he, -⟩
    exact absurd he List.not_mem_nil
  · refine Edges.acyclic_concat hacyclic fun hback => ?_
    rw [Topology.admits, Edges.reaches_iff.mpr hback, Bool.and_eq_true] at hadmits
    exact absurd hadmits.2 (by decide)

theorem takes_of_mem_edges {n m : NodeRef} (h : (n, m) ∈ (build load c).edges) : c.takes m = true := by
  refine build_induction (P := fun es => ∀ n m, (n, m) ∈ es → c.takes m = true) ?_
    (fun t f ih _ htakes n m h => ?_) n m h
  · exact fun n m h => absurd h List.not_mem_nil
  · obtain h | h := List.mem_append.mp h
    · exact ih n m h
    · exact (Prod.mk.inj (List.mem_singleton.mp h)).2 ▸ htakes

theorem edges_build_sublist (load : String → Step) (c : Cluster) :
    (build load c).edges.Sublist (c.flows.map Flow.ends) := by
  have hfold : ∀ (flows : List Flow) (t : Topology),
      (flows.foldl (wire load c) t).edges.Sublist (t.edges ++ flows.map Flow.ends) := by
    intro flows
    induction flows with
    | nil => exact fun t => by rw [List.map_nil, List.append_nil]; exact .refl _
    | cons f flows ih =>
        intro t
        have hrest := ih (wire load c t f)
        rw [edges_wire] at hrest
        rw [List.foldl_cons, List.map_cons, ← List.singleton_append, ← List.append_assoc]
        split_ifs at hrest
        · exact hrest
        · exact hrest.trans ((List.sublist_append_left _ _).append_right _)
  exact hfold c.flows {}

theorem fed_of_mem_edges {n m : NodeRef} (h : (n, m) ∈ (build load c).edges) :
    ∃ i ∈ c.inputs, Edges.Walk (build load c).edges (.input i.id) n := by
  refine build_induction (P := fun es => ∀ n m, (n, m) ∈ es → ∃ i ∈ c.inputs, Edges.Walk es (.input i.id) n) ?_
    (fun t f ih hadmits _ n m h => ?_) n m h
  · exact fun n m h => absurd h List.not_mem_nil
  · have hold {n m : NodeRef} (h : (n, m) ∈ t.edges) :
        ∃ i ∈ c.inputs, Edges.Walk (t.edges ++ [f.ends]) (.input i.id) n := by
      obtain ⟨i, hi, hwalk⟩ := ih n m h
      exact ⟨i, hi, hwalk.mono (List.subset_append_left _ _)⟩
    obtain h | h := List.mem_append.mp h
    · exact hold h
    · obtain ⟨rfl, -⟩ := Prod.mk.inj (List.mem_singleton.mp h)
      -- the start of an admitted flow is an input, or an earlier flow ends there
      have hlive : t.live c f.source = true := (Bool.and_eq_true_iff.mp hadmits).1
      rw [live, Bool.or_eq_true, decide_eq_true_iff, List.mem_map, List.any_eq_true] at hlive
      rcases hlive with ⟨i, hi, hsource⟩ | ⟨⟨p, q⟩, hedge, hsource⟩
      · exact ⟨i, hi, hsource ▸ .here _⟩
      · obtain rfl : q = f.source := of_decide_eq_true hsource
        obtain ⟨i, hi, hwalk⟩ := hold hedge
        exact ⟨i, hi, hwalk.snoc (List.mem_append_left _ hedge)⟩

def Fitted (t : Topology) (m : NodeRef) : Prop :=
  (∃ id step, m = .transformation id ∧ t.step? id = some step) ∨ ∃ id sink, m = .output id ∧ t.sink? id = some sink

theorem fitted_of_mem_children {n m : NodeRef} (h : m ∈ (build load c).children n) : (build load c).Fitted m := by
  have hmem := Edges.mem_next.mp h
  obtain ⟨kind, id⟩ := m
  cases kind with
  | input => exact absurd (takes_of_mem_edges hmem) (by simp [Cluster.takes])
  | transformation =>
      obtain ⟨node, -, hstep⟩ := step?_of_mem_edges hmem
      exact .inl ⟨id, _, rfl, hstep⟩
  | output =>
      obtain ⟨node, -, hsink⟩ := sink?_of_mem_edges hmem
      exact .inr ⟨id, _, rfl, hsink⟩

end Topology

end Pipeworks
