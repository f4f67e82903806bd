import Pipeworks.Plan.Basic
import Pipeworks.Proofs.Plan.Order
import Pipeworks.Proofs.Graph.Route
import Pipeworks.Proofs.Topology.Wiring
import Mathlib.Data.List.Find

/-!
The clusters of a plan. A cluster holds the inputs of one broker and all that walks from them lead to, so at the
nodes that it reaches nothing is missing: the flows of a well-formed graph from such a node are all wired, in the
order of the graph, and the steps and the outputs at their ends are those of the graph.
-/

namespace Pipeworks

/-- A topology that behaves like a graph at the nodes of a set that no flow leaves: it has the same children there,
and at each of them the step or the sink of the graph. -/
structure Topology.Follows (t : Topology) (g : Graph) (load : String → Step) (broker : String)
    (P : NodeRef → Prop) : Prop where
  closed : ∀ n m, (n, m) ∈ g.edges → P n → P m
  children : ∀ n, P n → t.children n = g.edges.next n
  stepAt : ∀ n id, P n → (n, .transformation id) ∈ g.edges → t.step? id = some (g.stepAt load id)
  sinkAt : ∀ n id, P n → (n, .output id) ∈ g.edges →
    ∃ o, g.output? id = some o ∧ t.sink? id = some (Sink.ofOutput broker o)

namespace Graph

def LedTo (g : Graph) (broker : String) (n : NodeRef) : Prop :=
  ∃ i ∈ g.inputs, i.broker = broker ∧ Edges.Walk g.edges (.input i.id) n

theorem LedTo.step {g : Graph} {b : String} {n m : NodeRef} (h : g.LedTo b n) (he : (n, m) ∈ g.edges) :
    g.LedTo b m := by
  obtain ⟨i, hi, hbroker, hwalk⟩ := h
  exact ⟨i, hi, hbroker, hwalk.snoc he⟩

theorem WellFormed.not_blocked {g : Graph} (h : g.WellFormed) (n : NodeRef) : ¬g.edges.Blocked n := by
  rintro ⟨m, hm, -⟩
  exact h.acyclic m hm

end Graph

namespace Plan

variable {g : Graph} {k : ℕ} {b : String}

abbrev part (g : Graph) (k : ℕ) (b : String) : Cluster := cluster g (sortFlows g.flows) k b

theorem compile_eq (h : g.inputs ≠ []) :
    compile g = .ok ⟨g.pipeline, sortFlows g.flows, (brokers g).mapIdx (part g)⟩ := by
  rw [compile, if_neg (by simpa using h)]

theorem mem_parts {c : Cluster} : c ∈ (brokers g).mapIdx (part g) ↔ ∃ (k : ℕ) (h : k < (brokers g).length),
    c = part g k (brokers g)[k] := by
  simp [List.mem_mapIdx, eq_comm]

/-! ### What a cluster holds -/

theorem mem_inputs {i : Endpoint} : i ∈ (part g k b).inputs ↔ i ∈ g.inputs ∧ i.broker = b := by
  simp [cluster]

theorem mem_reached_part {n : NodeRef} :
    n ∈ Edges.reached ((sortFlows g.flows).map Flow.ends) ((g.inputs.filter (·.broker = b)).map (.input ·.id)) ↔
      g.LedTo b n := by
  have hsub : Edges.ofFlows (sortFlows g.flows) ⊆ g.edges := List.map_subset _ (sortFlows_perm g.flows).subset
  have hsup : g.edges ⊆ Edges.ofFlows (sortFlows g.flows) := List.map_subset _ (sortFlows_perm g.flows).symm.subset
  rw [Edges.mem_reached]
  constructor
  · rintro ⟨a, ha, hwalk⟩
    obtain ⟨i, hi, rfl⟩ := List.mem_map.mp ha
    obtain ⟨himem, hbroker⟩ := List.mem_filter.mp hi
    exact ⟨i, himem, of_decide_eq_true hbroker, hwalk.mono hsub⟩
  · rintro ⟨i, hi, hbroker, hwalk⟩
    exact ⟨.input i.id, List.mem_map_of_mem (List.mem_filter.mpr ⟨hi, decide_eq_true hbroker⟩), hwalk.mono hsup⟩

theorem mem_flows (h : g.WellFormed) {f : Flow} :
    f ∈ (part g k b).flows ↔ f ∈ g.flows ∧ g.LedTo b f.source := by
  simp only [cluster, List.mem_filter, decide_eq_true_eq, mem_reached_part, mem_sortFlows]
  exact and_congr_right fun hf => and_iff_left (Graph.contains_iff.mpr (h.stored f hf).2)

theorem edges_part_subset (h : g.WellFormed) : Edges.ofFlows (part g k b).flows ⊆ g.edges :=
  List.map_subset _ fun _ hf => ((mem_flows h).mp hf).1

/-- A filter that keeps all that is looked for does not change what is found first. -/
theorem find?_filter_of_imp {α : Type} {p q : α → Bool} (xs : List α) (h : ∀ x, q x = true → p x = true) :
    (xs.filter p).find? q = xs.find? q := by
  rw [List.find?_filter]
  refine List.find?_congr fun x _ => ?_
  cases hq : q x
  · simp
  · simp [h x hq]

theorem transformation?_part {id : Int} (h : g.LedTo b (.transformation id)) :
    (part g k b).transformation? id = g.transformation? id := by
  refine find?_filter_of_imp g.transformations fun t ht => ?_
  rw [of_decide_eq_true ht]
  exact decide_eq_true (mem_reached_part.mpr h)

theorem output?_part {id : Int} (h : g.LedTo b (.output id)) : (part g k b).output? id = g.output? id := by
  refine find?_filter_of_imp g.outputs fun o ho => ?_
  rw [of_decide_eq_true ho]
  exact decide_eq_true (mem_reached_part.mpr h)

/-- Where a flow of a well-formed graph starts in a cluster, the cluster takes its target. -/
theorem takes_target (h : g.WellFormed) {f : Flow} (hf : f ∈ (part g k b).flows) :
    (part g k b).takes f.target = true := by
  obtain ⟨hmem, hled⟩ := (mem_flows h).mp hf
  have htarget : g.LedTo b f.target := hled.step (Graph.mem_edges.mpr ⟨f, hmem, rfl, rfl⟩)
  have hstored := Graph.contains_iff.mpr (h.stored f hmem).2
  have hdirected := (h.directed f hmem).1
  cases hkind : f.target.kind with
  | input => exact absurd hkind hdirected
  | transformation =>
      rw [NodeRef.eq_of_kind hkind] at htarget hstored ⊢
      rw [Cluster.takes, transformation?_part htarget]
      exact hstored
  | output =>
      rw [NodeRef.eq_of_kind hkind] at htarget hstored ⊢
      rw [Cluster.takes, output?_part htarget]
      exact hstored

/-! ### The wiring of a cluster -/

/-- The order of the plan lets all flows of a cluster be wired one after another. -/
theorem ordered_part (h : g.WellFormed) (k : ℕ) (b : String) : Topology.Ordered (part g k b) := by
  refine ⟨fun f hf => takes_target h hf, fun earlier f later hflows => ?_, fun n hn => ?_⟩
  · have hf : f ∈ (part g k b).flows := by simp [hflows]
    obtain ⟨i, hi, hbroker, hwalk⟩ := ((mem_flows h).mp hf).2
    rcases hwalk.last with heq | ⟨m, hwalk, hm⟩
    · exact .inl ⟨i, mem_inputs.mpr ⟨hi, hbroker⟩, heq⟩
    · right
      obtain ⟨f', hf', hsource, htarget⟩ := Graph.mem_edges.mp hm
      have hmem : f' ∈ (part g k b).flows := (mem_flows h).mpr ⟨hf', i, hi, hbroker, hsource ▸ hwalk⟩
      have hpairs : (part g k b).flows.Pairwise fun x y => ¬(x.source = f.source ∧ y.target = f.source) :=
        (pairwise_sortFlows g.flows (h.not_blocked f.source)).sublist List.filter_sublist
      rw [hflows, List.pairwise_append] at hpairs
      rw [hflows] at hmem
      -- the flow into the node is neither the flow itself, which would be a loop, nor one after it
      rcases List.mem_append.mp hmem with hmem | hmem
      · exact ⟨f', hmem, htarget⟩
      · rcases List.mem_cons.mp hmem with rfl | hmem
        · exact absurd ⟨f'.source, Graph.mem_edges.mpr ⟨f', hf', rfl, htarget⟩, .here _⟩ (h.acyclic f'.source)
        · exact absurd ⟨rfl, htarget⟩ (List.rel_of_pairwise_cons hpairs.2.1 hmem)
  · exact h.acyclic n (hn.mono (edges_part_subset h))

theorem edges_build_part (h : g.WellFormed) (load : String → Step) :
    (Topology.build load (part g k b)).edges = Edges.ofFlows (part g k b).flows :=
  Topology.edges_build_of_ordered load (ordered_part h k b)

theorem mem_edges_build_part (h : g.WellFormed) (load : String → Step) {n m : NodeRef} (hn : g.LedTo b n)
    (he : (n, m) ∈ g.edges) : (n, m) ∈ (Topology.build load (part g k b)).edges := by
  obtain ⟨f, hf, rfl, rfl⟩ := Graph.mem_edges.mp he
  rw [edges_build_part h]
  exact Edges.mem_ofFlows.mpr ⟨f, (mem_flows h).mpr ⟨hf, hn⟩, rfl, rfl⟩

/-- At a node that the cluster reaches all flows of the graph are wired, in the order of the graph. -/
theorem children_build_part (h : g.WellFormed) (load : String → Step) {n : NodeRef} (hn : g.LedTo b n) :
    (Topology.build load (part g k b)).children n = g.edges.next n := by
  rw [Topology.children, edges_build_part h, Graph.edges_eq, Edges.next_ofFlows, Edges.next_ofFlows,
    ← filter_source_sortFlows g.flows n]
  congr 1
  simp only [cluster, List.filter_filter]
  refine List.filter_congr fun f hf => ?_
  by_cases hsource : f.source = n
  · have hreached := mem_reached_part.mpr hn
    have hstored := Graph.contains_iff.mpr (h.stored f (mem_sortFlows.mp hf)).2
    simp [hsource, hreached, hstored]
  · simp [hsource]

theorem follows_build_part (h : g.WellFormed) (load : String → Step) (k : ℕ) (b : String) :
    (Topology.build load (part g k b)).Follows g load b (g.LedTo b) := by
  refine ⟨fun n m he hn => hn.step he, fun n hn => children_build_part h load hn, ?_, ?_⟩
  · intro n id hn he
    obtain ⟨node, hnode, hstep⟩ := Topology.step?_of_mem_edges (mem_edges_build_part h load hn he)
    rw [transformation?_part (hn.step he)] at hnode
    rw [hstep]
    congr 1
    funext value
    rw [Graph.stepAt, hnode]
  · intro n id hn he
    obtain ⟨node, hnode, hsink⟩ := Topology.sink?_of_mem_edges (mem_edges_build_part h load hn he)
    rw [output?_part (hn.step he)] at hnode
    exact ⟨node, hnode, hsink⟩

/-- A route from a node of a cluster is no longer than the wiring of the cluster. -/
theorem length_le_of_isRoute (h : g.WellFormed) (load : String → Step) {n : NodeRef} (hn : g.LedTo b n)
    {p : List (Fin g.flows.length)} (hp : g.IsRoute n p) :
    p.length ≤ (Topology.build load (part g k b)).edges.length := by
  refine hp.length_le h.acyclic fun m x hwalk he => ?_
  exact mem_edges_build_part h load (hwalk.stays (P := g.LedTo b) (fun _ _ he hx => hx.step he) hn) he

end Plan

end Pipeworks
