import Pipeworks.Proofs.Plan.Cluster

/-!
The wiring of a graph without errors is complete. Every stored node is fed by an input, so every flow is in the
cluster of some broker; a cluster leaves none of its flows unwired, so at the nodes that its inputs lead to the
topology has the flows of the graph as they are stored, and nowhere else any.
-/

namespace Pipeworks

theorem Graph.WellFormed.fed {g : Graph} (h : g.WellFormed) {n : NodeRef} (hn : n ∈ g.nodes) :
    ∃ i ∈ g.inputs, Edges.Walk g.edges (.input i.id) n := by
  simp only [nodes, List.mem_append, List.mem_map] at hn
  rcases hn with (⟨i, hi, rfl⟩ | ⟨t, ht, rfl⟩) | ⟨o, ho, rfl⟩
  · exact ⟨i, hi, .here _⟩
  · exact h.fedTransformations t ht
  · exact h.fedOutputs o ho

namespace Plan

variable {g : Graph} {k : ℕ} {b : String}

theorem mem_brokers {i : Endpoint} (hi : i ∈ g.inputs) : i.broker ∈ brokers g := by
  rw [brokers, List.mem_eraseDups]
  exact List.mem_map_of_mem hi

theorem ledTo_iff {n : NodeRef} :
    (∃ i ∈ (part g k b).inputs, Edges.Walk g.edges (.input i.id) n) ↔ g.LedTo b n := by
  constructor
  · rintro ⟨i, hi, hwalk⟩
    obtain ⟨hmem, hbroker⟩ := mem_inputs.mp hi
    exact ⟨i, hmem, hbroker, hwalk⟩
  · rintro ⟨i, hi, hbroker, hwalk⟩
    exact ⟨i, mem_inputs.mpr ⟨hi, hbroker⟩, hwalk⟩

theorem exists_mem_part_flows (h : g.WellFormed) {f : Flow} (hf : f ∈ g.flows) :
    ∃ c ∈ (brokers g).mapIdx (part g), f ∈ c.flows := by
  obtain ⟨i, hi, hwalk⟩ := h.fed (h.stored f hf).1
  obtain ⟨j, hj, hbroker⟩ := List.getElem_of_mem (mem_brokers hi)
  refine ⟨part g j (brokers g)[j], mem_parts.mpr ⟨j, hj, rfl⟩, (mem_flows h).mpr ⟨hf, i, hi, ?_, hwalk⟩⟩
  exact hbroker.symm

/-- Where no input of a cluster leads to, nothing is wired. -/
theorem children_build_part_eq_nil (h : g.WellFormed) (load : String → Step) {n : NodeRef} (hn : ¬g.LedTo b n) :
    (Topology.build load (part g k b)).children n = [] := by
  rw [Topology.children, edges_build_part h, Edges.next_ofFlows, List.map_eq_nil_iff, List.filter_eq_nil_iff]
  intro f hf hsource
  exact hn (of_decide_eq_true hsource ▸ ((mem_flows h).mp hf).2)

/-- The end of a flow of a cluster is a node that the inputs of the cluster lead to. -/
theorem ledTo_target (h : g.WellFormed) {f : Flow} (hf : f ∈ (part g k b).flows) : g.LedTo b f.target := by
  obtain ⟨hmem, hled⟩ := (mem_flows h).mp hf
  exact hled.step (Graph.mem_edges.mpr ⟨f, hmem, rfl, rfl⟩)

theorem ends_mem_edges_build (h : g.WellFormed) (load : String → Step) {f : Flow} (hf : f ∈ (part g k b).flows) :
    (f.source, f.target) ∈ (Topology.build load (part g k b)).edges := by
  rw [edges_build_part h]
  exact Edges.mem_ofFlows.mpr ⟨f, hf, rfl, rfl⟩

theorem step?_build_part (h : g.WellFormed) (load : String → Step) {f : Flow} (hf : f ∈ (part g k b).flows)
    {id : Int} (htarget : f.target = .transformation id) :
    ∃ t, g.transformation? id = some t ∧ (Topology.build load (part g k b)).step? id = some (load t.source) := by
  have hmem := ends_mem_edges_build h load hf
  have hled := ledTo_target h hf
  rw [htarget] at hmem hled
  obtain ⟨t, ht, hstep⟩ := Topology.step?_of_mem_edges hmem
  exact ⟨t, (transformation?_part hled).symm.trans ht, hstep⟩

theorem sink?_build_part (h : g.WellFormed) (load : String → Step) {f : Flow} (hf : f ∈ (part g k b).flows)
    {id : Int} (htarget : f.target = .output id) :
    ∃ o, g.output? id = some o ∧ (Topology.build load (part g k b)).sink? id = some (Sink.ofOutput b o) := by
  have hmem := ends_mem_edges_build h load hf
  have hled := ledTo_target h hf
  rw [htarget] at hmem hled
  obtain ⟨o, ho, hsink⟩ := Topology.sink?_of_mem_edges hmem
  exact ⟨o, (output?_part hled).symm.trans ho, hsink⟩

/-- An end of a flow of a cluster that is no input is where some flow of the cluster leads to. -/
theorem exists_flow_to (h : g.WellFormed) {f : Flow} (hf : f ∈ (part g k b).flows) {n : NodeRef}
    (hn : n ∈ [f.source, f.target]) (hkind : n.kind ≠ .input) : ∃ f' ∈ (part g k b).flows, f'.target = n := by
  rw [List.mem_pair] at hn
  rcases hn with rfl | rfl
  · obtain ⟨-, i, hi, hbroker, hwalk⟩ := (mem_flows h).mp hf
    rcases hwalk.last with heq | ⟨m, hwalk, hedge⟩
    · exact absurd (congrArg NodeRef.kind heq).symm hkind
    · obtain ⟨f', hf', rfl, htarget⟩ := Graph.mem_edges.mp hedge
      exact ⟨f', (mem_flows h).mpr ⟨hf', i, hi, hbroker, hwalk⟩, htarget⟩
  · exact ⟨f, hf, rfl⟩

/-- A graph about which no error is reported has a plan, each of its flows is in a cluster, and every cluster is
wired without leaving out a flow. At a node that the inputs of the cluster lead to, the children are the ends of all
flows from it as they are stored; at any other node there are none. The transformations and outputs at the ends of the
flows of a cluster have the steps and the sinks of the graph. -/
theorem build_complete (hpresent : g.presence = []) (hlint : ∀ d ∈ g.lint, d.severity ≠ .error)
    (load : String → Step) :
    ∃ plan, compile g = .ok plan ∧ (∀ f ∈ g.flows, ∃ c ∈ plan.clusters, f ∈ c.flows) ∧
      ∀ c ∈ plan.clusters,
        (Topology.build load c).edges = c.flows.map Flow.ends ∧
        (∀ n, (∃ i ∈ c.inputs, Edges.Walk g.edges (.input i.id) n) →
          (Topology.build load c).children n = (g.flows.filter fun f => decide (f.source = n)).map (·.target)) ∧
        (∀ n, (¬∃ i ∈ c.inputs, Edges.Walk g.edges (.input i.id) n) → (Topology.build load c).children n = []) ∧
        (∀ f ∈ c.flows, ∀ id, .transformation id ∈ [f.source, f.target] →
          ∃ t, g.transformation? id = some t ∧ (Topology.build load c).step? id = some (load t.source)) ∧
        ∀ f ∈ c.flows, ∀ id, .output id ∈ [f.source, f.target] →
          ∃ o, g.output? id = some o ∧ (Topology.build load c).sink? id = some (Sink.ofOutput c.broker o) := by
  have hwf := Graph.lint_iff_wellFormed.mp hlint
  refine ⟨_, compile_eq (Graph.presence_eq_nil_iff.mp hpresent).1, fun f hf => exists_mem_part_flows hwf hf, ?_⟩
  intro c hc
  obtain ⟨j, hj, rfl⟩ := mem_parts.mp hc
  refine ⟨edges_build_part hwf load, fun n hn => ?_, fun n hn => ?_, fun f hf id hend => ?_, fun f hf id hend => ?_⟩
  · rw [children_build_part hwf load (ledTo_iff.mp hn), Graph.edges_eq, Edges.next_ofFlows]
  · exact children_build_part_eq_nil hwf load fun hled => hn (ledTo_iff.mpr hled)
  · obtain ⟨f', hf', htarget⟩ := exists_flow_to hwf hf hend (by simp)
    exact step?_build_part hwf load hf' htarget
  · obtain ⟨f', hf', htarget⟩ := exists_flow_to hwf hf hend (by simp)
    exact sink?_build_part hwf load hf' htarget

/-- Two brokers whose inputs lead to one transformation. The flow from it is stored first, and one flow into it is
stored twice. -/
def meeting : Graph where
  pipeline := 3
  name := "meeting"
  inputs := [⟨1, none, "in", "near", none⟩, ⟨2, none, "in", "far", none⟩]
  outputs := [⟨1, none, "out", "near", none⟩]
  transformations := [⟨1, none, "keep", none, none⟩]
  flows := [⟨none, .transformation 1, .output 1⟩, ⟨none, .input 2, .transformation 1⟩,
    ⟨none, .input 1, .transformation 1⟩, ⟨none, .input 1, .transformation 1⟩]

/-- In the cluster of the first broker its input has its two flows as children and the other input has none. -/
theorem build_complete_meeting :
    ∃ c, (compile meeting).map (·.clusters.head?) = .ok (some c) ∧
      (Topology.build (fun _ value => .ok (some value)) c).children (.input 1) =
        [.transformation 1, .transformation 1] ∧
      (Topology.build (fun _ value => .ok (some value)) c).children (.input 2) = [] := by
  have hwf : meeting.WellFormed := Graph.wellFormed_iff.mp (by decide)
  obtain ⟨plan, hplan, -, hwired⟩ := build_complete (by decide : meeting.presence = [])
    (Graph.lint_iff_wellFormed.mpr hwf) (fun _ value => .ok (some value))
  obtain rfl : (⟨3, sortFlows meeting.flows, [part meeting 0 "near", part meeting 1 "far"]⟩ : Plan) = plan :=
    Except.ok.inj hplan
  obtain ⟨-, hchildren, hnone, -⟩ := hwired (part meeting 0 "near") (by simp)
  refine ⟨part meeting 0 "near", rfl, ?_, hnone _ ?_⟩
  · exact hchildren (.input 1) ⟨⟨1, none, "in", "near", none⟩, by decide, .here _⟩
  · rintro ⟨i, hi, hwalk⟩
    have hfirst : ∀ i ∈ (part meeting 0 "near").inputs, NodeRef.input i.id ≠ .input 2 := by decide
    -- no flow ends at an input, so a walk to one has no edge
    rcases hwalk.last with heq | ⟨m, -, hedge⟩
    · exact hfirst i hi heq
    · obtain ⟨f, hf, -, htarget⟩ := Graph.mem_edges.mp hedge
      exact (hwf.directed f hf).1 (congrArg NodeRef.kind htarget)

end Plan

end Pipeworks
