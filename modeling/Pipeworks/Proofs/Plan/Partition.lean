import Pipeworks.Proofs.Appearance
import Pipeworks.Proofs.Topology.Completeness
import Mathlib.Data.List.Perm.Basic

/-!
What a plan makes of a graph, be it well-formed or not. The inputs are parted by broker, and every cluster holds
what walks from its inputs lead to. No flow leads out of a cluster: at the end of each of its flows it finds the same
record as the graph, so a worker needs nothing but its own cluster.
-/

namespace Pipeworks

/-! ### Lists parted by a key -/

section Keys

variable {α β : Type} [DecidableEq β]

theorem perm_flatMap_filter (key : α → β) (xs : List α) {ks : List β} (hks : ks.Nodup) :
    (ks.flatMap fun k => xs.filter (key · = k)).Perm (xs.filter (key · ∈ ks)) := by
  induction ks with
  | nil => simp
  | cons k ks ih =>
      obtain ⟨hk, hks⟩ := List.nodup_cons.mp hks
      have hhead : (xs.filter (key · ∈ k :: ks)).filter (key · = k) = xs.filter (key · = k) := by
        rw [List.filter_filter]
        exact List.filter_congr fun x _ => by by_cases hx : key x = k <;> simp [hx]
      have hrest : (xs.filter (key · ∈ k :: ks)).filter (fun x => !decide (key x = k)) =
          xs.filter (key · ∈ ks) := by
        rw [List.filter_filter]
        refine List.filter_congr fun x _ => ?_
        by_cases hx : key x = k
        · simp [hx, hk]
        · simp [hx]
      rw [List.flatMap_cons]
      refine ((ih hks).append_left _).trans ?_
      rw [← hhead, ← hrest]
      exact List.filter_append_perm _ _

end Keys

/-! ### What a cluster reaches -/

def Cluster.Reaches (c : Cluster) (g : Graph) (n : NodeRef) : Prop :=
  ∃ i ∈ c.inputs, Edges.Walk g.edges (.input i.id) n

instance (c : Cluster) (g : Graph) : DecidablePred (c.Reaches g) := fun n =>
  decidable_of_iff (n ∈ g.edges.reached (c.inputs.map (.input ·.id))) (by
    simp [Edges.mem_reached, Cluster.Reaches])

/-- A cluster that holds the inputs of its broker and what they lead to, in the order of the graph and of the given
flows. Whatever a flow of it ends at, the cluster finds it as the graph does. -/
structure Cluster.Holds (c : Cluster) (g : Graph) (flows : List Flow) : Prop where
  inputs : c.inputs = g.inputs.filter (·.broker = c.broker)
  occupied : c.inputs ≠ []
  flows : c.flows = flows.filter fun f => c.Reaches g f.source ∧ g.contains f.target
  transformations : c.transformations = g.transformations.filter fun t => c.Reaches g (.transformation t.id)
  outputs : c.outputs = g.outputs.filter fun o => c.Reaches g (.output o.id)
  transformationAt : ∀ f ∈ c.flows, ∀ id, f.target = .transformation id →
    ∃ t, c.transformation? id = some t ∧ g.transformation? id = some t
  outputAt : ∀ f ∈ c.flows, ∀ id, f.target = .output id →
    ∃ o, c.output? id = some o ∧ g.output? id = some o

/-- A plan with one cluster for each broker of an input: the brokers stand as they first appear and the clusters are
numbered in that order, every input is in one cluster only, and the flows of the graph are all there. -/
structure Plan.Partitions (p : Plan) (g : Graph) : Prop where
  indices : p.clusters.map (·.index) = List.range p.clusters.length
  brokers : ∀ b, b ∈ p.clusters.map (·.broker) ↔ b ∈ g.inputs.map (·.broker)
  appearance : (p.clusters.map (·.broker)).Pairwise fun a b =>
    (g.inputs.map (·.broker)).idxOf a < (g.inputs.map (·.broker)).idxOf b
  inputs : (p.clusters.flatMap (·.inputs)).Perm g.inputs
  once : ∀ i ∈ g.inputs, ∃! c, c ∈ p.clusters ∧ i ∈ c.inputs
  flows : p.flows.Perm g.flows
  clusters : ∀ c ∈ p.clusters, c.Holds g p.flows

namespace Plan

variable {g : Graph} {k : ℕ} {b : String}

theorem reaches_part {n : NodeRef} : (part g k b).Reaches g n ↔ g.LedTo b n := ledTo_iff

theorem mem_flows_part {f : Flow} :
    f ∈ (part g k b).flows ↔ f ∈ g.flows ∧ g.LedTo b f.source ∧ g.contains f.target = true := by
  simp [cluster, mem_reached_part, mem_sortFlows]

theorem ledTo_target_part {f : Flow} (hf : f ∈ (part g k b).flows) : g.LedTo b f.target := by
  obtain ⟨hmem, hled, -⟩ := mem_flows_part.mp hf
  exact hled.step (Graph.mem_edges.mpr ⟨f, hmem, rfl, rfl⟩)

theorem holds_part (hb : b ∈ brokers g) : (part g k b).Holds g (sortFlows g.flows) where
  inputs := rfl
  occupied := by
    obtain ⟨i, hi, hbroker⟩ := List.mem_map.mp (List.mem_eraseDups.mp hb)
    exact List.ne_nil_of_mem (mem_inputs.mpr ⟨hi, hbroker⟩)
  flows := List.filter_congr fun f _ =>
    decide_eq_decide.mpr (and_congr_left' (mem_reached_part.trans reaches_part.symm))
  transformations := List.filter_congr fun t _ => decide_eq_decide.mpr (mem_reached_part.trans reaches_part.symm)
  outputs := List.filter_congr fun o _ => decide_eq_decide.mpr (mem_reached_part.trans reaches_part.symm)
  transformationAt := fun f hf id htarget => by
    have hled := ledTo_target_part hf
    have hstored := (mem_flows_part.mp hf).2.2
    rw [htarget] at hled hstored
    obtain ⟨t, ht⟩ := Option.isSome_iff_exists.mp hstored
    exact ⟨t, (transformation?_part hled).trans ht, ht⟩
  outputAt := fun f hf id htarget => by
    have hled := ledTo_target_part hf
    have hstored := (mem_flows_part.mp hf).2.2
    rw [htarget] at hled hstored
    obtain ⟨o, ho⟩ := Option.isSome_iff_exists.mp hstored
    exact ⟨o, (output?_part hled).trans ho, ho⟩

/-- What depends on the broker of a cluster only is the same as for the list of brokers. -/
theorem map_parts {α : Type} (g : Graph) {q : Cluster → α} {r : String → α} (h : ∀ k b, q (part g k b) = r b) :
    ((brokers g).mapIdx (part g)).map q = (brokers g).map r := by
  have hfst : (brokers g).map r = (brokers g).zipIdx.map (r ∘ Prod.fst) := by
    rw [← List.map_map, List.zipIdx_map_fst]
  rw [hfst, List.mapIdx_eq_zipIdx_map, List.map_map]
  exact List.map_congr_left fun x _ => h x.2 x.1

theorem map_broker_parts (g : Graph) : ((brokers g).mapIdx (part g)).map (·.broker) = brokers g :=
  (map_parts g fun _ _ => rfl).trans (List.map_id _)

theorem map_index_parts (g : Graph) :
    ((brokers g).mapIdx (part g)).map (·.index) = List.range (brokers g).length := by
  rw [List.mapIdx_eq_zipIdx_map, List.map_map, List.range_eq_range', ← List.zipIdx_map_snd 0 (brokers g)]
  rfl

theorem nodup_brokers (g : Graph) : (brokers g).Nodup := nodup_eraseDups _

theorem perm_inputs_parts (g : Graph) :
    (((brokers g).mapIdx (part g)).flatMap (·.inputs)).Perm g.inputs := by
  have hparts : ((brokers g).mapIdx (part g)).flatMap (·.inputs) =
      (brokers g).flatMap fun b => g.inputs.filter (·.broker = b) := by
    rw [List.flatMap_def, List.flatMap_def, map_parts g fun _ _ => rfl]
  have hall : g.inputs.filter (·.broker ∈ brokers g) = g.inputs :=
    List.filter_eq_self.mpr fun i hi => decide_eq_true (mem_brokers hi)
  rw [hparts]
  exact (perm_flatMap_filter _ g.inputs (nodup_brokers g)).trans (.of_eq hall)

theorem exists_unique_part {i : Endpoint} (hi : i ∈ g.inputs) :
    ∃! c, c ∈ (brokers g).mapIdx (part g) ∧ i ∈ c.inputs := by
  obtain ⟨k, hk, hbroker⟩ := List.getElem_of_mem (mem_brokers hi)
  refine ⟨part g k (brokers g)[k], ⟨mem_parts.mpr ⟨k, hk, rfl⟩, mem_inputs.mpr ⟨hi, hbroker.symm⟩⟩, ?_⟩
  rintro c ⟨hc, hic⟩
  obtain ⟨j, hj, rfl⟩ := mem_parts.mp hc
  have heq : (brokers g)[j] = (brokers g)[k] := (mem_inputs.mp hic).2.symm.trans hbroker.symm
  obtain rfl : j = k := (nodup_brokers g).getElem_inj_iff.mp heq
  rfl

/-- A graph that has an input, be it well-formed or not, has a plan, and the plan parts it. -/
theorem compile_partitions (h : g.inputs ≠ []) : ∃ plan, compile g = .ok plan ∧ plan.Partitions g := by
  refine ⟨_, compile_eq h, ?_⟩
  constructor
  case indices => rw [map_index_parts, List.length_mapIdx]
  case brokers => exact fun b => by rw [map_broker_parts, brokers, List.mem_eraseDups]
  case appearance =>
    rw [map_broker_parts]
    exact pairwise_idxOf_eraseDups _
  case inputs => exact perm_inputs_parts g
  case once => exact fun i hi => exists_unique_part hi
  case flows => exact sortFlows_perm g.flows
  case clusters =>
    intro c hc
    obtain ⟨k, hk, rfl⟩ := mem_parts.mp hc
    exact holds_part (List.getElem_mem hk)

/-- Two brokers in turn, a loop, a flow back to an input of the other broker, and one to a node that is not stored. -/
def tangle : Graph where
  pipeline := 7
  name := "tangle"
  inputs := [⟨1, none, "x", "b2", none⟩, ⟨2, none, "y", "b1", none⟩, ⟨3, none, "z", "b2", none⟩]
  outputs := [⟨5, none, "w", "b1", none⟩]
  transformations := [⟨4, none, "fn keep(r) \x7b r \x7d", none, none⟩]
  flows := [⟨none, .input 1, .transformation 4⟩, ⟨none, .transformation 4, .transformation 4⟩,
    ⟨none, .transformation 4, .input 2⟩, ⟨none, .input 2, .output 5⟩, ⟨none, .transformation 4, .output 6⟩]

theorem compile_partitions_tangle : tangle.inputs ≠ [] ∧ ∃ plan, compile tangle = .ok plan ∧
    plan.Partitions tangle ∧ plan.clusters.map (·.broker) = ["b2", "b1"] := by
  have hinputs : tangle.inputs ≠ [] := by decide
  obtain ⟨plan, hplan, hpartitions⟩ := compile_partitions hinputs
  have hclusters : plan = ⟨7, sortFlows tangle.flows, (brokers tangle).mapIdx (part tangle)⟩ :=
    Except.ok.inj (hplan.symm.trans (compile_eq hinputs))
  refine ⟨hinputs, plan, hplan, hpartitions, ?_⟩
  rw [hclusters, map_broker_parts]
  rfl

end Plan

end Pipeworks
