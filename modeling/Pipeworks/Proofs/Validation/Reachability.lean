import Pipeworks.Proofs.Plan.Partition
import Mathlib.Logic.Function.Iterate

/-!
What the check for reachability reports. The search from the inputs comes to an end by itself, whatever the flows are:
every visit beyond those of the inputs is paid for by a flow. The report names the transformations and the outputs to
which no walk leads from an input, record by record, and no others. These are also the records that no worker gets: a
node that some input leads to is led to by the inputs of one broker, and so it is in the cluster of that broker.
-/

namespace Pipeworks

namespace Edges

variable {es : Edges}

/-! ### The end of the search -/

def visitNext (es : Edges) : List NodeRef × List NodeRef → List NodeRef × List NodeRef
  | ([], seen) => ([], seen)
  | (n :: todo, seen) => (todo ++ es.fresh seen n, seen ++ es.fresh seen n)

theorem iterate_visitNext_nil (es : Edges) (k : ℕ) (seen : List NodeRef) :
    es.visitNext^[k] ([], seen) = ([], seen) :=
  Function.iterate_fixed rfl k

/-- The search is so many visits, or fewer when none is left. -/
theorem explore_eq_iterate (es : Edges) (fuel : ℕ) (todo seen : List NodeRef) :
    es.explore fuel todo seen = (es.visitNext^[fuel] (todo, seen)).2 := by
  induction fuel generalizing todo seen with
  | zero => rfl
  | succ fuel ih =>
      cases todo with
      | nil =>
          rw [iterate_visitNext_nil]
          rfl
      | cons n todo =>
          rw [Function.iterate_succ_apply]
          exact ih _ _

/-- Every visit takes a node that is to visit, and what it adds is paid for by edges. -/
theorem todo_eq_nil (es : Edges) (k : ℕ) (todo seen : List NodeRef) (hk : todo.length + es.unseen seen ≤ k) :
    (es.visitNext^[k] (todo, seen)).1 = [] := by
  induction k generalizing todo seen with
  | zero =>
      have hnone : todo.length = 0 := by omega
      exact List.length_eq_zero_iff.mp hnone
  | succ k ih =>
      cases todo with
      | nil => rw [iterate_visitNext_nil]
      | cons n todo =>
          rw [Function.iterate_succ_apply]
          refine ih _ _ ?_
          have hpaid := length_fresh_add_unseen_le es seen n
          simp only [List.length_append, List.length_cons] at hk ⊢
          omega

/-- When nothing is left to visit, further visits change nothing. -/
theorem iterate_visitNext_of_le {k k' : ℕ} {x : List NodeRef × List NodeRef} (hend : (es.visitNext^[k] x).1 = [])
    (hk : k ≤ k') : es.visitNext^[k'] x = es.visitNext^[k] x := by
  obtain ⟨j, rfl⟩ := Nat.exists_eq_add_of_le' hk
  have hnil : es.visitNext^[k] x = ([], (es.visitNext^[k] x).2) := Prod.ext hend rfl
  rw [Function.iterate_add_apply, hnil, iterate_visitNext_nil]

theorem reached_spec (es : Edges) (roots : List NodeRef) :
    es.visitNext^[roots.length + es.length] (roots, roots) = ([], es.reached roots) := by
  have hunseen : es.unseen roots ≤ es.length := List.countP_le_length
  have hend := todo_eq_nil es (roots.length + es.length) roots roots (by omega)
  refine Prod.ext hend ?_
  rw [reached, explore_eq_iterate, iterate_visitNext_of_le hend (Nat.le_succ _)]

end Edges

namespace Graph

variable {g : Graph}

/-! ### What is reported -/

def IsFed (g : Graph) (n : NodeRef) : Prop := ∃ i ∈ g.inputs, Edges.Walk g.edges (.input i.id) n

instance (g : Graph) : DecidablePred g.IsFed := fun _ => decidable_of_iff _ mem_fed

def unfedDiagnostic (g : Graph) (n : NodeRef) : Diagnostic where
  rule := .reachability
  message := g.label n ++ " is not reachable from any input"
  node := n

theorem unreachable_eq (g : Graph) :
    g.unreachable =
      (g.transformations.filter fun t => ¬g.IsFed (.transformation t.id)).map
          (fun t => g.unfedDiagnostic (.transformation t.id)) ++
        (g.outputs.filter fun o => ¬g.IsFed (.output o.id)).map fun o => g.unfedDiagnostic (.output o.id) := by
  have hfed : ∀ n, n ∈ g.fed ↔ g.IsFed n := fun n => mem_fed
  have hinputs : (g.inputs.map (NodeRef.input ·.id)).filter (fun n => n.kind ≠ .input ∧ n ∉ g.fed) = [] := by
    refine List.filter_eq_nil_iff.mpr fun n hn => ?_
    obtain ⟨i, -, rfl⟩ := List.mem_map.mp hn
    simp
  change (g.nodes.filter fun n => n.kind ≠ .input ∧ n ∉ g.fed).map g.unfedDiagnostic = _
  rw [nodes, List.filter_append, List.filter_append, hinputs, List.nil_append, List.map_append, List.filter_map,
    List.filter_map, List.map_map, List.map_map]
  simp [hfed, Function.comp_def]

theorem mem_unreachable {n : NodeRef} :
    (∃ d ∈ g.unreachable, d.node = some n) ↔ n ∈ g.nodes ∧ n.kind ≠ .input ∧ ¬g.IsFed n := by
  simp only [unreachable, List.mem_map, List.mem_filter, decide_eq_true_eq]
  constructor
  · rintro ⟨d, ⟨m, ⟨hm, hkind, hfed⟩, rfl⟩, hnode⟩
    obtain rfl := Option.some.inj hnode
    exact ⟨hm, hkind, fun h => hfed (mem_fed.mpr h)⟩
  · rintro ⟨hn, hkind, hfed⟩
    exact ⟨_, ⟨n, ⟨hn, hkind, fun h => hfed (mem_fed.mp h)⟩, rfl⟩, rfl⟩

/-! ### What no worker gets -/

/-- What an input leads to, the inputs of its broker lead to. -/
theorem isFed_iff {n : NodeRef} : g.IsFed n ↔ ∃ b ∈ Plan.brokers g, g.LedTo b n := by
  constructor
  · rintro ⟨i, hi, hwalk⟩
    exact ⟨i.broker, Plan.mem_brokers hi, i, hi, rfl, hwalk⟩
  · rintro ⟨b, -, i, hi, -, hwalk⟩
    exact ⟨i, hi, hwalk⟩

/-- What an input leads to is in some part of the plan, whatever the part holds of what is led to. -/
theorem forall_parts_iff {n : NodeRef} {P : Cluster → Prop} (hP : ∀ k b, P (Plan.part g k b) ↔ g.LedTo b n) :
    (∀ c ∈ (Plan.brokers g).mapIdx (Plan.part g), ¬P c) ↔ ¬g.IsFed n := by
  rw [isFed_iff]
  push Not
  constructor
  · intro h b hb hled
    obtain ⟨k, hk, rfl⟩ := List.getElem_of_mem hb
    exact h _ (Plan.mem_parts.mpr ⟨k, hk, rfl⟩) ((hP k _).mpr hled)
  · intro h c hc hmem
    obtain ⟨k, hk, rfl⟩ := Plan.mem_parts.mp hc
    exact h _ (List.getElem_mem hk) ((hP k _).mp hmem)

theorem mem_transformations_part {t : Transformation} (ht : t ∈ g.transformations) (k : ℕ) (b : String) :
    t ∈ (Plan.part g k b).transformations ↔ g.LedTo b (.transformation t.id) := by
  simp [Plan.cluster, Plan.mem_reached_part, ht]

theorem mem_outputs_part {o : Endpoint} (ho : o ∈ g.outputs) (k : ℕ) (b : String) :
    o ∈ (Plan.part g k b).outputs ↔ g.LedTo b (.output o.id) := by
  simp [Plan.cluster, Plan.mem_reached_part, ho]

/-- The check for reachability, whatever the flows are. The search from the inputs has nothing left to visit after as
many visits as there are inputs and flows. There is one diagnostic for each record of a transformation or an output to
which no walk leads from an input, in the order of the records, and no other one. Where there is an input, and so a
plan, such a record is one that no cluster has. -/
theorem unreachable_exactly_unfed (g : Graph) :
    g.edges.visitNext^[g.inputs.length + g.flows.length]
        (g.inputs.map (.input ·.id), g.inputs.map (.input ·.id)) = ([], g.fed) ∧
    g.unreachable =
      (g.transformations.filter fun t => ¬g.IsFed (.transformation t.id)).map
          (fun t => g.unfedDiagnostic (.transformation t.id)) ++
        (g.outputs.filter fun o => ¬g.IsFed (.output o.id)).map (fun o => g.unfedDiagnostic (.output o.id)) ∧
    (g.inputs ≠ [] → ∃ plan, Plan.compile g = .ok plan ∧
      (∀ t ∈ g.transformations, (∃ d ∈ g.unreachable, d.node = some (.transformation t.id)) ↔
        ∀ c ∈ plan.clusters, t ∉ c.transformations) ∧
      ∀ o ∈ g.outputs, (∃ d ∈ g.unreachable, d.node = some (.output o.id)) ↔
        ∀ c ∈ plan.clusters, o ∉ c.outputs) := by
  refine ⟨?_, unreachable_eq g, fun hinputs => ?_⟩
  · have hsearch := Edges.reached_spec g.edges (g.inputs.map (.input ·.id))
    rw [List.length_map, edges, List.length_map] at hsearch
    exact hsearch
  · refine ⟨_, Plan.compile_eq hinputs, fun t ht => ?_, fun o ho => ?_⟩
    · rw [mem_unreachable, forall_parts_iff (mem_transformations_part ht)]
      have hnode : .transformation t.id ∈ g.nodes := transformation_mem_nodes.mpr ⟨t, ht, rfl⟩
      simp [hnode]
    · rw [mem_unreachable, forall_parts_iff (mem_outputs_part ho)]
      have hnode : .output o.id ∈ g.nodes := output_mem_nodes.mpr ⟨o, ho, rfl⟩
      simp [hnode]

/-- Two brokers, a flow back into an input, and a walk through a node that is not stored. One transformation is only fed
by itself, and an output only by this one. -/
def adrift : Graph where
  pipeline := 7
  name := "adrift"
  inputs := [⟨1, none, "x", "b1", none⟩, ⟨2, none, "y", "b2", none⟩]
  outputs := [⟨7, none, "u", "b1", none⟩, ⟨8, some "lost", "v", "b1", none⟩]
  transformations := [⟨4, none, "keep", none, none⟩, ⟨5, none, "keep", none, none⟩, ⟨6, none, "keep", none, none⟩]
  flows := [⟨none, .input 1, .transformation 9⟩, ⟨none, .transformation 9, .transformation 6⟩,
    ⟨none, .transformation 6, .input 2⟩, ⟨none, .transformation 6, .output 7⟩, ⟨none, .input 2, .transformation 4⟩,
    ⟨none, .transformation 5, .transformation 5⟩, ⟨none, .transformation 5, .output 8⟩]

/-- What is reported there, and what no cluster has; the transformation behind the unknown node is in a cluster. -/
theorem adrift_exactly_unfed :
    adrift.unreachable.map (·.message) =
        ["transformation_5 is not reachable from any input", "output 'lost' is not reachable from any input"] ∧
      adrift.inputs ≠ [] ∧ ∃ plan, Plan.compile adrift = .ok plan ∧
        (∀ c ∈ plan.clusters, (⟨5, none, "keep", none, none⟩ : Transformation) ∉ c.transformations) ∧
        ∃ c ∈ plan.clusters, (⟨6, none, "keep", none, none⟩ : Transformation) ∈ c.transformations := by
  have hinputs : adrift.inputs ≠ [] := by decide
  obtain ⟨-, hreport, hplan⟩ := unreachable_exactly_unfed adrift
  obtain ⟨plan, hcompile, htransformations, -⟩ := hplan hinputs
  refine ⟨?_, hinputs, plan, hcompile, ?_, ?_⟩
  · rw [hreport]
    decide
  · exact (htransformations _ (by decide)).mp (by decide)
  · by_contra hnone
    push Not at hnone
    exact absurd ((htransformations _ (by decide)).mpr hnone) (by decide)

end Graph

end Pipeworks
