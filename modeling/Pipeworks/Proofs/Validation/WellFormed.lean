import Pipeworks.Proofs.Validation.Connectivity
import Pipeworks.Proofs.Graph.CycleSearch

/-!
What the checks of a graph are worth. Every rule about the structure of a graph is silent exactly if the graph
has one property, these properties together are well-formedness, and a graph is valid exactly if it is well
formed, has all that a pipeline needs, and its brokers answer.
-/

namespace Pipeworks.Graph

variable {g : Graph}

structure WellFormed (g : Graph) : Prop where
  directed : ∀ f ∈ g.flows, f.target.kind ≠ .input ∧ f.source.kind ≠ .output
  stored : ∀ f ∈ g.flows, f.source ∈ g.nodes ∧ f.target ∈ g.nodes
  acyclic : ∀ n, ¬g.edges.OnCycle n
  fedTransformations : ∀ t ∈ g.transformations, ∃ i ∈ g.inputs, Edges.Walk g.edges (.input i.id) (.transformation t.id)
  fedOutputs : ∀ o ∈ g.outputs, ∃ i ∈ g.inputs, Edges.Walk g.edges (.input i.id) (.output o.id)

/-! ### Nodes and edges -/

theorem edges_eq (g : Graph) : g.edges = Edges.ofFlows g.flows := rfl

@[simp] theorem mem_edges {a b : NodeRef} : (a, b) ∈ g.edges ↔ ∃ f ∈ g.flows, f.source = a ∧ f.target = b :=
  Edges.mem_ofFlows

theorem input_mem_nodes {id : Int} : NodeRef.input id ∈ g.nodes ↔ ∃ i ∈ g.inputs, i.id = id := by
  simp [nodes]

theorem transformation_mem_nodes {id : Int} :
    NodeRef.transformation id ∈ g.nodes ↔ ∃ t ∈ g.transformations, t.id = id := by
  simp [nodes]

theorem output_mem_nodes {id : Int} : NodeRef.output id ∈ g.nodes ↔ ∃ o ∈ g.outputs, o.id = id := by
  simp [nodes]

theorem contains_iff {n : NodeRef} : g.contains n = true ↔ n ∈ g.nodes := by
  rcases n with ⟨kind, id⟩
  cases kind
  · simp [contains, input?, input_mem_nodes]
  · simp [contains, transformation?, transformation_mem_nodes]
  · simp [contains, output?, output_mem_nodes]

/-! ### The rules, one by one -/

theorem misdirected_eq_nil_iff :
    g.misdirected = [] ↔ ∀ f ∈ g.flows, f.target.kind ≠ .input ∧ f.source.kind ≠ .output := by
  simp [misdirected]

theorem dangling_eq_nil_iff : g.dangling = [] ↔ ∀ f ∈ g.flows, f.source ∈ g.nodes ∧ f.target ∈ g.nodes := by
  simp [dangling, contains_iff]

theorem mem_cycleRoots {n : NodeRef} : n ∈ g.cycleRoots ↔ n ∈ g.nodes ∨ ∃ f ∈ g.flows, f.source = n := by
  have hfold : ∀ (fs : List Flow) (roots : List NodeRef),
      n ∈ fs.foldl (fun roots f => if f.source ∈ roots then roots else roots ++ [f.source]) roots ↔
        n ∈ roots ∨ ∃ f ∈ fs, f.source = n := by
    intro fs
    induction fs with
    | nil => simp
    | cons f fs ih =>
        intro roots
        rw [List.foldl_cons, ih]
        split_ifs with hmem
        · constructor
          · rintro (h | ⟨f', hf', rfl⟩)
            · exact .inl h
            · exact .inr ⟨f', by simp [hf'], rfl⟩
          · rintro (h | ⟨f', hf', rfl⟩)
            · exact .inl h
            · rcases List.mem_cons.mp hf' with rfl | hf'
              · exact .inl hmem
              · exact .inr ⟨f', hf', rfl⟩
        · simp [or_assoc, eq_comm]
  exact hfold g.flows g.nodes

theorem circular_eq_nil_iff : g.circular = [] ↔ ∀ n, ¬g.edges.OnCycle n := by
  have hroots : ∀ a b, (a, b) ∈ g.edges → a ∈ g.cycleRoots := by
    intro a b hab
    obtain ⟨f, hf, rfl, -⟩ := mem_edges.mp hab
    exact mem_cycleRoots.mpr (.inr ⟨f, hf, rfl⟩)
  rw [← Edges.findCycle?_eq_none_iff hroots, circular]
  cases g.edges.findCycle? g.cycleRoots <;> simp

theorem mem_fed {n : NodeRef} : n ∈ g.fed ↔ ∃ i ∈ g.inputs, Edges.Walk g.edges (.input i.id) n := by
  simp [fed, Edges.mem_reached]

theorem unreachable_eq_nil_iff :
    g.unreachable = [] ↔
      (∀ t ∈ g.transformations, ∃ i ∈ g.inputs, Edges.Walk g.edges (.input i.id) (.transformation t.id)) ∧
        ∀ o ∈ g.outputs, ∃ i ∈ g.inputs, Edges.Walk g.edges (.input i.id) (.output o.id) := by
  simp only [unreachable, List.map_eq_nil_iff, List.filter_eq_nil_iff, nodes, List.mem_append, List.mem_map]
  constructor
  · intro h
    refine ⟨fun t ht => ?_, fun o ho => ?_⟩
    · simpa [mem_fed] using h (.transformation t.id) (.inl (.inr ⟨t, ht, rfl⟩))
    · simpa [mem_fed] using h (.output o.id) (.inr ⟨o, ho, rfl⟩)
  · rintro ⟨ht, ho⟩ n ((⟨i, -, rfl⟩ | ⟨t, htm, rfl⟩) | ⟨o, hom, rfl⟩)
    · simp
    · simpa [mem_fed] using ht t htm
    · simpa [mem_fed] using ho o hom

/-! ### All rules together -/

theorem severity_of_mem_diagnose {rule : LintRule} {d : Diagnostic} (h : d ∈ g.diagnose rule) :
    d.severity = rule.severity := by
  cases rule <;> simp only [diagnose] at h
  case flowDirection =>
    simp only [misdirected, List.mem_flatMap, List.mem_append] at h
    obtain ⟨f, -, h | h⟩ := h <;> split_ifs at h <;> simp at h <;> subst h <;> rfl
  case flowEndpointsExist =>
    simp only [dangling, List.mem_flatMap, List.mem_map] at h
    obtain ⟨f, -, n, -, rfl⟩ := h
    rfl
  case cycle =>
    simp only [circular] at h
    split at h <;> simp at h
    subst h
    rfl
  case reachability =>
    simp only [unreachable, List.mem_map] at h
    obtain ⟨n, -, rfl⟩ := h
    rfl
  case schemaCompatibility =>
    simp only [mismatched, List.mem_map] at h
    obtain ⟨f, -, rfl⟩ := h
    rfl
  case transformationCompiles =>
    simp only [unloadable, List.mem_filterMap] at h
    obtain ⟨t, -, h⟩ := h
    split at h <;> simp at h
    subst h
    rfl

/-- What the rules about structure say is an error, and the rest is advice. -/
theorem lint_errors : g.lint.filter (·.severity = .error) = LintRule.structural.flatMap g.diagnose := by
  have hstructural : ∀ rule ∈ LintRule.structural, rule.severity = .error := by decide
  have hadvisory : ∀ rule ∈ LintRule.advisory, rule.severity ≠ .error := by decide
  have herror : ∀ d ∈ LintRule.structural.flatMap g.diagnose, d.severity = .error := by
    intro d hd
    obtain ⟨rule, hrule, hd⟩ := List.mem_flatMap.mp hd
    exact (severity_of_mem_diagnose hd).trans (hstructural rule hrule)
  have hadvice : ∀ d ∈ LintRule.advisory.flatMap g.diagnose, d.severity ≠ .error := by
    intro d hd
    obtain ⟨rule, hrule, hd⟩ := List.mem_flatMap.mp hd
    rw [severity_of_mem_diagnose hd]
    exact hadvisory rule hrule
  simp only [lint]
  split_ifs with hnone
  · rw [List.isEmpty_iff.mp hnone]
    exact List.filter_eq_nil_iff.mpr fun d hd => by simpa using hadvice d hd
  · exact List.filter_eq_self.mpr fun d hd => by simpa using herror d hd

theorem wellFormed_iff : LintRule.structural.flatMap g.diagnose = [] ↔ g.WellFormed := by
  have hrules : LintRule.structural.flatMap g.diagnose = [] ↔
      g.misdirected = [] ∧ g.dangling = [] ∧ g.circular = [] ∧ g.unreachable = [] := by
    simp [LintRule.structural, diagnose]
  rw [hrules, misdirected_eq_nil_iff, dangling_eq_nil_iff, circular_eq_nil_iff, unreachable_eq_nil_iff]
  exact ⟨fun ⟨hd, hs, hc, ht, ho⟩ => ⟨hd, hs, hc, ht, ho⟩, fun h => ⟨h.1, h.2, h.3, h.4, h.5⟩⟩

/-- A graph about which no error is reported is well formed, and the other way round. -/
theorem lint_iff_wellFormed : (∀ d ∈ g.lint, d.severity ≠ .error) ↔ g.WellFormed := by
  rw [← wellFormed_iff, ← lint_errors, List.filter_eq_nil_iff]
  exact forall₂_congr fun d _ => by simp

theorem presence_eq_nil_iff : g.presence = [] ↔ g.inputs ≠ [] ∧ g.outputs ≠ [] ∧ g.flows ≠ [] := by
  simp [presence]

theorem connectivity_eq_nil_iff {reachable : String → Bool} :
    g.connectivity reachable = [] ↔ ∀ a ∈ g.addresses, reachable a = true := by
  simp [connectivity_eq]

/-- The check accepts exactly the graphs that are complete, have brokers that answer, and are well formed. -/
theorem valid_iff_wellFormed (g : Graph) (reachable : String → Bool) :
    (g.validate reachable).valid = true ↔
      (g.inputs ≠ [] ∧ g.outputs ≠ [] ∧ g.flows ≠ []) ∧
        (∀ e ∈ g.inputs ++ g.outputs, reachable e.broker = true) ∧ g.WellFormed := by
  have hbrokers : (∀ e ∈ g.inputs ++ g.outputs, reachable e.broker = true) ↔ g.connectivity reachable = [] := by
    rw [connectivity_eq_nil_iff]
    exact ⟨fun h a ha => by obtain ⟨e, he, rfl⟩ := mem_addresses.mp ha; exact h e he,
      fun h e he => h e.broker (mem_addresses.mpr ⟨e, he, rfl⟩)⟩
  rw [← presence_eq_nil_iff, hbrokers, ← wellFormed_iff, validate]
  split_ifs with hpresent
  · simp [Report.of, List.isEmpty_iff.mp hpresent, lint_errors]
  · simp [Report.of, List.isEmpty_iff] at hpresent ⊢
    simp [hpresent]

end Pipeworks.Graph
