import Pipeworks.Topology
import Pipeworks.Proofs.Graph.Walk

/-!
What wiring a flow does. A flow is wired if it is admitted and ends at a transformation or an output of the
cluster; then its edge is added, and its end has the step or the sink that the cluster gives it. All flows of a
cluster are wired if their ends are known, each starts at an input or at the end of an earlier one, and there is
no cycle.
-/

namespace Pipeworks

def Cluster.takes (c : Cluster) (n : NodeRef) : Bool :=
  match n.kind with
  | .input => false
  | .transformation => (c.transformation? n.id).isSome
  | .output => (c.output? n.id).isSome

namespace Topology

variable {load : String → Step} {c : Cluster} {t : Topology} {f : Flow}

/-- A value is kept under a key unless there is one already: what is then found under a key. -/
theorem find?_keepFirst {α : Type} (xs : List (Int × α)) (id id' : Int) (a : α) :
    ((if ((xs.find? (·.1 = id)).map (·.2)).isSome then xs else xs ++ [(id, a)]).find? (·.1 = id')).map (·.2) =
      ((xs.find? (·.1 = id')).map (·.2)).or (if id = id' then some a else none) := by
  by_cases hid : id = id'
  · subst hid
    cases hx : xs.find? (·.1 = id) <;> simp [List.find?_append, hx]
  · rw [if_neg hid, Option.or_none]
    split_ifs
    · rfl
    · simp [List.find?_append, hid]

/-! ### One flow -/

/-- What wiring a flow may do, with all that decides it. -/
theorem wire_cases (load : String → Step) (c : Cluster) (t : Topology) (f : Flow) :
    (t.admits c f = true ∧ ∃ id node, f.target = .transformation id ∧ c.transformation? id = some node ∧
      wire load c t f =
        { t with
          edges := t.edges ++ [f.ends]
          steps := if (t.step? id).isSome then t.steps else t.steps ++ [(id, load node.source)] }) ∨
    (t.admits c f = true ∧ ∃ id node, f.target = .output id ∧ c.output? id = some node ∧
      wire load c t f =
        { t with
          edges := t.edges ++ [f.ends]
          sinks := if (t.sink? id).isSome then t.sinks else t.sinks ++ [(id, Sink.ofOutput c.broker node)] }) ∨
    ((t.admits c f && c.takes f.target) = false ∧ wire load c t f = t) := by
  obtain ⟨n, source, kind, id⟩ := f
  rw [wire]
  by_cases hadmits : t.admits c ⟨n, source, kind, id⟩ = true
  · rw [if_pos hadmits, hadmits]
    cases kind with
    | input => exact .inr (.inr ⟨rfl, rfl⟩)
    | transformation =>
        cases hnode : c.transformation? id with
        | none => exact .inr (.inr ⟨by simp [Cluster.takes, hnode], by simp only [hnode]⟩)
        | some node => exact .inl ⟨rfl, id, node, rfl, hnode, by simp only [hnode]⟩
    | output =>
        cases hnode : c.output? id with
        | none => exact .inr (.inr ⟨by simp [Cluster.takes, hnode], by simp only [hnode]⟩)
        | some node => exact .inr (.inl ⟨rfl, id, node, rfl, hnode, by simp only [hnode]⟩)
  · rw [if_neg hadmits]
    exact .inr (.inr ⟨by simp [hadmits], rfl⟩)

theorem edges_wire (load : String → Step) (c : Cluster) (t : Topology) (f : Flow) :
    (wire load c t f).edges = if t.admits c f && c.takes f.target then t.edges ++ [f.ends] else t.edges := by
  obtain ⟨hadmits, id, node, htarget, hnode, hwire⟩ | ⟨hadmits, id, node, htarget, hnode, hwire⟩ | ⟨hnot, hwire⟩ :=
    wire_cases load c t f
  · simp [hwire, hadmits, htarget, Cluster.takes, hnode]
  · simp [hwire, hadmits, htarget, Cluster.takes, hnode]
  · simp [hwire, hnot]

/-- A wired flow to a transformation leaves a step there; a step that there was stays. -/
theorem step?_wire (load : String → Step) (c : Cluster) (t : Topology) (f : Flow) (id : Int) :
    (wire load c t f).step? id =
      (t.step? id).or (if t.admits c f ∧ f.target = .transformation id
        then (c.transformation? id).map (load ·.source) else none) := by
  obtain ⟨hadmits, id', node, htarget, hnode, hwire⟩ | ⟨-, id', node, htarget, -, hwire⟩ | ⟨hnot, hwire⟩ :=
    wire_cases load c t f
  · rw [hwire]
    refine (find?_keepFirst t.steps id' id (load node.source)).trans ?_
    by_cases hid : id' = id
    · subst hid
      simp [hadmits, htarget, hnode, step?]
    · simp [htarget, hid, step?]
  · simp [hwire, htarget, step?]
  · rw [hwire]
    by_cases h : t.admits c f ∧ f.target = .transformation id
    · have hnone : c.transformation? id = none := by simpa [h, Cluster.takes] using hnot
      simp [hnone]
    · simp [h]

theorem sink?_wire (load : String → Step) (c : Cluster) (t : Topology) (f : Flow) (id : Int) :
    (wire load c t f).sink? id =
      (t.sink? id).or (if t.admits c f ∧ f.target = .output id
        then (c.output? id).map (Sink.ofOutput c.broker) else none) := by
  obtain ⟨-, id', node, htarget, -, hwire⟩ | ⟨hadmits, id', node, htarget, hnode, hwire⟩ | ⟨hnot, hwire⟩ :=
    wire_cases load c t f
  · simp [hwire, htarget, sink?]
  · rw [hwire]
    refine (find?_keepFirst t.sinks id' id (Sink.ofOutput c.broker node)).trans ?_
    by_cases hid : id' = id
    · subst hid
      simp [hadmits, htarget, hnode, sink?]
    · simp [htarget, hid, sink?]
  · rw [hwire]
    by_cases h : t.admits c f ∧ f.target = .output id
    · have hnone : c.output? id = none := by simpa [h, Cluster.takes] using hnot
      simp [hnone]
    · simp [h]

/-! ### All flows -/

/-- Every end of a wired flow has what the cluster gives it, and nothing else is kept. -/
structure Equipped (load : String → Step) (c : Cluster) (t : Topology) : Prop where
  stepOf : ∀ id s, t.step? id = some s → (c.transformation? id).map (load ·.source) = some s
  sinkOf : ∀ id s, t.sink? id = some s → (c.output? id).map (Sink.ofOutput c.broker) = some s
  steps : ∀ n id, (n, .transformation id) ∈ t.edges → (t.step? id).isSome
  sinks : ∀ n id, (n, .output id) ∈ t.edges → (t.sink? id).isSome

theorem equipped_wire (h : Equipped load c t) (f : Flow) : Equipped load c (wire load c t f) := by
  constructor
  · intro id s hs
    rw [step?_wire, Option.or_eq_some_iff] at hs
    rcases hs with hs | ⟨-, hs⟩
    · exact h.stepOf id s hs
    · split_ifs at hs
      exact hs
  · intro id s hs
    rw [sink?_wire, Option.or_eq_some_iff] at hs
    rcases hs with hs | ⟨-, hs⟩
    · exact h.sinkOf id s hs
    · split_ifs at hs
      exact hs
  · intro n id hmem
    rw [step?_wire, Option.isSome_or, Bool.or_eq_true]
    rw [edges_wire] at hmem
    split_ifs at hmem with hwired
    · rcases List.mem_append.mp hmem with hmem | hmem
      · exact .inl (h.steps n id hmem)
      · have htarget : f.target = .transformation id :=
          (congrArg Prod.snd (List.mem_singleton.mp hmem)).symm
        obtain ⟨hadmits, htakes⟩ := Bool.and_eq_true_iff.mp hwired
        refine .inr ?_
        rw [if_pos ⟨hadmits, htarget⟩, Option.isSome_map]
        simpa [Cluster.takes, htarget] using htakes
    · exact .inl (h.steps n id hmem)
  · intro n id hmem
    rw [sink?_wire, Option.isSome_or, Bool.or_eq_true]
    rw [edges_wire] at hmem
    split_ifs at hmem with hwired
    · rcases List.mem_append.mp hmem with hmem | hmem
      · exact .inl (h.sinks n id hmem)
      · have htarget : f.target = .output id := (congrArg Prod.snd (List.mem_singleton.mp hmem)).symm
        obtain ⟨hadmits, htakes⟩ := Bool.and_eq_true_iff.mp hwired
        refine .inr ?_
        rw [if_pos ⟨hadmits, htarget⟩, Option.isSome_map]
        simpa [Cluster.takes, htarget] using htakes
    · exact .inl (h.sinks n id hmem)

theorem equipped_build (load : String → Step) (c : Cluster) : Equipped load c (build load c) := by
  have hfold : ∀ (fs : List Flow) (t : Topology), Equipped load c t → Equipped load c (fs.foldl (wire load c) t) := by
    intro fs
    induction fs with
    | nil => exact fun t ht => ht
    | cons f fs ih => exact fun t ht => ih _ (equipped_wire ht f)
  exact hfold c.flows {} ⟨by simp [step?], by simp [sink?], by simp, by simp⟩

theorem step?_of_mem_edges {n : NodeRef} {id : Int} (hmem : (n, .transformation id) ∈ (build load c).edges) :
    ∃ node, c.transformation? id = some node ∧ (build load c).step? id = some (load node.source) := by
  obtain ⟨s, hs⟩ := Option.isSome_iff_exists.mp ((equipped_build load c).steps n id hmem)
  obtain ⟨node, hnode, rfl⟩ := Option.map_eq_some_iff.mp ((equipped_build load c).stepOf id s hs)
  exact ⟨node, hnode, hs⟩

theorem sink?_of_mem_edges {n : NodeRef} {id : Int} (hmem : (n, .output id) ∈ (build load c).edges) :
    ∃ node, c.output? id = some node ∧ (build load c).sink? id = some (Sink.ofOutput c.broker node) := by
  obtain ⟨s, hs⟩ := Option.isSome_iff_exists.mp ((equipped_build load c).sinks n id hmem)
  obtain ⟨node, hnode, rfl⟩ := Option.map_eq_some_iff.mp ((equipped_build load c).sinkOf id s hs)
  exact ⟨node, hnode, hs⟩

structure Ordered (c : Cluster) : Prop where
  known : ∀ f ∈ c.flows, c.takes f.target = true
  fed : ∀ earlier f later, c.flows = earlier ++ f :: later →
    (∃ i ∈ c.inputs, .input i.id = f.source) ∨ ∃ f' ∈ earlier, f'.target = f.source
  acyclic : ∀ n, ¬(Edges.ofFlows c.flows).OnCycle n

theorem admits_of_ordered (h : Ordered c) {earlier later : List Flow} (hflows : c.flows = earlier ++ f :: later)
    (hedges : t.edges = Edges.ofFlows earlier) : t.admits c f = true := by
  have hlive : t.live c f.source = true := by
    rw [live, Bool.or_eq_true]
    rcases h.fed earlier f later hflows with ⟨i, hi, his⟩ | ⟨f', hf', hs⟩
    · exact .inl (by simpa using ⟨i, hi, his⟩)
    · have hmem : f'.ends ∈ t.edges := by
        rw [hedges]
        exact List.mem_map_of_mem hf'
      exact .inr (List.any_eq_true.mpr ⟨f'.ends, hmem, by simp [Flow.ends, hs]⟩)
  have hopen : t.edges.reaches f.target f.source = false := by
    rw [Bool.eq_false_iff]
    intro hreaches
    have hsub : t.edges ⊆ Edges.ofFlows c.flows := by
      rw [hedges, hflows]
      exact List.map_subset _ (List.subset_append_left _ _)
    have hedge : (f.source, f.target) ∈ Edges.ofFlows c.flows :=
      Edges.mem_ofFlows.mpr ⟨f, by simp [hflows], rfl, rfl⟩
    -- a walk back from the end of the flow closes a cycle with it
    exact h.acyclic f.source ⟨f.target, hedge, (Edges.reaches_iff.mp hreaches).mono hsub⟩
  rw [admits, hlive, hopen]
  rfl

theorem edges_build_of_ordered (load : String → Step) (h : Ordered c) :
    (build load c).edges = Edges.ofFlows c.flows := by
  have hfold : ∀ (later earlier : List Flow) (t : Topology), c.flows = earlier ++ later →
      t.edges = Edges.ofFlows earlier → (later.foldl (wire load c) t).edges = Edges.ofFlows c.flows := by
    intro later
    induction later with
    | nil =>
        intro earlier t hflows hedges
        rw [hflows, List.append_nil]
        exact hedges
    | cons f later ih =>
        intro earlier t hflows hedges
        refine ih (earlier ++ [f]) (wire load c t f) (by simp [hflows]) ?_
        have hknown := h.known f (by simp [hflows])
        rw [edges_wire, admits_of_ordered h hflows hedges, hknown, hedges]
        simp [Edges.ofFlows]
  exact hfold c.flows [] {} rfl rfl

end Topology

end Pipeworks
