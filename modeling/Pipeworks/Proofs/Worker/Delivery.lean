import Pipeworks.Proofs.Worker.Served

/-!
What the work of a cluster delivers while the brokers serve it. A record that arrives on an input is delivered once on
each route on which no step drops it, because its errands are what the graph delivers on all routes from the input, and
no route is longer than the depth that is allowed.
-/

namespace Pipeworks

variable {σ κ : Type} {link : Link σ κ} {address : κ → String} {up : σ → Prop}

namespace Runner

theorem filterMap_reported (r : Runner) (kind topic : String) (value : Json) :
    (r.reported kind topic value).filterMap Remark.delivery? = [] := by
  rw [reported]
  split_ifs <;> rfl

theorem filterMap_shown (r : Runner) (a : Arrival) :
    (r.shown a).filterMap Remark.delivery? = (r.agenda a).errands.map (Errand.delivery r.cluster.broker) := by
  have hreceived : (r.received a).filterMap Remark.delivery? = [] := by
    rw [received]
    cases a.record? with
    | none => rfl
    | some record => exact filterMap_reported r "input" record.1 record.2
  have herrand (e : Errand) : (r.remarks e).filterMap Remark.delivery? = [e.delivery r.cluster.broker] := by
    rw [remarks, List.filterMap_cons]
    exact congrArg _ (filterMap_reported ..)
  rw [shown, List.filterMap_append, hreceived, List.nil_append, List.filterMap_flatMap, List.map_eq_flatMap]
  exact List.flatMap_congr fun e _ => herrand e

/-! ### From a graph to its deliveries -/

variable {g : Graph}

/-- The wiring of the cluster of an input is long enough for all routes from it. -/
theorem routes_perm (h : g.WellFormed) (load : String → Step) {i : Endpoint} (hi : i ∈ g.inputs) (k : ℕ) :
    (g.routes ((Topology.build load (Plan.part g k i.broker)).edges.length + 1) (.input i.id)).Perm
      (g.routes (g.edges.length + 1) (.input i.id)) := by
  refine (List.perm_ext_iff_of_nodup (Graph.nodup_routes _ _ _) (Graph.nodup_routes _ _ _)).mpr fun p => ?_
  rw [h.mem_routes, Graph.mem_routes]
  refine and_iff_left_of_imp fun hp => ?_
  exact Nat.le_succ_of_le (Plan.length_le_of_isRoute h load ⟨i, hi, rfl, .here _⟩ hp)

/-- A record on an input of a graph without errors is delivered, by the cluster that holds the input, once on each
route from the input on which no step drops it, and nothing else is published. -/
theorem handle_delivers_routes (hserves : link.Serves address up) (hpresent : g.presence = [])
    (hlint : ∀ d ∈ g.lint, d.severity ≠ .error) (load : String → Step) {i : Endpoint} (hi : i ∈ g.inputs)
    {payload : ByteArray} {value : Json} (hvalue : Record.decode payload = .ok value)
    (hcalm : g.Undisturbed load (.input i.id) value) :
    ∃ (plan : Plan) (routes : List (List (Fin g.flows.length))),
      Plan.compile g = .ok plan ∧ (∃ c ∈ plan.clusters, i ∈ c.inputs) ∧
      routes.Nodup ∧ (∀ p, p ∈ routes ↔ g.IsRoute (.input i.id) p) ∧
      ∀ c ∈ plan.clusters, i ∈ c.inputs → ∀ (pipeline : PipelineId) (streamEvents : Bool) (topic : String) (home : κ)
        (s : Session σ κ), address home = c.broker → s.Ready address up →
        ∃ s' new,
          handle link ⟨pipeline, c, Topology.build load c, streamEvents⟩ home (.input i.id) topic payload s = .ok () s' ∧
            s'.Ready address up ∧ s'.trace = s.trace ++ new ∧
            (new.filterMap (Action.delivery? address)).Perm (routes.filterMap (g.deliver? load · value)) := by
  have hwf := Graph.lint_iff_wellFormed.mp hlint
  have hbroker : i.broker ∈ Plan.brokers g := by
    rw [Plan.brokers, List.mem_eraseDups]
    exact List.mem_map_of_mem hi
  obtain ⟨k, hk, hkb⟩ := List.getElem_of_mem hbroker
  refine ⟨⟨g.pipeline, sortFlows g.flows, (Plan.brokers g).mapIdx (Plan.part g)⟩, g.routes (g.edges.length + 1) (.input i.id),
    Plan.compile_eq (Graph.presence_eq_nil_iff.mp hpresent).1, ?_, Graph.nodup_routes _ _ _,
    fun p => hwf.mem_routes, ?_⟩
  · exact ⟨Plan.part g k i.broker, Plan.mem_parts.mpr ⟨k, hk, by rw [hkb]⟩, Plan.mem_inputs.mpr ⟨hi, rfl⟩⟩
  · intro c hc hic pipeline streamEvents topic home s hhome hs
    obtain ⟨j, hj, rfl⟩ := Plan.mem_parts.mp hc
    rw [← (Plan.mem_inputs.mp hic).2] at hhome ⊢
    have hled : g.LedTo i.broker (.input i.id) := ⟨i, hi, rfl, .here _⟩
    have hfollows := Plan.follows_build_part hwf load j i.broker
    let r : Runner := ⟨pipeline, Plan.part g j i.broker, Topology.build load (Plan.part g j i.broker), streamEvents⟩
    let a : Arrival := ⟨.input i.id, topic, .ok payload⟩
    obtain ⟨hready, herror, new, htrace, hshown⟩ := r.accept_served hserves rfl hhome hs a
    have hagenda : r.agenda a = r.topology.agenda (r.topology.edges.length + 1) (.input i.id) value :=
      agenda_of_value hvalue
    have hfault := hfollows.fault_eq_none hled hcalm (r.topology.edges.length + 1)
    rw [hagenda, hfault] at herror
    obtain ⟨_, hrun⟩ := Work.eq_ok herror
    refine ⟨_, new, hrun, hready, htrace, ?_⟩
    rw [← Action.filterMap_delivery?, hshown, filterMap_shown, hagenda, (Topology.errands_agenda _ _ _ _).2 hfault]
    refine (hfollows.errands_perm hled _ value).trans ?_
    rw [← Graph.filterMap_routes]
    exact (routes_perm hwf load hi j).filterMap _

/-- A graph that reads at one broker and writes at two. One of its flows is stored twice, and one of its steps drops
everything. -/
def forked : Graph where
  pipeline := 7
  name := "forked"
  inputs := [⟨1, none, "in", "near", none⟩]
  outputs := [⟨1, none, "out", "near", none⟩, ⟨2, none, "copy", "far", none⟩]
  transformations := [⟨1, none, "pass", none, none⟩, ⟨2, none, "drop", none, none⟩]
  flows := [⟨none, .input 1, .transformation 1⟩, ⟨none, .input 1, .transformation 1⟩,
    ⟨none, .transformation 1, .output 1⟩, ⟨none, .transformation 1, .output 2⟩,
    ⟨none, .input 1, .transformation 2⟩, ⟨none, .transformation 2, .output 1⟩]

def passOrDrop (source : String) : Step := fun value => .ok (if source = "drop" then none else some value)

theorem undisturbed_passOrDrop (g : Graph) (n : NodeRef) (value : Json) : g.Undisturbed passOrDrop n value := by
  intro m last _ id e _ hstep
  rw [Graph.stepAt] at hstep
  cases hnode : g.transformation? id with
  | none => simp [hnode] at hstep
  | some t => simp [hnode, passOrDrop] at hstep

/-- A record is delivered four times there: the step that passes it on is fed by two flows and feeds two outputs. -/
theorem handle_delivers_forked :
    ∃ s' new,
      handle Hub.link ⟨7, Plan.part forked 0 "near", Topology.build passOrDrop (Plan.part forked 0 "near"), true⟩ "near"
          (.input 1) "in" (Record.encode .null) { world := {} } = .ok () s' ∧
        s'.trace = new ∧
        (new.filterMap (Action.delivery? id)).Perm
          [⟨"near", "out", Record.encode .null⟩, ⟨"far", "copy", Record.encode .null⟩,
            ⟨"near", "out", Record.encode .null⟩, ⟨"far", "copy", Record.encode .null⟩] := by
  have hwf : forked.WellFormed := Graph.wellFormed_iff.mp (by decide)
  obtain ⟨plan, routes, hplan, -, hnodup, hroutes, hhandle⟩ :=
    handle_delivers_routes Hub.serves (by decide : forked.presence = []) (Graph.lint_iff_wellFormed.mpr hwf) passOrDrop
      (List.mem_singleton.mpr rfl : (⟨1, none, "in", "near", none⟩ : Endpoint) ∈ forked.inputs)
      (rfl : Record.decode (Record.encode .null) = .ok .null) (undisturbed_passOrDrop forked _ _)
  obtain rfl : (⟨7, sortFlows forked.flows, [Plan.part forked 0 "near"]⟩ : Plan) = plan := Except.ok.inj hplan
  obtain ⟨s', new, hrun, -, htrace, hnew⟩ := hhandle (Plan.part forked 0 "near") (List.mem_singleton.mpr rfl)
    (by decide) 7 true "in" "near" { world := {} } rfl ⟨rfl, by simp⟩
  have hperm : routes.Perm (forked.routes (forked.edges.length + 1) (.input 1)) :=
    (List.perm_ext_iff_of_nodup hnodup (Graph.nodup_routes _ _ _)).mpr fun p => (hroutes p).trans hwf.mem_routes.symm
  exact ⟨s', new, hrun, by simpa using htrace, hnew.trans (hperm.filterMap _)⟩

end Runner

end Pipeworks
