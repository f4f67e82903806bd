import Pipeworks.Proofs.Plan.Cluster
import Pipeworks.Proofs.Topology.Acyclic
import Pipeworks.Proofs.Worker.Agenda
import Mathlib.Data.List.Perm.Basic

/-!
What a value is to publish, path by path. A cluster with its wired flows is a graph of its own, without cycles, and the
wiring behaves as that graph. The errands of a value are what the graph delivers on all paths from its node, each path
once; and its agenda breaks off exactly where a step fails on what arrives at it.
-/

namespace Pipeworks

open scoped List

/-- The cluster as a graph of its own, of whose flows only those are left that are wired. -/
def Cluster.wired (c : Cluster) (load : String → Step) : Graph where
  pipeline := 0
  name := c.group
  inputs := c.inputs
  outputs := c.outputs
  transformations := c.transformations
  flows := (Topology.build load c).edges.map fun e => ⟨none, e.1, e.2⟩

def Delivery.publication (d : Delivery) : Publication := (⟨d.broker, d.topic⟩, d.payload)

def Errand.delivery (own : String) (e : Errand) : Delivery :=
  ⟨(e.sink.channel own).broker, (e.sink.channel own).topic, Record.encode e.value⟩

theorem Sink.channel_ofOutput (broker : String) (o : Endpoint) :
    (Sink.ofOutput broker o).channel broker = ⟨o.broker, o.topic⟩ := by
  rw [Sink.ofOutput]
  split_ifs with hnear
  · rw [hnear]
    rfl
  · rfl

/-! ### The graph of a wiring -/

namespace Cluster

variable (c : Cluster) (load : String → Step)

@[simp] theorem edges_wired : (c.wired load).edges = (Topology.build load c).edges := by
  simp [wired, Graph.edges, Flow.ends, Function.comp_def]

theorem acyclic_wired (n : NodeRef) : ¬(c.wired load).edges.OnCycle n := by
  rw [edges_wired]
  exact Topology.acyclic_build load c n

theorem follows_wired : (Topology.build load c).Follows (c.wired load) load c.broker fun _ => True := by
  refine ⟨fun _ _ _ _ => trivial, fun n _ => ?_, fun n id _ he => ?_, fun n id _ he => ?_⟩
  · rw [edges_wired, Topology.children]
  · rw [edges_wired] at he
    obtain ⟨node, hnode, hstep⟩ := Topology.step?_of_mem_edges he
    have hsame : (c.wired load).transformation? id = some node := hnode
    rw [hstep]
    congr 1
    funext value
    rw [Graph.stepAt, hsame]
  · rw [edges_wired] at he
    exact Topology.sink?_of_mem_edges he

end Cluster

namespace Graph

variable {g : Graph} {load : String → Step} {d : ℕ} {n m : NodeRef} {value : Json}

/-- The paths from a node; none of them is longer than the flows are many. -/
def paths (g : Graph) (n : NodeRef) : List (List (Fin g.flows.length)) := g.routes (g.edges.length + 1) n

theorem nodup_paths : (g.paths n).Nodup := nodup_routes g _ n

theorem mem_paths (hacyclic : ∀ m, ¬g.edges.OnCycle m) (p : List (Fin g.flows.length)) :
    p ∈ g.paths n ↔ g.IsRoute n p := by
  rw [paths, mem_routes]
  exact and_iff_left_of_imp fun hp => Nat.le_succ_of_le (hp.length_le hacyclic fun _ _ _ he => he)

theorem filterMap_paths (g : Graph) (load : String → Step) (n : NodeRef) (value : Json) :
    (g.paths n).filterMap (g.deliver? load · value) = g.deliveries load (g.edges.length + 1) n value :=
  g.filterMap_routes load _ n value

/-- What is delivered on the paths that lead on through a child, none of them longer than `d` from there. -/
def below (g : Graph) (load : String → Step) (d : ℕ) (value : Json) (m : NodeRef) : List Delivery :=
  match m.kind with
  | .input => []
  | .transformation =>
    match g.stepAt load m.id value with
    | .ok (some next) => g.deliveries load d m next
    | _ => []
  | .output => (g.deliveryAt? m.id value).toList

theorem deliveries_succ : g.deliveries load (d + 1) n value = (g.edges.next n).flatMap (g.below load d value) := rfl

theorem below_output (id : Int) : g.below load d value (.output id) = (g.deliveryAt? id value).toList := rfl

theorem below_dropped {id : Int} (h : g.stepAt load id value = .ok none) :
    g.below load d value (.transformation id) = [] := by
  simp only [below, h]

theorem below_passed {id : Int} {next : Json} (h : g.stepAt load id value = .ok (some next)) :
    g.below load d value (.transformation id) = g.deliveries load d (.transformation id) next := by
  simp only [below, h]

end Graph

/-! ### Agendas and paths -/

namespace Topology

/-- The errands of a value on paths of at most `d` flows from a node, as if a step that fails had dropped the value. -/
def errands (t : Topology) : ℕ → NodeRef → Json → List Errand
  | 0, _, _ => []
  | d + 1, n, value =>
    ((t.children n).reverse.flatMap fun m => (t.offer value m).errands) ++
      ((t.children n).filterMap (t.carried value)).flatMap fun x => t.errands d x.1 x.2

variable {t : Topology} {value : Json}

/-- An agenda has these errands, up to its fault if there is one. -/
theorem errands_agenda (t : Topology) (d : ℕ) (n : NodeRef) (value : Json) :
    (t.agenda d n value).errands <+: t.errands d n value ∧
      ((t.agenda d n value).fault = none → (t.agenda d n value).errands = t.errands d n value) := by
  induction d generalizing n value with
  | zero => exact ⟨List.prefix_rfl, fun _ => rfl⟩
  | succ d ih =>
      have hbelow (xs : List (NodeRef × Json)) (hxs : ∀ x ∈ xs, (t.agenda d x.1 x.2).fault = none) :
          (xs.flatMap fun x => (t.agenda d x.1 x.2).errands) = xs.flatMap fun x => t.errands d x.1 x.2 :=
        List.flatMap_congr fun x hx => (ih x.1 x.2).2 (hxs x hx)
      rw [errands]
      obtain ⟨-, hcalm, hagenda⟩ | ⟨earlier, m, later, text, hsplit, -, hagenda⟩ |
        ⟨earlier, x, later, text, hsplit, -, hearlier, -, hagenda⟩ := agenda_cases t d n value
      · rw [hagenda]
        dsimp only
        rw [hbelow _ hcalm]
        exact ⟨List.prefix_rfl, fun _ => rfl⟩
      · rw [hagenda, hsplit]
        refine ⟨?_, nofun⟩
        simp only [List.flatMap_append, List.flatMap_cons, List.append_assoc, List.prefix_append_right_inj]
        exact List.prefix_append _ _
      · rw [hagenda, hsplit]
        dsimp only
        rw [hbelow earlier hearlier]
        refine ⟨?_, nofun⟩
        simp only [List.flatMap_append, List.flatMap_cons, List.prefix_append_right_inj]
        exact (ih x.1 x.2).1.trans (List.prefix_append _ _)

variable {g : Graph} {load : String → Step} {broker : String} {P : NodeRef → Prop} {d : ℕ} {n m : NodeRef}

theorem Follows.carried_eq_some (hfollows : t.Follows g load broker P) (hn : P n) (hedge : (n, m) ∈ g.edges)
    {x : NodeRef × Json} (h : t.carried value m = some x) :
    ∃ id next, m = .transformation id ∧ g.stepAt load id value = .ok (some next) ∧ x = (.transformation id, next) := by
  obtain ⟨kind, id⟩ := m
  cases kind with
  | input => cases h
  | output => cases h
  | transformation =>
      have hstep := hfollows.stepAt n id hn hedge
      rcases hresult : g.stepAt load id value with e | _ | next
      · simp only [carried, hstep, hresult] at h
        cases h
      · rw [carried_transformation hstep hresult] at h
        cases h
      · rw [carried_transformation hstep hresult] at h
        exact ⟨id, next, rfl, hresult, (Option.some.inj h).symm⟩

/-- At a child there is a fault exactly if it is a transformation whose step fails. -/
theorem Follows.fault_offer (hfollows : t.Follows g load broker P) (hn : P n) (hedge : (n, m) ∈ g.edges)
    {text : String} :
    (t.offer value m).fault = some text ↔
      ∃ id e, m = .transformation id ∧ g.stepAt load id value = .error e ∧
        text = s!"{(NodeRef.transformation id).name} raised: {e.message}" := by
  obtain ⟨kind, id⟩ := m
  cases kind with
  | input => exact iff_of_false nofun (by simp)
  | output =>
      obtain ⟨o, -, hsink⟩ := hfollows.sinkAt n id hn hedge
      rw [offer_output hsink]
      exact iff_of_false nofun (by simp)
  | transformation =>
      rw [fault_offer_transformation (hfollows.stepAt n id hn hedge)]
      cases hresult : g.stepAt load id value with
      | ok result => exact iff_of_false nofun (by simp [hresult])
      | error e => simp [hresult, eq_comm]

/-- A child and what is below it: its own errands, and those of what is carried on from it. -/
theorem Follows.below_eq (hfollows : t.Follows g load broker P) (hn : P n) (hedge : (n, m) ∈ g.edges) (d : ℕ)
    (value : Json) :
    g.below load d value m =
      (t.offer value m).errands.map (Errand.delivery broker) ++
        (t.carried value m).toList.flatMap fun x => g.deliveries load d x.1 x.2 := by
  obtain ⟨kind, id⟩ := m
  cases kind with
  | input => rfl
  | output =>
      obtain ⟨o, ho, hsink⟩ := hfollows.sinkAt n id hn hedge
      rw [Graph.below_output, offer_output hsink, carried_output, Graph.deliveryAt?, ho]
      simp [Errand.delivery, Sink.channel_ofOutput]
  | transformation =>
      have hstep := hfollows.stepAt n id hn hedge
      rw [errands_offer_transformation]
      rcases hresult : g.stepAt load id value with e | _ | next
      · simp [Graph.below, carried, hstep, hresult]
      · rw [Graph.below_dropped hresult, carried_transformation hstep hresult]
        rfl
      · rw [Graph.below_passed hresult, carried_transformation hstep hresult]
        simp

/-- The errands are what is delivered on all paths. -/
theorem Follows.errands_perm (hfollows : t.Follows g load broker P) (hn : P n) (d : ℕ) (value : Json) :
    ((t.errands d n value).map (Errand.delivery broker)).Perm (g.deliveries load d n value) := by
  induction d generalizing n value with
  | zero => exact .nil
  | succ d ih =>
      have hedge {m : NodeRef} (hm : m ∈ t.children n) : (n, m) ∈ g.edges :=
        Edges.mem_next.mp (hfollows.children n hn ▸ hm)
      have hcarried : ∀ m ∈ t.children n, ∀ x ∈ (t.carried value m).toList,
          ((t.errands d x.1 x.2).map (Errand.delivery broker)).Perm (g.deliveries load d x.1 x.2) := by
        intro m hm x hx
        obtain ⟨id, next, rfl, -, rfl⟩ := hfollows.carried_eq_some hn (hedge hm) (Option.mem_toList.mp hx)
        exact ih (hfollows.closed n _ (hedge hm) hn) next
      -- what is carried on comes after all that is offered, but belongs to the paths through the same child
      calc (t.errands (d + 1) n value).map (Errand.delivery broker)
        _ = ((t.children n).reverse.flatMap fun m => (t.offer value m).errands.map (Errand.delivery broker)) ++
            (t.children n).flatMap fun m => (t.carried value m).toList.flatMap fun x =>
              (t.errands d x.1 x.2).map (Errand.delivery broker) := by
          rw [errands, List.map_append, List.map_flatMap, List.map_flatMap, List.filterMap_eq_flatMap_toList,
            List.flatMap_assoc]
        _ ~ ((t.children n).flatMap fun m => (t.offer value m).errands.map (Errand.delivery broker)) ++
            (t.children n).flatMap fun m => (t.carried value m).toList.flatMap fun x =>
              g.deliveries load d x.1 x.2 :=
          ((List.reverse_perm _).flatMap_right _).append
            (List.Perm.flatMap_left _ fun m hm => List.Perm.flatMap_left _ fun x hx => hcarried m hm x hx)
        _ ~ (t.children n).flatMap fun m => (t.offer value m).errands.map (Errand.delivery broker) ++
            (t.carried value m).toList.flatMap fun x => g.deliveries load d x.1 x.2 :=
          List.flatMap_append_perm ..
        _ = (t.children n).flatMap (g.below load d value) :=
          List.flatMap_congr fun m hm => (hfollows.below_eq hn (hedge hm) d value).symm
        _ = g.deliveries load (d + 1) n value := by rw [Graph.deliveries_succ, hfollows.children n hn]

/-- What a fault is put down to: a step that fails on what arrives at it. -/
theorem Follows.exists_arrives_of_fault (hfollows : t.Follows g load broker P) (hn : P n) {text : String}
    (h : (t.agenda d n value).fault = some text) :
    ∃ m last id e, g.Arrives load n value m last ∧ (m, .transformation id) ∈ g.edges ∧ g.stepAt load id last = .error e ∧
      text = s!"{(NodeRef.transformation id).name} raised: {e.message}" := by
  induction d generalizing n value with
  | zero => cases h
  | succ d ih =>
      have hchild {m : NodeRef} (hm : m ∈ t.children n) : (n, m) ∈ g.edges := by
        rw [hfollows.children n hn] at hm
        exact Edges.mem_next.mp hm
      obtain ⟨-, -, hagenda⟩ | ⟨earlier, m, later, text', hsplit, htext, hagenda⟩ |
        ⟨earlier, x, later, text', hsplit, -, -, htext, hagenda⟩ := agenda_cases t d n value
      · rw [hagenda] at h
        cases h
      · rw [hagenda] at h
        obtain rfl := Option.some.inj h
        have hedge := hchild (List.mem_reverse.mp (hsplit ▸ List.mem_append_right _ List.mem_cons_self))
        obtain ⟨id, e, rfl, hstep, htext⟩ := (hfollows.fault_offer hn hedge).mp htext
        exact ⟨n, value, id, e, .here n value, hedge, hstep, htext⟩
      · rw [hagenda] at h
        obtain rfl := Option.some.inj h
        have hx : x ∈ (t.children n).filterMap (t.carried value) :=
          hsplit ▸ List.mem_append_right _ List.mem_cons_self
        obtain ⟨m, hm, hx⟩ := List.mem_filterMap.mp hx
        obtain ⟨id, next, rfl, hstep, rfl⟩ := hfollows.carried_eq_some hn (hchild hm) hx
        obtain ⟨m, last, id', e, harrives, hlast⟩ := ih (hfollows.closed n _ (hchild hm) hn) htext
        exact ⟨m, last, id', e, .step (hchild hm) hstep harrives, hlast⟩

theorem Follows.fault_eq_none (hfollows : t.Follows g load broker P) (hn : P n) (h : g.Undisturbed load n value)
    (d : ℕ) :
    (t.agenda d n value).fault = none := by
  by_contra hfault
  obtain ⟨text, htext⟩ := Option.ne_none_iff_exists'.mp hfault
  obtain ⟨m, last, id, e, harrives, hedge, hstep, -⟩ := hfollows.exists_arrives_of_fault hn htext
  exact h m last harrives id e hedge hstep

/-- Where there is no fault within the bound on the depth, no step fails on what arrives at it. -/
theorem Follows.undisturbed (hfollows : t.Follows g load broker P) (hacyclic : ∀ m, ¬g.edges.OnCycle m) (hn : P n)
    (hd : g.edges.ahead n < d) (h : (t.agenda d n value).fault = none) : g.Undisturbed load n value := by
  induction d generalizing n value with
  | zero => exact absurd hd (Nat.not_lt_zero _)
  | succ d ih =>
      obtain ⟨hoffers, hbelow, -⟩ | ⟨_, _, _, _, -, -, hagenda⟩ | ⟨_, _, _, _, -, -, -, -, hagenda⟩ :=
        agenda_cases t d n value
      · have hchild {m : NodeRef} (hedge : (n, m) ∈ g.edges) : m ∈ t.children n := by
          rw [hfollows.children n hn]
          exact Edges.mem_next.mpr hedge
        intro m last harrives
        cases harrives with
        | here =>
            intro id e hedge hstep
            have hfault := (hfollows.fault_offer hn hedge).mpr ⟨id, e, rfl, hstep, rfl⟩
            rw [hoffers _ (hchild hedge)] at hfault
            cases hfault
        | @step _ _ id _ next _ hedge hstep harrives =>
            have hcarried := carried_transformation (hfollows.stepAt n id hn hedge) hstep
            have hx := List.mem_filterMap.mpr ⟨_, hchild hedge, hcarried⟩
            have hlt := Edges.ahead_lt hacyclic hedge
            exact ih (hfollows.closed n _ hedge hn) (by omega) (hbelow _ hx) m last harrives
      · rw [hagenda] at h
        cases h
      · rw [hagenda] at h
        cases h

end Topology

/-- There is nothing wrong with an item that has a value, if no step fails on what arrives at it. -/
theorem Runner.fault_agenda_eq_none_iff {r : Runner} {g : Graph} {load : String → Step}
    (hfollows : r.topology.Follows g load r.cluster.broker fun _ => True) (hacyclic : ∀ m, ¬g.edges.OnCycle m)
    (hedges : g.edges = r.topology.edges) {a : Arrival} :
    (r.agenda a).fault = none ↔ ∃ value, a.value = .ok value ∧ g.Undisturbed load a.input value := by
  constructor
  · intro hcalm
    cases hvalue : a.value with
    | error e => exact absurd hcalm (agenda_of_no_value hvalue).2
    | ok value =>
        rw [agenda_of_value hvalue, ← hedges] at hcalm
        exact ⟨value, rfl, hfollows.undisturbed hacyclic trivial (Nat.lt_succ_of_le (Edges.ahead_le _ _)) hcalm⟩
  · rintro ⟨value, hvalue, hcalm⟩
    rw [agenda_of_value hvalue]
    exact hfollows.fault_eq_none trivial hcalm _

end Pipeworks
