import Pipeworks.Proofs.Topology.Acyclic
import Pipeworks.Proofs.Worker.Round

/-!
The order in which the work of a cluster publishes, whatever its flows are and whoever the brokers are. When a record
is handled without a fault, the outputs among the children of a node are published at once, the last flow first; then
the transformations among them are followed in the order of the flows, each one to its end before the next one. So
what a record is turned into by a step is published after the record itself, also where its flow comes first.
-/

namespace Pipeworks

open Link (Exchange)

variable {σ κ : Type}

def Action.publication? : Action κ → Option Publication
  | .published _ channel payload => some (channel, payload)
  | _ => none

def Session.published (s : Session σ κ) : List Publication := s.trace.filterMap Action.publication?

theorem Session.Goes.published {link : Link σ κ} {account : Account κ} {s t : Session σ κ} (h : s.Goes link account t) :
    t.published = s.published ++ account.actions.filterMap Action.publication? := by
  rw [Session.published, h.trace, List.filterMap_append]
  rfl

/-! ### Traversals of a topology -/

namespace Topology

/-- What is published when a value is offered to some siblings, one after another, each one carried to its end
before the next one: an output publishes it, and what a step makes of it is offered to the children of the
transformation, in the order in which `kids` lists them. -/
inductive Traversal (t : Topology) (broker : String) (kids : NodeRef → List NodeRef) :
    List NodeRef → Json → List Publication → Prop where
  | done (value : Json) : Traversal t broker kids [] value []
  | output {id : Int} {sink : Sink} {siblings : List NodeRef} {value : Json} {out : List Publication} :
      t.sink? id = some sink → Traversal t broker kids siblings value out →
      Traversal t broker kids (.output id :: siblings) value
        ((sink.channel broker, Record.encode value) :: out)
  | dropped {id : Int} {step : Step} {siblings : List NodeRef} {value : Json} {out : List Publication} :
      t.step? id = some step → step value = .ok none → Traversal t broker kids siblings value out →
      Traversal t broker kids (.transformation id :: siblings) value out
  | passed {id : Int} {step : Step} {siblings : List NodeRef} {value next : Json} {below out : List Publication} :
      t.step? id = some step → step value = .ok (some next) →
      Traversal t broker kids (kids (.transformation id)) next below → Traversal t broker kids siblings value out →
      Traversal t broker kids (.transformation id :: siblings) value (below ++ out)

/-- The children of a node as they are served: the outputs among them, the last flow first, and then the
transformations, the first flow first. -/
def served (t : Topology) (n : NodeRef) : List NodeRef :=
  (t.children n).reverse.filter (·.kind = .output) ++ (t.children n).filter (·.kind = .transformation)

variable {t : Topology} {broker : String} {kids : NodeRef → List NodeRef} {value : Json} {out : List Publication}

theorem Traversal.unique {siblings : List NodeRef} {out' : List Publication}
    (h : t.Traversal broker kids siblings value out) (h' : t.Traversal broker kids siblings value out') :
    out = out' := by
  induction h generalizing out' with
  | done => cases h' with | done => rfl
  | output hsink _ ih =>
      cases h' with
      | output hsink' hrest' =>
          obtain rfl := Option.some.inj (hsink.symm.trans hsink')
          rw [ih hrest']
  | dropped hstep hresult _ ih =>
      cases h' with
      | dropped hstep' hresult' hrest' => exact ih hrest'
      | passed hstep' hresult' hbelow' hrest' =>
          obtain rfl := Option.some.inj (hstep.symm.trans hstep')
          cases hresult.symm.trans hresult'
  | passed hstep hresult _ _ ihbelow ih =>
      cases h' with
      | dropped hstep' hresult' hrest' =>
          obtain rfl := Option.some.inj (hstep.symm.trans hstep')
          cases hresult.symm.trans hresult'
      | passed hstep' hresult' hbelow' hrest' =>
          obtain rfl := Option.some.inj (hstep.symm.trans hstep')
          obtain rfl := Option.some.inj (Except.ok.inj (hresult.symm.trans hresult'))
          rw [ihbelow hbelow', ih hrest']

/-- Outputs in front publish first. Of the nodes that are offered the value only the outputs publish it at once. -/
theorem Traversal.outputs (ms : List NodeRef) (hfitted : ∀ m ∈ ms, t.Fitted m) {siblings : List NodeRef}
    (h : t.Traversal broker kids siblings value out) :
    t.Traversal broker kids (ms.filter (·.kind = .output) ++ siblings) value
      ((ms.flatMap fun m => (t.offer value m).errands).map (Errand.publication broker) ++ out) := by
  induction ms with
  | nil => exact h
  | cons m ms ih =>
      have hrest := ih fun m' hm' => hfitted m' (List.mem_cons_of_mem _ hm')
      obtain ⟨id, step, rfl, hstep⟩ | ⟨id, sink, rfl, hsink⟩ := hfitted m List.mem_cons_self
      · rw [List.filter_cons_of_neg (by simp), List.flatMap_cons, errands_offer_transformation]
        exact hrest
      · rw [List.filter_cons_of_pos (by simp), List.flatMap_cons, offer_output hsink]
        exact .output hsink hrest

theorem Traversal.transformations (ms : List NodeRef) (hfitted : ∀ m ∈ ms, t.Fitted m)
    (hcalm : ∀ m ∈ ms, (t.offer value m).fault = none) (below : NodeRef × Json → List Publication)
    (hbelow : ∀ x ∈ ms.filterMap (t.carried value), t.Traversal broker kids (kids x.1) x.2 (below x)) :
    t.Traversal broker kids (ms.filter (·.kind = .transformation)) value
      ((ms.filterMap (t.carried value)).flatMap below) := by
  induction ms with
  | nil => exact .done value
  | cons m ms ih =>
      have hrest := ih (fun m' hm' => hfitted m' (List.mem_cons_of_mem _ hm'))
        (fun m' hm' => hcalm m' (List.mem_cons_of_mem _ hm'))
      obtain ⟨id, step, rfl, hstep⟩ | ⟨id, sink, rfl, hsink⟩ := hfitted m List.mem_cons_self
      · rw [List.filter_cons_of_pos (by simp)]
        have hfine := hcalm _ List.mem_cons_self
        rw [fault_offer_transformation hstep] at hfine
        rcases hresult : step value with e | _ | next
        · rw [hresult] at hfine
          cases hfine
        · rw [List.filterMap_cons_none (carried_transformation hstep hresult)] at hbelow ⊢
          exact .dropped hstep hresult (hrest hbelow)
        · rw [List.filterMap_cons_some (carried_transformation hstep hresult)] at hbelow ⊢
          obtain ⟨hfirst, hothers⟩ := List.forall_mem_cons.mp hbelow
          exact .passed hstep hresult hfirst (hrest hothers)
      · rw [List.filter_cons_of_neg (by simp)]
        rw [List.filterMap_cons_none (carried_output t value id)] at hbelow ⊢
        exact hrest hbelow

/-- Where no step fails, the errands are those of the traversal. Carrying a value down ends before the bound on the depth
is met, because each flow that is followed leaves fewer flows ahead. -/
theorem traversal_of_fault {load : String → Step} {c : Cluster} (ht : t = build load c) {d : ℕ} {n : NodeRef}
    (hd : t.edges.ahead n < d) (hcalm : (t.agenda d n value).fault = none) :
    t.Traversal broker t.served (t.served n) value ((t.agenda d n value).errands.map (Errand.publication broker)) := by
  induction d generalizing n value with
  | zero => exact absurd hd (Nat.not_lt_zero _)
  | succ d ih =>
      have hfitted : ∀ m ∈ t.children n, t.Fitted m := by
        rw [ht]
        exact fun m => fitted_of_mem_children
      obtain ⟨hoffers, hbelow, hagenda⟩ | ⟨_, _, _, _, -, -, hagenda⟩ |
        ⟨_, _, _, _, -, -, -, -, hagenda⟩ :=
        agenda_cases t d n value
      · rw [hagenda, List.map_append, List.map_flatMap (l := (t.children n).filterMap (t.carried value))]
        refine Traversal.outputs _ (fun m hm => hfitted m (List.mem_reverse.mp hm))
          (Traversal.transformations _ hfitted hoffers _ fun x hx => ?_)
        obtain ⟨m, hm, hx'⟩ := List.mem_filterMap.mp hx
        obtain rfl := eq_of_carried hx'
        refine ih ?_ (hbelow x hx)
        have hlt := Edges.ahead_lt (ht ▸ acyclic_build load c) (Edges.mem_next.mp hm)
        omega
      · rw [hagenda] at hcalm
        cases hcalm
      · rw [hagenda] at hcalm
        cases hcalm

end Topology

/-! ### The work on a record -/

namespace Runner

variable {link : Link σ κ} {load : String → Step} {r : Runner} {home : κ} {bridges : List (String × κ)}
  {a : Arrival} {trips : List (Trip κ)} {account : Account κ} {s s' : Session σ κ}

theorem filterMap_reports (kind topic : String) (value : Json) :
    (r.reports kind topic value : List (Action κ)).filterMap Action.publication? = [] := by
  rw [reports]
  split_ifs <;> rfl

/-- A trip publishes what it was made for, if all its calls are granted. -/
theorem published_trip {trip : Trip κ} (hmade : (trip.visit r.cluster.broker).Made r.cluster.broker home bridges) :
    (trip.actions r).filterMap Action.publication? =
      if ∀ call ∈ trip.calls, call.Granted then [trip.publication r.cluster.broker] else [] := by
  obtain ⟨⟨sink, value⟩, calls⟩ := trip
  change Visit.Made _ home bridges ⟨(sink.channel r.cluster.broker, Record.encode value), calls⟩ at hmade
  rw [Trip.actions, List.filterMap_append, List.filterMap_map, Trip.sent]
  cases hmade with
  | near answer | again answer | first _ answer =>
      cases answer <;>
        simp [Exchange.broker?, Exchange.Granted, Dispatch.deeds, filterMap_reports, Action.publication?, Except.isOk,
          Except.toBool, Errand.publication]
  | refused => simp [Exchange.broker?, Exchange.Granted, Action.publication?, Except.isOk, Except.toBool]

/-- Trips publish one after another what they were made for; only the last one may have failed to. -/
theorem published_trips (hturn : Visit.InTurn r.cluster.broker home bridges (trips.map (Trip.visit r.cluster.broker))) :
    (trips.flatMap (Trip.actions r)).filterMap Action.publication? <+:
        trips.map (·.publication r.cluster.broker) ∧
      ((∀ t ∈ trips, ∀ call ∈ t.calls, call.Granted) →
        (trips.flatMap (Trip.actions r)).filterMap Action.publication? = trips.map (·.publication r.cluster.broker)) := by
  have hone {t : Trip κ} (ht : t ∈ trips) : (t.actions r).filterMap Action.publication? =
      if ∀ call ∈ t.calls, call.Granted then [t.publication r.cluster.broker] else [] := by
    obtain ⟨bridges', hmade⟩ := hturn.made_of_mem (List.mem_map_of_mem ht)
    exact published_trip hmade
  have hall (ts : List (Trip κ)) (hts : ts ⊆ trips) (hgranted : ∀ t ∈ ts, ∀ call ∈ t.calls, call.Granted) :
      (ts.flatMap (Trip.actions r)).filterMap Action.publication? = ts.map (·.publication r.cluster.broker) := by
    rw [List.filterMap_flatMap, List.map_eq_flatMap]
    refine List.flatMap_congr fun t ht => ?_
    rw [hone (hts ht), if_pos (hgranted t ht)]
  refine ⟨?_, hall trips (List.Subset.refl _)⟩
  obtain rfl | ⟨earlier, last, rfl⟩ := trips.eq_nil_or_concat'
  · exact List.prefix_rfl
  · obtain ⟨-, hgranted⟩ := hturn (earlier.map (Trip.visit r.cluster.broker)) (last.visit r.cluster.broker) [] (by simp)
    rw [List.flatMap_append, List.filterMap_append, List.map_append,
      hall earlier (List.subset_append_left _ _) (List.forall_mem_map.mp hgranted), List.flatMap_singleton,
      hone (List.mem_append_right _ List.mem_cons_self), List.prefix_append_right_inj]
    split_ifs
    · exact List.prefix_rfl
    · exact List.nil_prefix

theorem Rounds.published_single (h : r.Rounds home bridges [(a, trips)] account) :
    account.actions.filterMap Action.publication? =
      (trips.flatMap (Trip.actions r)).filterMap Action.publication? := by
  have hreceipt : (r.receipt a : List (Action κ)).filterMap Action.publication? = [] := by
    rw [receipt]
    split
    · exact filterMap_reports _ _ _
    · rfl
  rw [h.actions, List.flatMap_singleton, List.filterMap_append, hreceipt, List.nil_append]

/-- An item that is worked on without a fault publishes its whole agenda. -/
theorem published_accept (htopology : r.topology = Topology.build load r.cluster)
    (hrun : r.accept link home a s = .ok () s') :
    (r.agenda a).fault = none ∧
      s'.published = s.published ++ (r.agenda a).errands.map (Errand.publication r.cluster.broker) := by
  obtain ⟨account, -, hgoes, trips, hround, ⟨herrands, hgranted, hfault⟩ | _⟩ := (does_accept htopology a).of_ok hrun
  refine ⟨hfault, ?_⟩
  rw [hgoes.published, hround.published_single, ← herrands, List.map_map]
  have hturn := hround.visits.inTurn
  rw [List.flatMap_singleton] at hturn
  rw [(published_trips hturn).2 hgranted]
  rfl

/-- When a fault ends the work on an item, what it has published is a beginning of its agenda. -/
theorem published_accept_error (htopology : r.topology = Topology.build load r.cluster) {e : Error}
    (hrun : r.accept link home a s = .error e s') :
    ∃ out, out <+: (r.agenda a).errands.map (Errand.publication r.cluster.broker) ∧
      s'.published = s.published ++ out := by
  obtain ⟨account, -, hgoes, trips, text, -, hround, hends⟩ := (does_accept htopology a).of_error hrun
  refine ⟨account.actions.filterMap Action.publication?, ?_, hgoes.published⟩
  have hturn := hround.visits.inTurn
  rw [List.flatMap_singleton] at hturn
  have hpublished := (published_trips hturn).1
  rw [← hround.published_single] at hpublished
  refine hpublished.trans ?_
  have hmap := hends.isPrefix.map (Errand.publication r.cluster.broker)
  rw [List.map_map] at hmap
  exact hmap

def Completes (r : Runner) (a : Arrival) (out : List Publication) : Prop :=
  ∃ value, a.value = .ok value ∧
    r.topology.Traversal r.cluster.broker r.topology.served (r.topology.served a.input) value out

theorem completes_agenda (htopology : r.topology = Topology.build load r.cluster)
    (hcalm : (r.agenda a).fault = none) :
    r.Completes a ((r.agenda a).errands.map (Errand.publication r.cluster.broker)) := by
  cases hvalue : a.value with
  | error e => exact absurd hcalm (agenda_of_no_value hvalue).2
  | ok value =>
      rw [agenda_of_value hvalue] at hcalm ⊢
      exact ⟨value, hvalue, Topology.traversal_of_fault htopology (Nat.lt_succ_of_le (Edges.ahead_le _ _)) hcalm⟩

theorem completes_of_accept (htopology : r.topology = Topology.build load r.cluster)
    (hrun : r.accept link home a s = .ok () s') :
    ∃ out, r.Completes a out ∧ s'.published = s.published ++ out := by
  obtain ⟨hcalm, hpublished⟩ := published_accept htopology hrun
  exact ⟨_, completes_agenda htopology hcalm, hpublished⟩

/-- What a record that is handled without a fault publishes, whatever the cluster, the brokers and the session are:
the traversal from the node on which the record arrives. -/
theorem handle_publishes_traversal (load : String → Step) (pipeline : PipelineId) (c : Cluster) (streamEvents : Bool)
    (link : Link σ κ) (home : κ) (input : NodeRef) (topic : String) (payload : ByteArray) (s s' : Session σ κ)
    (h : handle link ⟨pipeline, c, Topology.build load c, streamEvents⟩ home input topic payload s = .ok () s') :
    ∃ value out, Record.decode payload = .ok value ∧ s'.published = s.published ++ out ∧
      (Topology.build load c).Traversal c.broker (Topology.build load c).served ((Topology.build load c).served input)
        value out := by
  let r : Runner := ⟨pipeline, c, Topology.build load c, streamEvents⟩
  have htopology : r.topology = Topology.build load r.cluster := rfl
  have haccept : r.accept link home ⟨input, topic, .ok payload⟩ s = .ok () s' := h
  obtain ⟨out, ⟨value, hvalue, htraversal⟩, hpublished⟩ := completes_of_accept htopology haccept
  exact ⟨value, out, hvalue, hpublished, htraversal⟩

/-- An input with three flows: one to a step, which feeds an output, and two to outputs. -/
def siblings : Cluster where
  index := 0
  broker := "near"
  group := "siblings"
  inputs := [⟨1, none, "x", "near", none⟩]
  flows := [⟨none, .input 1, .transformation 2⟩, ⟨none, .input 1, .output 4⟩, ⟨none, .input 1, .output 5⟩,
    ⟨none, .transformation 2, .output 3⟩]
  transformations := [⟨2, none, "double", none, none⟩]
  outputs := [⟨3, none, "y", "near", none⟩, ⟨4, none, "y", "near", none⟩, ⟨5, none, "z", "near", none⟩]

def double (_ : String) : Step
  | .int i => .ok (some (.int (2 * i)))
  | value => .ok (some value)

/-- The number two on the input is published on the topic of the last flow, on the topic of the flow before, and only
then, doubled, below the step, whose flow is the first one. -/
theorem handle_siblings :
    ∃ s', handle Hub.link ⟨1, siblings, Topology.build double siblings, false⟩ "near" (.input 1) "x"
        (Record.encode (.int 2)) { world := {} } = .ok () s' ∧
      s'.published = [(⟨"near", "z"⟩, Record.encode (.int 2)), (⟨"near", "y"⟩, Record.encode (.int 2)),
        (⟨"near", "y"⟩, Record.encode (.int 4))] :=
  ⟨_, rfl, rfl⟩

theorem handle_publishes_traversal_siblings :
    ∃ value, Record.decode (Record.encode (.int 2)) = .ok value ∧
      (Topology.build double siblings).Traversal "near" (Topology.build double siblings).served
        [.output 5, .output 4, .transformation 2] value
        [(⟨"near", "z"⟩, Record.encode (.int 2)), (⟨"near", "y"⟩, Record.encode (.int 2)),
          (⟨"near", "y"⟩, Record.encode (.int 4))] := by
  obtain ⟨s', hrun, hpublished⟩ := handle_siblings
  obtain ⟨value, out, hvalue, hout, htraversal⟩ :=
    handle_publishes_traversal double 1 siblings false Hub.link "near" (.input 1) "x" _ _ s' hrun
  obtain rfl : out = _ := hout.symm.trans hpublished
  exact ⟨value, hvalue, htraversal⟩

/-- The order is not the one of the flows: it is not true that, whenever a record is handled without a fault, what it
publishes is the traversal in which the children of each node are visited in the order of the flows. -/
theorem handle_not_in_flow_order :
    ¬∀ (load : String → Step) (pipeline : PipelineId) (c : Cluster) (streamEvents : Bool) (link : Link Hub String)
      (home : String) (input : NodeRef) (topic : String) (payload : ByteArray) (s s' : Session Hub String),
      handle link ⟨pipeline, c, Topology.build load c, streamEvents⟩ home input topic payload s = .ok () s' →
      ∃ value out, Record.decode payload = .ok value ∧ s'.published = s.published ++ out ∧
        (Topology.build load c).Traversal c.broker (Topology.build load c).children
          ((Topology.build load c).children input) value out := by
  intro hclaim
  obtain ⟨s', hrun, hpublished⟩ := handle_siblings
  obtain ⟨value, out, hvalue, hout, htraversal⟩ :=
    hclaim double 1 siblings false Hub.link "near" (.input 1) "x" _ _ s' hrun
  obtain rfl : .int 2 = value := Except.ok.inj ((rfl : Record.decode (Record.encode (.int 2)) = _).symm.trans hvalue)
  set t := Topology.build double siblings
  have hbelow : t.Traversal "near" t.children [.output 3] (.int 4) [(⟨"near", "y"⟩, Record.encode (.int 4))] :=
    .output (show t.sink? 3 = some (.near "y") from rfl) (.done _)
  have hrest : t.Traversal "near" t.children [.output 4, .output 5] (.int 2)
      [(⟨"near", "y"⟩, Record.encode (.int 2)), (⟨"near", "z"⟩, Record.encode (.int 2))] :=
    .output (show t.sink? 4 = some (.near "y") from rfl)
      (.output (show t.sink? 5 = some (.near "z") from rfl) (.done _))
  -- in the order of the flows the doubled number comes first
  have hflows : t.Traversal "near" t.children [.transformation 2, .output 4, .output 5] (.int 2)
      [(⟨"near", "y"⟩, Record.encode (.int 4)), (⟨"near", "y"⟩, Record.encode (.int 2)),
        (⟨"near", "z"⟩, Record.encode (.int 2))] :=
    .passed (show t.step? 2 = some (double "double") from rfl) rfl hbelow hrest
  have heq := (hout.symm.trans hpublished).symm.trans (htraversal.unique hflows)
  exact absurd (congrArg (·.map (·.1.topic)) heq) (by decide)

end Runner

end Pipeworks
