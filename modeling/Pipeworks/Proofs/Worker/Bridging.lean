import Pipeworks.Proofs.Worker.Delivery

/-!
Bridges make no difference. Two clusters that differ only in the brokers of their outputs are wired alike, so the same
is to be done with the same records: their agendas have the same faults and, one by one, errands that take the same
value to the same output. So while the brokers serve, both publish the same payloads to the same topics, report the same
events in between, and come to the same end. What differs is where a publication lands, and that is at the broker that
its output names, be it the broker of the cluster or one that a bridge leads to.
-/

namespace Pipeworks

variable {σ κ : Type}

/-! ### Clusters that differ in the brokers of their outputs -/

structure Cluster.Rebrokered (c c' : Cluster) : Prop where
  outputs : List.Forall₂ (fun o o' : Endpoint => o' = { o with broker := o'.broker }) c.outputs c'.outputs
  others : c' = { c with outputs := c'.outputs }

/-- Remarks that differ only in the broker that the output of a publication names. -/
inductive Remark.Twin (c c' : Cluster) : Remark → Remark → Prop where
  | event (e : Event) : Twin c c' (.event e) (.event e)
  | delivery {id : Int} {o o' : Endpoint} (payload : ByteArray) :
      c.output? id = some o → c'.output? id = some o' → o'.topic = o.topic →
      Twin c c' (.delivery ⟨o.broker, o.topic, payload⟩) (.delivery ⟨o'.broker, o.topic, payload⟩)

namespace Cluster.Rebrokered

variable {c c' : Cluster}

/-- Outputs of the same id stand at the same place; they have the same topic. -/
theorem output? (h : c.Rebrokered c') (id : Int) :
    (c.output? id = none ∧ c'.output? id = none) ∨
      ∃ o o', c.output? id = some o ∧ c'.output? id = some o' ∧ o'.topic = o.topic := by
  have houtputs := h.outputs
  rw [Cluster.output?, Cluster.output?]
  generalize c.outputs = os at houtputs ⊢
  generalize c'.outputs = os' at houtputs ⊢
  induction houtputs with
  | nil => exact .inl ⟨rfl, rfl⟩
  | @cons o o' os os' ho _ ih =>
      have hid : o'.id = o.id := by rw [ho]
      have htopic : o'.topic = o.topic := by rw [ho]
      rw [List.find?_cons, List.find?_cons, hid]
      cases decide (o.id = id) with
      | true => exact .inr ⟨o, o', rfl, rfl, htopic⟩
      | false => exact ih

theorem takes (h : c.Rebrokered c') (n : NodeRef) : c'.takes n = c.takes n := by
  rw [Cluster.takes, Cluster.takes]
  cases n.kind with
  | input => rfl
  | transformation => rw [h.others]; rfl
  | output =>
      obtain ⟨hnone, hnone'⟩ | ⟨o, o', ho, ho', -⟩ := h.output? n.id
      · simp [hnone, hnone']
      · simp [ho, ho']

end Cluster.Rebrokered

structure Topology.Level (t t' : Topology) : Prop where
  edges : t'.edges = t.edges
  steps : ∀ id, t'.step? id = t.step? id
  sinks : ∀ id, (t'.sink? id).isSome = (t.sink? id).isSome

namespace Topology.Level

variable {c c' : Cluster} {t t' : Topology}

theorem admits (h : c.Rebrokered c') (ht : t.Level t') (f : Flow) : t'.admits c' f = t.admits c f := by
  rw [Topology.admits, Topology.admits, Topology.live, Topology.live, ht.edges, h.others]

theorem wire (load : String → Step) (h : c.Rebrokered c') (ht : t.Level t') (f : Flow) :
    (Topology.wire load c t f).Level (Topology.wire load c' t' f) := by
  constructor
  · rw [edges_wire, edges_wire, ht.admits h, h.takes, ht.edges]
  · intro id
    rw [step?_wire, step?_wire, ht.admits h, ht.steps, h.others]
    rfl
  · intro id
    have houtput : (c'.output? id).isSome = (c.output? id).isSome := by
      obtain ⟨hnone, hnone'⟩ | ⟨o, o', ho, ho', -⟩ := h.output? id
      · rw [hnone, hnone']
      · rw [ho, ho']
        rfl
    rw [sink?_wire, sink?_wire, ht.admits h, Option.isSome_or, Option.isSome_or, ht.sinks]
    split_ifs
    · rw [Option.isSome_map, Option.isSome_map, houtput]
    · rfl

theorem build (load : String → Step) (h : c.Rebrokered c') :
    (Topology.build load c).Level (Topology.build load c') := by
  have hfold : ∀ (fs : List Flow) (t t' : Topology), t.Level t' →
      (fs.foldl (Topology.wire load c) t).Level (fs.foldl (Topology.wire load c') t') := by
    intro fs
    induction fs with
    | nil => exact fun _ _ ht => ht
    | cons f fs ih => exact fun t t' ht => ih _ _ (ht.wire load h f)
  have hflows : c'.flows = c.flows := by rw [h.others]
  rw [Topology.build, Topology.build, hflows]
  exact hfold c.flows {} {} ⟨rfl, fun _ => rfl, fun _ => rfl⟩

end Topology.Level

/-! ### The agendas of two such clusters -/

/-- Errands that take a value to the same output, as it stands in two clusters. -/
inductive Errand.Twin (c c' : Cluster) : Errand → Errand → Prop where
  | output {id : Int} {o o' : Endpoint} (value : Json) : c.output? id = some o → c'.output? id = some o' →
      o'.topic = o.topic → Twin c c' ⟨Sink.ofOutput c.broker o, value⟩ ⟨Sink.ofOutput c'.broker o', value⟩

structure Agenda.Twin (c c' : Cluster) (a a' : Agenda) : Prop where
  errands : List.Forall₂ (Errand.Twin c c') a.errands a'.errands
  fault : a'.fault = a.fault

namespace Agenda.Twin

variable {c c' : Cluster} {a a' b b' : Agenda}

theorem empty : Agenda.Twin c c' ∅ ∅ := ⟨.nil, rfl⟩

theorem append (h : a.Twin c c' a') (h' : b.Twin c c' b') : (a ++ b).Twin c c' (a' ++ b') := by
  cases hfault : a.fault with
  | none =>
      rw [append_of_none hfault, append_of_none (h.fault.trans hfault)]
      exact ⟨List.rel_append h.errands h'.errands, h'.fault⟩
  | some text =>
      rw [append_of_some hfault, append_of_some (h.fault.trans hfault)]
      exact h

theorem all {α : Type} {f f' : α → Agenda} (xs : List α) (h : ∀ x ∈ xs, (f x).Twin c c' (f' x)) :
    (Agenda.all (xs.map f)).Twin c c' (Agenda.all (xs.map f')) := by
  induction xs with
  | nil => exact empty
  | cons x xs ih => exact (h x List.mem_cons_self).append (ih fun y hy => h y (List.mem_cons_of_mem _ hy))

end Agenda.Twin

namespace Runner

structure Twins (load : String → Step) (r r' : Runner) : Prop where
  cluster : r.cluster.Rebrokered r'.cluster
  pipeline : r'.pipeline = r.pipeline
  streamEvents : r'.streamEvents = r.streamEvents
  topology : r.topology = Topology.build load r.cluster
  topology' : r'.topology = Topology.build load r'.cluster

namespace Twins

variable {load : String → Step} {r r' : Runner}

theorem level (h : Twins load r r') : r.topology.Level r'.topology := by
  rw [h.topology, h.topology']
  exact .build load h.cluster

theorem index (h : Twins load r r') : r'.cluster.index = r.cluster.index := by rw [h.cluster.others]

theorem broker (h : Twins load r r') : r'.cluster.broker = r.cluster.broker := by rw [h.cluster.others]

theorem fault (h : Twins load r r') (text : String) : r'.fault text = r.fault text := by
  rw [Runner.fault, Runner.fault, h.index]

theorem reported (h : Twins load r r') (kind topic : String) (value : Json) :
    r'.reported kind topic value = r.reported kind topic value := by
  rw [Runner.reported, Runner.reported, h.streamEvents, h.pipeline, h.index]

theorem forall₂_reported (h : Twins load r r') (kind topic : String) (value : Json) :
    List.Forall₂ (Remark.Twin r.cluster r'.cluster) (r.reported kind topic value) (r'.reported kind topic value) := by
  rw [h.reported, Runner.reported]
  split_ifs
  · exact .cons (.event _) .nil
  · exact .nil

/-- At an output both have no sink, or each has the one that its own cluster gives it. -/
theorem sink? (h : Twins load r r') (id : Int) :
    (r.topology.sink? id = none ∧ r'.topology.sink? id = none) ∨
      ∃ o o', r.cluster.output? id = some o ∧ r'.cluster.output? id = some o' ∧ o'.topic = o.topic ∧
        r.topology.sink? id = some (Sink.ofOutput r.cluster.broker o) ∧
        r'.topology.sink? id = some (Sink.ofOutput r'.cluster.broker o') := by
  have hsome := h.level.sinks id
  cases hsink : r.topology.sink? id with
  | none => exact .inl ⟨rfl, by simpa [hsink] using hsome⟩
  | some sink =>
      obtain ⟨sink', hsink'⟩ := Option.isSome_iff_exists.mp (hsome.trans (by rw [hsink]; rfl))
      have hequipped := h.topology ▸ Topology.equipped_build load r.cluster
      have hequipped' := h.topology' ▸ Topology.equipped_build load r'.cluster
      obtain ⟨o, ho, rfl⟩ := Option.map_eq_some_iff.mp (hequipped.sinkOf id sink hsink)
      obtain ⟨o', ho', rfl⟩ := Option.map_eq_some_iff.mp (hequipped'.sinkOf id sink' hsink')
      obtain ⟨hnone, -⟩ | ⟨p, p', hp, hp', htopic⟩ := h.cluster.output? id
      · cases hnone.symm.trans ho
      · obtain rfl := Option.some.inj (hp.symm.trans ho)
        obtain rfl := Option.some.inj (hp'.symm.trans ho')
        exact .inr ⟨p, p', hp, hp', htopic, rfl, hsink'⟩

theorem offer (h : Twins load r r') (value : Json) (m : NodeRef) :
    (r.topology.offer value m).Twin r.cluster r'.cluster (r'.topology.offer value m) := by
  rw [Topology.offer, Topology.offer]
  cases m.kind with
  | input => exact .empty
  | output =>
      obtain ⟨hnone, hnone'⟩ | ⟨o, o', ho, ho', htopic, hsink, hsink'⟩ := h.sink? m.id
      · simp only [hnone, hnone']
        exact .empty
      · simp only [hsink, hsink']
        exact ⟨.cons (.output value ho ho' htopic) .nil, rfl⟩
  | transformation =>
      simp only [h.level.steps]
      cases r.topology.step? m.id with
      | none => exact .empty
      | some step =>
          dsimp only
          cases step value with
          | ok => exact .empty
          | error e => exact ⟨.nil, rfl⟩

theorem carried (h : Twins load r r') (value : Json) (m : NodeRef) :
    r'.topology.carried value m = r.topology.carried value m := by
  rw [Topology.carried, Topology.carried, h.level.steps]

theorem descent (h : Twins load r r') (d : ℕ) (n : NodeRef) (value : Json) :
    (r.topology.agenda d n value).Twin r.cluster r'.cluster (r'.topology.agenda d n value) := by
  induction d generalizing n value with
  | zero => exact .empty
  | succ d ih =>
      have hcarried : r'.topology.carried value = r.topology.carried value := funext (h.carried value)
      rw [Topology.agenda, Topology.agenda, Topology.children, Topology.children, h.level.edges, hcarried]
      exact (Agenda.Twin.all _ fun m _ => h.offer value m).append (.all _ fun x _ => ih x.1 x.2)

theorem agenda (h : Twins load r r') (a : Arrival) :
    (r.agenda a).Twin r.cluster r'.cluster (r'.agenda a) := by
  rw [Runner.agenda, Runner.agenda]
  cases a.item with
  | error e => exact ⟨.nil, rfl⟩
  | ok payload =>
      dsimp only
      cases Record.decode payload with
      | error e => exact ⟨.nil, rfl⟩
      | ok value =>
          dsimp only
          rw [h.level.edges]
          exact h.descent _ a.input value

theorem remarks (h : Twins load r r') {e e' : Errand} (he : e.Twin r.cluster r'.cluster e') :
    List.Forall₂ (Remark.Twin r.cluster r'.cluster) (r.remarks e) (r'.remarks e') := by
  cases he with
  | @output id o o' value ho ho' htopic =>
      rw [Runner.remarks, Runner.remarks, Errand.delivery, Errand.delivery]
      simp only [Sink.channel_ofOutput, htopic]
      exact .cons (.delivery _ ho ho' htopic) (h.forall₂_reported "output" o.topic value)

theorem shown (h : Twins load r r') (a : Arrival) :
    List.Forall₂ (Remark.Twin r.cluster r'.cluster) (r.shown a) (r'.shown a) := by
  have hreceived : List.Forall₂ (Remark.Twin r.cluster r'.cluster) (r.received a) (r'.received a) := by
    rw [received, received]
    cases a.record? with
    | none => exact .nil
    | some record => exact h.forall₂_reported "input" record.1 record.2
  exact List.rel_append hreceived (List.rel_flatMap (h.agenda a).errands fun _ _ he => h.remarks he)

end Twins

/-! ### Two runs -/

variable {link : Link σ κ} {address : κ → String} {up : σ → Prop}

/-- Two pieces of work that come to the same end, with remarks that correspond one to one. -/
def Abreast (address : κ → String) (T : Remark → Remark → Prop) (work work' : Work σ κ Unit) (s s' : Session σ κ) :
    Prop :=
  work.error? s = work'.error? s' ∧ ∃ new new', (work.last s).trace = s.trace ++ new ∧
    (work'.last s').trace = s'.trace ++ new' ∧
    List.Forall₂ T (new.filterMap (Action.remark? address)) (new'.filterMap (Action.remark? address))

namespace Twins

variable {load : String → Step} {r r' : Runner} {home home' : κ} {s s' : Session σ κ}

/-- Item by item: as long as there is no fault, both go on. -/
theorem items (h : Twins load r r') (hserves : link.Serves address up) (hhome : address home = r.cluster.broker)
    (hhome' : address home' = r'.cluster.broker) (arrivals : List Arrival) (hs : s.Ready address up)
    (hs' : s'.Ready address up) :
    Abreast address (Remark.Twin r.cluster r'.cluster) (arrivals.forM (r.accept link home))
      (arrivals.forM (r'.accept link home')) s s' := by
  induction arrivals generalizing s s' with
  | nil => exact ⟨rfl, [], [], (List.append_nil _).symm, (List.append_nil _).symm, .nil⟩
  | cons a arrivals ih =>
      obtain ⟨hready, herror, new, htrace, hnew⟩ := r.accept_served hserves h.topology hhome hs a
      obtain ⟨hready', herror', new', htrace', hnew'⟩ := r'.accept_served hserves h.topology' hhome' hs' a
      have hshown := h.shown a
      rw [← hnew, ← hnew'] at hshown
      rw [(h.agenda a).fault] at herror'
      change Abreast _ _ (r.accept link home a >>= fun _ => arrivals.forM _)
        (r'.accept link home' a >>= fun _ => arrivals.forM _) s s'
      cases hfault : (r.agenda a).fault with
      | none =>
          rw [hfault] at herror herror'
          obtain ⟨_, hrun⟩ := Work.eq_ok herror
          obtain ⟨_, hrun'⟩ := Work.eq_ok herror'
          obtain ⟨hend, more, more', hmore, hmore', hrest⟩ := ih hready hready'
          rw [Abreast, Work.last_bind_of_ok hrun, Work.last_bind_of_ok hrun', Work.error?_bind_of_ok hrun,
            Work.error?_bind_of_ok hrun']
          refine ⟨hend, new ++ more, new' ++ more', ?_, ?_, ?_⟩
          · rw [hmore, htrace, List.append_assoc]
          · rw [hmore', htrace', List.append_assoc]
          · rw [List.filterMap_append, List.filterMap_append]
            exact List.rel_append hshown hrest
      | some text =>
          rw [hfault] at herror herror'
          rw [Abreast, Work.last, Work.last, Work.error?, Work.error?, Work.bind_of_error (Work.eq_error herror),
            Work.bind_of_error (Work.eq_error herror')]
          exact ⟨congrArg some (h.fault text).symm, new, new', htrace, htrace', hshown⟩

theorem run (h : Twins load r r') (hserves : link.Serves address up)
    (hkeeps : ∀ k topic group w, up w → up (link.subscribe k topic group w).2) (arrivals : List Arrival)
    (hs : s.Ready address up) :
    Abreast address (Remark.Twin r.cluster r'.cluster) (r.run link arrivals) (r'.run link arrivals) s s := by
  have hattach : r'.attach link = r.attach link := by
    rw [attach, attach, h.cluster.others]
  obtain ⟨⟨new, htrace, hnew⟩, hready⟩ := r.attach_served hserves hkeeps hs
  rw [Abreast, Runner.run, Runner.run, hattach]
  rw [Work.last] at htrace
  cases hrun : r.attach link s with
  | error e t =>
      rw [hrun] at htrace
      rw [Work.last, Work.last, Work.error?, Work.error?, Work.bind_of_error hrun, Work.bind_of_error hrun]
      exact ⟨rfl, new, new, htrace, htrace, by rw [hnew]; exact .nil⟩
  | ok home t =>
      rw [hrun] at htrace
      obtain ⟨ht, hhome⟩ := hready home t hrun
      obtain ⟨hend, more, more', hmore, hmore', hrest⟩ :=
        h.items hserves hhome (hhome.trans h.broker.symm) arrivals ht ht
      rw [Work.last_bind_of_ok hrun, Work.last_bind_of_ok hrun, Work.error?_bind_of_ok hrun, Work.error?_bind_of_ok hrun]
      refine ⟨hend, new ++ more, new ++ more', ?_, ?_, ?_⟩
      · rw [hmore, htrace, List.append_assoc]
      · rw [hmore', htrace, List.append_assoc]
      · rw [List.filterMap_append, List.filterMap_append, hnew]
        exact hrest

end Twins

/-- Deliveries of one payload to one output, each at the broker that the output names in its own cluster. -/
def SameOutput (c c' : Cluster) (d d' : Delivery) : Prop :=
  ∃ id o o', c.output? id = some o ∧ c'.output? id = some o' ∧ d.broker = o.broker ∧ d'.broker = o'.broker ∧
    d.topic = o.topic ∧ d'.topic = o'.topic ∧ d'.topic = d.topic ∧ d'.payload = d.payload

variable {c c' : Cluster}

theorem events_eq {rs rs' : List Remark} (h : List.Forall₂ (Remark.Twin c c') rs rs') :
    rs.filterMap Remark.event? = rs'.filterMap Remark.event? := by
  induction h with
  | nil => rfl
  | cons hr _ ih =>
      cases hr with
      | event e => simp only [List.filterMap_cons, Remark.event?, ih]
      | delivery payload _ _ _ => simp only [List.filterMap_cons, Remark.event?, ih]

theorem forall₂_deliveries {rs rs' : List Remark} (h : List.Forall₂ (Remark.Twin c c') rs rs') :
    List.Forall₂ (SameOutput c c') (rs.filterMap Remark.delivery?) (rs'.filterMap Remark.delivery?) := by
  induction h with
  | nil => exact .nil
  | cons hr _ ih =>
      cases hr with
      | event e =>
          simp only [List.filterMap_cons, Remark.delivery?]
          exact ih
      | delivery payload ho ho' htopic =>
          simp only [List.filterMap_cons, Remark.delivery?]
          exact .cons ⟨_, _, _, ho, ho', rfl, rfl, rfl, htopic.symm, rfl, rfl⟩ ih

theorem payloads_eq {ds ds' : List Delivery} (h : List.Forall₂ (SameOutput c c') ds ds') :
    ds.map (fun d => (d.topic, d.payload)) = ds'.map fun d => (d.topic, d.payload) := by
  induction h with
  | nil => rfl
  | cons hd _ ih =>
      obtain ⟨_, _, _, -, -, -, -, -, -, htopic, hpayload⟩ := hd
      rw [List.map_cons, List.map_cons, ih, htopic, hpayload]

/-- Where the outputs of a cluster are makes no difference to its work, as long as all brokers serve. On the same
records, two runners whose clusters differ only in the brokers of their outputs come to the same end, report the same
events, and publish the same payloads to the same topics, in the same order; each publication lands at the broker that
the output names. -/
theorem run_bridges_transparently (hserves : link.Serves address up)
    (hkeeps : ∀ k topic group w, up w → up (link.subscribe k topic group w).2) (hclusters : c.Rebrokered c')
    (load : String → Step) (pipeline : PipelineId) (streamEvents : Bool) (arrivals : List Arrival) {s : Session σ κ}
    (hs : s.Ready address up) :
    ∃ new new',
      (((Runner.mk pipeline c (Topology.build load c) streamEvents).run link arrivals).last s).trace =
        s.trace ++ new ∧
      (((Runner.mk pipeline c' (Topology.build load c') streamEvents).run link arrivals).last s).trace =
        s.trace ++ new' ∧
      ((Runner.mk pipeline c (Topology.build load c) streamEvents).run link arrivals).error? s =
        ((Runner.mk pipeline c' (Topology.build load c') streamEvents).run link arrivals).error? s ∧
      new.filterMap Action.event? = new'.filterMap Action.event? ∧
      (new.filterMap (Action.delivery? address)).map (fun d => (d.topic, d.payload)) =
        (new'.filterMap (Action.delivery? address)).map (fun d => (d.topic, d.payload)) ∧
      List.Forall₂ (SameOutput c c') (new.filterMap (Action.delivery? address))
        (new'.filterMap (Action.delivery? address)) := by
  let r : Runner := ⟨pipeline, c, Topology.build load c, streamEvents⟩
  let r' : Runner := ⟨pipeline, c', Topology.build load c', streamEvents⟩
  have htwins : Twins load r r' := ⟨hclusters, rfl, rfl, rfl, rfl⟩
  obtain ⟨herror, new, new', htrace, htrace', hrs⟩ := htwins.run hserves hkeeps arrivals hs
  have hdeliveries := forall₂_deliveries hrs
  have hevents := events_eq hrs
  rw [Action.filterMap_delivery?, Action.filterMap_delivery?] at hdeliveries
  rw [Action.filterMap_event?, Action.filterMap_event?] at hevents
  exact ⟨new, new', htrace, htrace', herror, hevents, payloads_eq hdeliveries, hdeliveries⟩

def spread (first second : String) : Cluster where
  index := 0
  broker := "near"
  group := "group"
  inputs := [⟨1, none, "in", "near", none⟩]
  flows := [⟨none, .input 1, .output 1⟩, ⟨none, .input 1, .output 2⟩]
  transformations := []
  outputs := [⟨1, none, "out", first, none⟩, ⟨2, none, "copy", second, none⟩]

theorem spread_rebrokered (a b a' b' : String) : (spread a b).Rebrokered (spread a' b') :=
  ⟨.cons rfl (.cons rfl .nil), rfl⟩

def oneRecord : List Arrival :=
  [⟨.input 1, "in", .ok (Record.encode .null)⟩, ⟨.input 1, "in", .error (.other "gone")⟩]

/-- Where the outputs change places, each publication changes its broker and nothing else changes. -/
theorem run_bridges_transparently_spread :
    ∃ new new' : List (Action String),
      (((Runner.mk 7 (spread "near" "far") (Topology.build passOrDrop (spread "near" "far")) true).run Hub.link
        oneRecord).last { world := {} }).trace = new ∧
      (((Runner.mk 7 (spread "far" "near") (Topology.build passOrDrop (spread "far" "near")) true).run Hub.link
        oneRecord).last { world := {} }).trace = new' ∧
      new.filterMap Action.event? = new'.filterMap Action.event? ∧
      (new.filterMap (Action.delivery? id)).map (fun d => (d.topic, d.payload)) =
        (new'.filterMap (Action.delivery? id)).map (fun d => (d.topic, d.payload)) ∧
      (new.filterMap (Action.delivery? id)).map (·.broker) = ["far", "near"] ∧
      (new'.filterMap (Action.delivery? id)).map (·.broker) = ["near", "far"] := by
  obtain ⟨new, new', htrace, htrace', -, hevents, hpayloads, -⟩ :=
    run_bridges_transparently Hub.serves (fun _ _ _ _ hup => hup) (spread_rebrokered "near" "far" "far" "near") passOrDrop
      7 true oneRecord (s := { world := {} }) ⟨rfl, by simp⟩
  refine ⟨new, new', htrace, htrace', hevents, hpayloads, ?_, ?_⟩
  · rw [← List.nil_append new, ← htrace]
    rfl
  · rw [← List.nil_append new', ← htrace']
    rfl

end Runner

end Pipeworks
