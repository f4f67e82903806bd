import Pipeworks.Proofs.Worker.Announcement
import Pipeworks.Proofs.Worker.Outcome
import Pipeworks.Proofs.Worker.Served

/-!
The trail of events that a worker of a cluster leaves, and what the worker did. The trail is read off the records that
were decoded and the publications that the brokers took: each record is reported, each publication is reported at once,
and there is nothing else but the start of the worker and its failure, be it that a fault comes in the middle of a
record or that the worker is told to stop.
-/

namespace Pipeworks

open Link (Exchange Transcript)

variable {σ κ α : Type}

/-! ### What a worker does -/

def Link.Exchange.delivered : Exchange κ → Bool
  | publish _ _ _ answer => answer.isOk
  | _ => false

/-- Publications and events are deeds, connections are not. -/
def Action.isDeed : Action κ → Bool
  | .connected _ => false
  | _ => true

theorem Action.filterMap_emitted (es : List Event) :
    (es.map (Action.emitted : Event → Action κ)).filterMap Action.event? = es := by
  rw [List.filterMap_map]
  exact List.filterMap_some

namespace Session

def deeds (s : Session σ κ) : List (Action κ) := s.trace.filter Action.isDeed

def events (s : Session σ κ) : List Event := s.trace.filterMap Action.event?

theorem deeds_emitted (s : Session σ κ) (e : Event) : (s.emitted e).deeds = s.deeds ++ [.emitted e] :=
  List.filter_append _ _

theorem events_eq (s : Session σ κ) : s.events = s.deeds.filterMap Action.event? := by
  rw [events, deeds, List.filterMap_filter]
  refine List.filterMap_congr fun a _ => ?_
  cases a <;> rfl

end Session

namespace Dispatch

def call (d : Dispatch κ) : Exchange κ :=
  .publish d.client d.channel.topic (.ofPayload (Record.encode d.value)) (.ok ())

def event (r : Runner) (d : Dispatch κ) : Event :=
  Event.stream r.pipeline r.cluster.index "output" d.channel.topic d.value

end Dispatch

structure Handling (κ : Type) where
  topic : String
  value : Json
  sent : List (Dispatch κ)

namespace Handling

def record (h : Handling κ) : String × Json := (h.topic, h.value)

def calls (h : Handling κ) : Transcript κ := h.sent.map Dispatch.call

def deeds (r : Runner) (h : Handling κ) : List (Action κ) :=
  r.reports "input" h.topic h.value ++ h.sent.flatMap (Dispatch.deeds r)

def events (r : Runner) (h : Handling κ) : List Event :=
  Event.stream r.pipeline r.cluster.index "input" h.topic h.value :: h.sent.map (Dispatch.event r)

end Handling

/-! ### The deeds of a run -/

namespace Runner

variable {r : Runner} {home : κ} {bridges : List (String × κ)} {answer : Except Error κ} {subscriptions : Transcript κ}
  {rounds : List (Arrival × List (Trip κ))} {account : Account κ}

def handling? (r : Runner) (x : Arrival × List (Trip κ)) : Option (Handling κ) :=
  x.1.record?.map fun record => ⟨record.1, record.2, x.2.flatMap (Trip.sent r.cluster.broker)⟩

theorem map_handling? (r : Runner) (x : Arrival × List (Trip κ)) :
    (r.handling? x).map Handling.record = x.1.record? := by
  rw [handling?]
  cases x.1.record? <;> rfl

theorem trips_eq_nil {x : Arrival × List (Trip κ)} (hrecord : x.1.record? = none) {fault : Option String}
    (hends : (r.agenda x.1).Ends x.2 fault) : x.2 = [] := by
  rw [Arrival.record?] at hrecord
  cases hvalue : x.1.value with
  | ok value =>
      rw [hvalue] at hrecord
      cases hrecord
  | error e =>
      have hnone := hends.isPrefix
      rw [(agenda_of_no_value hvalue).1] at hnone
      exact List.map_eq_nil_iff.mp (List.prefix_nil.mp hnone)

theorem filter_reports (r : Runner) (kind topic : String) (value : Json) :
    (r.reports kind topic value : List (Action κ)).filter Action.isDeed = r.reports kind topic value := by
  rw [reports]
  split_ifs <;> rfl

theorem filter_trip (r : Runner) (trip : Trip κ) :
    (trip.actions r).filter Action.isDeed = (trip.sent r.cluster.broker).flatMap (Dispatch.deeds r) := by
  have hdeeds (d : Dispatch κ) : (d.deeds r).filter Action.isDeed = d.deeds r := by
    rw [Dispatch.deeds, List.filter_cons_of_pos rfl, filter_reports]
  have hconnected (brokers : List String) :
      (brokers.map Action.connected : List (Action κ)).filter Action.isDeed = [] := by
    simp [Action.isDeed]
  rw [Trip.actions, List.filter_append, hconnected, List.nil_append, List.filter_flatMap]
  exact List.flatMap_congr fun d _ => hdeeds d

theorem filter_delivered {trip : Trip κ} (hmade : (trip.visit r.cluster.broker).Made r.cluster.broker home bridges) :
    trip.calls.filter Exchange.delivered = (trip.sent r.cluster.broker).map Dispatch.call := by
  obtain ⟨⟨sink, value⟩, calls⟩ := trip
  change Visit.Made _ home bridges ⟨(sink.channel r.cluster.broker, Record.encode value), calls⟩ at hmade
  rw [Trip.sent]
  cases hmade with
  | near answer | again answer | first _ answer => cases answer <;> rfl
  | refused => rfl

namespace Course

variable (h : r.Course bridges answer subscriptions rounds account)

include h

theorem filter_actions :
    account.actions.filter Action.isDeed = (rounds.filterMap r.handling?).flatMap (Handling.deeds r) := by
  rw [h.actions, List.filter_cons_of_neg Bool.false_ne_true, List.filter_flatMap, List.filterMap_eq_flatMap_toList,
    List.flatMap_assoc]
  refine List.flatMap_congr fun x hx => ?_
  rw [handling?, receipt]
  cases hrecord : x.1.record? with
  | none =>
      obtain ⟨fault, hends⟩ := h.ends x hx
      rw [trips_eq_nil hrecord hends]
      rfl
  | some record =>
      simp [Handling.deeds, filter_reports, filter_trip, List.filter_flatMap, List.flatMap_assoc]

theorem filter_calls :
    account.calls.filter Exchange.delivered = (rounds.filterMap r.handling?).flatMap Handling.calls := by
  have hsubscriptions : subscriptions.filter Exchange.delivered = [] := by
    refine List.filter_eq_nil_iff.mpr fun call hcall => ?_
    obtain ⟨home, -, i, -, answer', rfl⟩ := h.subscribes call hcall
    exact Bool.false_ne_true
  rw [h.calls, List.filter_cons_of_neg Bool.false_ne_true, List.filter_append, hsubscriptions, List.nil_append,
    Visit.allCalls, List.flatMap_assoc, List.filter_flatMap, List.filterMap_eq_flatMap_toList, List.flatMap_assoc]
  refine List.flatMap_congr fun x hx => ?_
  obtain ⟨home, -, hturn⟩ := h.inTurn (List.ne_nil_of_mem hx)
  have htrip : ∀ trip ∈ x.2, trip.calls.filter Exchange.delivered =
      (trip.sent r.cluster.broker).map Dispatch.call := by
    intro trip htrip
    obtain ⟨_, hmade⟩ := hturn.made_of_mem (List.mem_flatMap.mpr ⟨x, hx, List.mem_map_of_mem htrip⟩)
    exact filter_delivered hmade
  rw [List.flatMap_map, List.filter_flatMap, handling?]
  cases hrecord : x.1.record? with
  | none =>
      obtain ⟨fault, hends⟩ := h.ends x hx
      rw [trips_eq_nil hrecord hends]
      rfl
  | some record =>
      rw [Option.map_some, Option.toList_some, List.flatMap_singleton, Handling.calls, List.map_flatMap]
      exact List.flatMap_congr htrip

theorem exists_output {load : String → Step} (htopology : r.topology = Topology.build load r.cluster) :
    ∀ handling ∈ rounds.filterMap r.handling?, ∀ d ∈ handling.sent,
      ∃ o ∈ r.cluster.outputs, d.channel = ⟨o.broker, o.topic⟩ := by
  intro handling hhandling d hd
  obtain ⟨x, hx, hhandled⟩ := List.mem_filterMap.mp hhandling
  obtain ⟨record, -, rfl⟩ := Option.map_eq_some_iff.mp hhandled
  obtain ⟨trip, htrip, hsent⟩ := List.mem_flatMap.mp hd
  obtain ⟨fault, hends⟩ := h.ends x hx
  obtain ⟨id, hsink⟩ := exists_sink_of_mem_agenda (hends.isPrefix.subset (List.mem_map_of_mem htrip))
  rw [htopology] at hsink
  obtain ⟨o, ho, hsink⟩ := Option.map_eq_some_iff.mp ((Topology.equipped_build load r.cluster).sinkOf id _ hsink)
  refine ⟨o, List.mem_of_find?_eq_some ho, ?_⟩
  rw [Trip.channel_of_mem_sent hsent, ← hsink, Sink.channel_ofOutput]

end Course

/-- The events among the deeds, if records are reported. -/
theorem filterMap_deeds (r : Runner) (handlings : List (Handling κ)) :
    (handlings.flatMap (Handling.deeds r)).filterMap Action.event? =
      if r.streamEvents then handlings.flatMap (Handling.events r) else [] := by
  rw [List.filterMap_flatMap]
  cases hstream : r.streamEvents with
  | false =>
      simp [Handling.deeds, Dispatch.deeds, reports, hstream, List.filterMap_flatMap, Action.event?]
  | true =>
      refine List.flatMap_congr fun h _ => ?_
      simp [Handling.deeds, Handling.events, Dispatch.deeds, Dispatch.event, reports, hstream, List.filterMap_flatMap,
        Action.event?, List.map_eq_flatMap]
      rfl

end Runner

/-! ### The trail of a worker -/

namespace Worker

variable {spec : WorkerSpec} {c : Cluster}

theorem run_apply (hrole : spec.role = .cluster c) (link : Link σ κ) (arrivals : List Arrival) (ticks : ℕ)
    (s : Session σ κ) :
    run link spec arrivals ticks s = reported spec ((runner spec c).run link arrivals (s.emitted (started spec c))) := by
  have hstart : (Work.note (.emitted (started spec c)) >>= fun _ => (runner spec c).run link arrivals) s =
      (runner spec c).run link arrivals (s.emitted (started spec c)) := by
    rw [Work.bind_apply]
    rfl
  rw [run, reporting_apply, hrole, ← hstart]

theorem reported_withTranscript (spec : WorkerSpec) (t : Transcript κ) (r : EStateM.Result Error (Session σ κ) α) :
    reported spec (Work.withTranscript t r) = Work.withTranscript t (reported spec r) := by
  cases r <;> rfl

theorem error?_run (hrole : spec.role = .cluster c) (link : Link σ κ) (arrivals : List Arrival) (ticks : ℕ)
    (s : Session σ κ) :
    Work.error? (run link spec arrivals ticks) s =
      Work.error? ((runner spec c).run link arrivals) (s.emitted (started spec c)) := by
  rw [Work.error?, run_apply hrole, Work.error?]
  cases (runner spec c).run link arrivals (s.emitted (started spec c)) <;> rfl

/-- To the deeds of the runner only the failure is added, if there is one. -/
theorem deeds_run (hrole : spec.role = .cluster c) (link : Link σ κ) (arrivals : List Arrival) (ticks : ℕ)
    (s : Session σ κ) :
    (Work.last (run link spec arrivals ticks) s).deeds =
      (Work.last ((runner spec c).run link arrivals) (s.emitted (started spec c))).deeds ++
        ((Work.error? (run link spec arrivals ticks) s).map (failed spec)).toList.map .emitted := by
  rw [Work.last, run_apply hrole, error?_run hrole, Work.last, Work.error?]
  cases (runner spec c).run link arrivals (s.emitted (started spec c)) with
  | ok u s' => exact (List.append_nil _).symm
  | error e s' => exact Session.deeds_emitted s' (failed spec e)

/--
The events that a worker of a cluster hands in, whatever the cluster, the brokers and the items are, and whenever the
worker is told to stop: that it has started, then for each record that is decoded one event with its value and one
event for each publication of it that a broker took, with the topic and the value that were published and right after
the publication, and at last, exactly if the worker comes to an error, that it failed. Where records are not reported,
there is only the start and the failure.
-/
theorem trail_mirrors_work (link : Link σ κ) (hrole : spec.role = .cluster c) (arrivals : List Arrival) (ticks : ℕ)
    (s : Session σ κ) :
    let r := runner spec c
    let last := Work.last (run link spec arrivals ticks) s
    let failure := ((Work.error? (run link spec arrivals ticks) s).map (failed spec)).toList
    ∃ (taken : List Arrival) (handlings : List (Handling κ)) (calls : Transcript κ),
      Work.GetsTo (fun items => run link spec items ticks) s arrivals taken ∧
      handlings.map Handling.record = taken.filterMap Arrival.record? ∧
      run link.transcribed spec arrivals ticks (s.withTranscript []) =
        Work.withTranscript calls (run link spec arrivals ticks s) ∧
      calls.filter Exchange.delivered = handlings.flatMap Handling.calls ∧
      (∀ h ∈ handlings, ∀ d ∈ h.sent, ∃ o ∈ c.outputs, d.channel = ⟨o.broker, o.topic⟩) ∧
      last.deeds = s.deeds ++ .emitted (started spec c) :: (handlings.flatMap (Handling.deeds r) ++ failure.map .emitted) ∧
      last.events = s.events ++ started spec c ::
        ((if spec.streamEvents then handlings.flatMap (Handling.events r) else []) ++ failure) := by
  intro r last failure
  have htopology : r.topology = Topology.build (Step.ofScript · spec.budget) r.cluster := rfl
  obtain ⟨_, _, rounds, account, hrecorded, hgoes, hcourse, hgets⟩ :=
    Runner.run_course htopology link arrivals (s.emitted (started spec c))
  let handlings := rounds.filterMap r.handling?
  have hrecords : handlings.map Handling.record = (rounds.map (·.1)).filterMap Arrival.record? := by
    rw [List.map_filterMap, List.filterMap_map]
    exact List.filterMap_congr fun x _ => r.map_handling? x
  have hlast : last.deeds = s.deeds ++ .emitted (started spec c) ::
      (handlings.flatMap (Handling.deeds r) ++ failure.map .emitted) := by
    rw [deeds_run hrole, Session.deeds, hgoes.trace, List.filter_append, hcourse.filter_actions, ← Session.deeds,
      Session.deeds_emitted]
    simp only [List.append_assoc, List.cons_append, List.nil_append, failure, handlings]
  refine ⟨rounds.map (·.1), handlings, account.calls, hgets.congr fun items => error?_run hrole link items ticks s,
    hrecords, ?_, hcourse.filter_calls, hcourse.exists_output htopology, hlast, ?_⟩
  · rw [run_apply hrole, run_apply hrole, ← reported_withTranscript]
    exact congrArg (reported spec) (hrecorded [])
  · rw [Session.events_eq, hlast, List.filterMap_append, List.filterMap_cons, List.filterMap_append,
      Runner.filterMap_deeds, Action.filterMap_emitted, ← Session.events_eq]
    rfl

/-- Two records arrive, and the broker of the second output is down. The first record is published once before no
bridge can be opened, and the second one is never looked at. -/
theorem stranded_trail :
    let spec := WorkerSpec.ofCluster 1 Runner.halved
    let a : Arrival := ⟨.input 1, "x", .ok (Record.encode (.int 2))⟩
    let last := Work.last (run Hub.link spec [a, a] 0) Runner.stranded
    spec.role = .cluster Runner.halved ∧ last.events.map (·.kind) = ["segment_started", "input", "output", "failed"] ∧
      ∃ (h : Handling String) (e : Error), h.record = ("x", .int 2) ∧
        last.events = started spec Runner.halved :: (h.events (runner spec Runner.halved) ++ [failed spec e]) := by
  intro spec a last
  have hrecord : a.record? = some ("x", .int 2) := rfl
  have hidle : (Work.error? (run Hub.link spec [] 0) Runner.stranded).isNone := by decide +kernel
  have hfails : ∀ items ∈ [[a], [a, a]], (Work.error? (run Hub.link spec items 0) Runner.stranded).isSome := by
    decide +kernel
  have hkinds : last.events.map (·.kind) = ["segment_started", "input", "output", "failed"] := by decide +kernel
  obtain ⟨taken, handlings, -, hgets, hrecords, -, -, -, -, hevents⟩ :=
    trail_mirrors_work Hub.link (show spec.role = .cluster Runner.halved from rfl) [a, a] 0 Runner.stranded
  obtain rfl : taken = [a] := by
    refine hgets.unique ⟨⟨[a], rfl⟩, fun before hbefore hne => ?_, fun _ => hfails [a] (by simp)⟩
    obtain rfl : before = [] := by simpa [List.prefix_cons_iff, hne] using hbefore
    exact Option.isNone_iff_eq_none.mp hidle
  rw [List.filterMap_cons, hrecord] at hrecords
  obtain ⟨h, rfl, hh⟩ := List.map_eq_singleton_iff.mp hrecords
  obtain ⟨e, he⟩ := Option.isSome_iff_exists.mp (hfails [a, a] (by simp))
  refine ⟨rfl, hkinds, h, e, hh, hevents.trans ?_⟩
  rw [he, List.flatMap_singleton]
  rfl

end Worker

end Pipeworks
