import Pipeworks.Proofs.Topology.Wiring
import Pipeworks.Proofs.Worker.Visit

/-!
The work of a runner as it is seen at the brokers and in the trace. For each errand a trip is made, and the calls of the
trips tell all the rest: which bridges are kept, what is published, and with which complaint the work is broken off. An
agenda ends after all its errands, or with a call that is refused.
-/

namespace Pipeworks

open Link (Exchange Transcript)

variable {σ κ : Type}

/-! ### Calls that are refused -/

namespace Link

def Exchange.complaint? : Exchange κ → Option String
  | connect broker (.error e) => some s!"cannot open bridge to {broker}: {e.message}"
  | publish _ topic _ (.error e) => some s!"publish to '{topic}' failed: {e.message}"
  | _ => none

theorem Exchange.not_granted_of_complaint? {call : Exchange κ} {text : String} (h : call.complaint? = some text) :
    ¬call.Granted := by
  rw [complaint?.eq_def] at h
  split at h
  · exact Bool.false_ne_true
  · exact Bool.false_ne_true
  · cases h

/-- All calls but the last one were granted, and that one was refused. -/
def Refusal (calls : Transcript κ) (text : String) : Prop :=
  ∃ earlier call, calls = earlier ++ [call] ∧ (∀ c ∈ earlier, c.Granted) ∧ call.complaint? = some text

namespace Refusal

variable {calls calls' : Transcript κ} {text : String}

theorem not_granted (h : Refusal calls text) : ¬∀ call ∈ calls, call.Granted := by
  obtain ⟨earlier, call, rfl, -, hcall⟩ := h
  exact fun hall => Exchange.not_granted_of_complaint? hcall (hall call (List.mem_append_right _ List.mem_cons_self))

theorem append (h : Refusal calls' text) (hcalls : ∀ call ∈ calls, call.Granted) : Refusal (calls ++ calls') text := by
  obtain ⟨earlier, call, rfl, hearlier, hcall⟩ := h
  exact ⟨calls ++ earlier, call, (List.append_assoc ..).symm, List.forall_mem_append.mpr ⟨hcalls, hearlier⟩, hcall⟩

end Refusal

end Link

/-! ### Trips -/

/-- A bridge does not lead to the broker of the cluster itself. -/
def Sink.Apt (own : String) : Sink → Prop
  | near _ => True
  | bridge broker _ => broker ≠ own

theorem Sink.apt_ofOutput (own : String) (o : Endpoint) : (Sink.ofOutput own o).Apt own := by
  rw [Sink.ofOutput]
  split_ifs with hnear
  · trivial
  · exact hnear

def Runner.reports (r : Runner) (kind topic : String) (value : Json) : List (Action κ) :=
  if r.streamEvents then [.emitted (Event.stream r.pipeline r.cluster.index kind topic value)] else []

structure Dispatch (κ : Type) where
  client : κ
  channel : Channel
  value : Json

def Dispatch.deeds (r : Runner) (d : Dispatch κ) : List (Action κ) :=
  .published d.client d.channel (Record.encode d.value) :: r.reports "output" d.channel.topic d.value

/-- An errand that was taken up, with the calls that were made for it. -/
structure Trip (κ : Type) extends Errand where
  calls : Transcript κ

namespace Trip

def visit (own : String) (t : Trip κ) : Visit κ := ⟨t.publication own, t.calls⟩

def sent (own : String) (t : Trip κ) : List (Dispatch κ) :=
  t.calls.filterMap fun
    | .publish client _ _ (.ok _) => some ⟨client, t.sink.channel own, t.value⟩
    | _ => none

theorem channel_of_mem_sent {own : String} {t : Trip κ} {d : Dispatch κ} (h : d ∈ t.sent own) :
    d.channel = t.sink.channel own := by
  obtain ⟨call, -, hcall⟩ := List.mem_filterMap.mp h
  split at hcall
  · exact Option.some.inj hcall ▸ rfl
  · cases hcall

def actions (r : Runner) (t : Trip κ) : List (Action κ) :=
  (t.calls.filterMap Exchange.broker?).map .connected ++ (t.sent r.cluster.broker).flatMap (Dispatch.deeds r)

end Trip

/-- How the work on an agenda may end when some trips have been made: after all its errands, with its fault if it has
one, or with a call that was refused. -/
inductive Agenda.Ends (a : Agenda) (trips : List (Trip κ)) : Option String → Prop where
  | whole {fault : Option String} : trips.map (·.toErrand) = a.errands → (∀ t ∈ trips, ∀ call ∈ t.calls, call.Granted) →
      a.fault = fault → Ends a trips fault
  | refused {text : String} : trips.map (·.toErrand) <+: a.errands → Link.Refusal (trips.flatMap (·.calls)) text →
      Ends a trips (some text)

namespace Agenda.Ends

variable {a : Agenda} {trips : List (Trip κ)} {fault : Option String}

theorem isPrefix (h : a.Ends trips fault) : trips.map (·.toErrand) <+: a.errands := by
  cases h with
  | whole herrands _ _ => exact herrands ▸ List.prefix_rfl
  | refused hpart _ => exact hpart

theorem granted (h : a.Ends trips none) : ∀ t ∈ trips, ∀ call ∈ t.calls, call.Granted := by
  cases h with
  | whole _ hgranted _ => exact hgranted

end Agenda.Ends

/-- Nothing but connections, all of them granted, whose clients are kept. -/
def Account.ofOpened (opened : List (String × κ)) : Account κ where
  calls := opened.map fun x => .connect x.1 (.ok x.2)
  actions := opened.map fun x => .connected x.1
  bridges := opened

theorem Account.filterMap_opened?_ofOpened (opened : List (String × κ)) :
    (ofOpened opened).calls.filterMap Exchange.opened? = opened := by
  simp [ofOpened, List.filterMap_map, Function.comp_def, Exchange.opened?]

theorem Trip.actions_ofOpened (r : Runner) (e : Errand) (opened : List (String × κ)) (calls : Transcript κ) :
    actions r ⟨e, (Account.ofOpened opened).calls ++ calls⟩ =
      (Account.ofOpened opened).actions ++ actions r ⟨e, calls⟩ := by
  simp [Account.ofOpened, actions, sent, List.filterMap_map, Function.comp_def, Exchange.broker?]

namespace Runner

variable {link : Link σ κ} {r : Runner} {home : κ} {s : Session σ κ} {E : Error → Account κ → Prop}

structure Makes (r : Runner) (home : κ) (bridges : List (String × κ)) (trips : List (Trip κ)) (account : Account κ) :
    Prop where
  visits : account.Visits r.cluster.broker home bridges (trips.map (Trip.visit r.cluster.broker))
  actions : account.actions = trips.flatMap (Trip.actions r)

namespace Makes

variable {bridges : List (String × κ)} {trips trips' : List (Trip κ)} {account account' : Account κ}

theorem nil : r.Makes home bridges [] ∅ := ⟨.nil rfl rfl, rfl⟩

theorem single {trip : Trip κ} (hmade : (trip.visit r.cluster.broker).Made r.cluster.broker home bridges)
    (hcalls : account.calls = trip.calls) (hbridges : account.bridges = trip.calls.filterMap Exchange.opened?)
    (hactions : account.actions = trip.actions r) : r.Makes home bridges [trip] account := by
  refine ⟨⟨?_, ?_, .single hmade⟩, ?_⟩
  · exact hcalls.trans (List.append_nil _).symm
  · rw [hbridges, Visit.opened]
    exact congrArg _ (List.append_nil _).symm
  · exact hactions.trans (List.append_nil _).symm

theorem append (h : r.Makes home bridges trips account) (hgranted : ∀ x ∈ trips, ∀ call ∈ x.calls, call.Granted)
    (h' : r.Makes home (bridges ++ account.bridges) trips' account') :
    r.Makes home bridges (trips ++ trips') (account ++ account') := by
  refine ⟨?_, ?_⟩
  · rw [List.map_append]
    exact h.visits.append (List.forall_mem_map.mpr hgranted) h'.visits
  · rw [Account.actions_append, h.actions, h'.actions, List.flatMap_append]

end Makes

/-! ### The work on an errand -/

theorem does_emit (kind topic : String) (value : Json) :
    Work.Does link (r.emit kind topic value) (r.emit kind topic value) s
      (fun _ account => account = { actions := r.reports kind topic value }) E := by
  rw [emit, emit, reports]
  split_ifs
  · exact .note rfl
  · exact .pure rfl

def send (link : Link σ κ) (r : Runner) (broker topic : String) (value : Json) (client : κ) : Work σ κ Unit := do
  Work.ask (link.publish client topic (.ofPayload (Record.encode value))) fun e =>
    r.fault s!"publish to '{topic}' failed: {e.message}"
  Work.note (.published client ⟨broker, topic⟩ (Record.encode value))
  r.emit "output" topic value

theorem publish_near (link : Link σ κ) (r : Runner) (home : κ) (topic : String) (value : Json) :
    r.publish link home (.near topic) value = r.send link r.cluster.broker topic value home := rfl

theorem publish_bridge (link : Link σ κ) (r : Runner) (home : κ) (broker topic : String) (value : Json) :
    r.publish link home (.bridge broker topic) value = r.bridge link broker >>= r.send link broker topic value := by
  change (r.bridge link broker >>= fun client => pure (broker, client)) >>= _ = _
  rw [bind_assoc]
  rfl

theorem does_send (broker topic : String) (value : Json) (client : κ) :
    Work.Does link (r.send link broker topic value client) (r.send link.transcribed broker topic value client) s
      (fun _ account => account =
        { calls := [.publish client topic (.ofPayload (Record.encode value)) (.ok ())]
          actions := Dispatch.deeds r ⟨client, ⟨broker, topic⟩, value⟩ })
      fun e account => ∃ refusal : Error, e = r.fault s!"publish to '{topic}' failed: {refusal.message}" ∧
        account = { calls := [.publish client topic (.ofPayload (Record.encode value)) (.error refusal)] } := by
  have hask : Work.Does link
      (Work.ask (link.publish client topic (.ofPayload (Record.encode value))) fun e =>
        r.fault s!"publish to '{topic}' failed: {e.message}")
      (Work.ask (link.transcribed.publish client topic (.ofPayload (Record.encode value))) fun e =>
        r.fault s!"publish to '{topic}' failed: {e.message}") s
      (fun _ account => account = { calls := [.publish client topic (.ofPayload (Record.encode value)) (.ok ())] })
      fun e account => ∃ refusal : Error, e = r.fault s!"publish to '{topic}' failed: {refusal.message}" ∧
        account = { calls := [.publish client topic (.ofPayload (Record.encode value)) (.error refusal)] } :=
    .ask (fun _ _ h => h) (fun _ => rfl) fun e => ⟨e, rfl, rfl⟩
  refine hask.bind fun _ account t _ _ haccount => ?_
  subst haccount
  refine Work.Does.bind
    (Q := fun _ more => more = { actions := [.published client ⟨broker, topic⟩ (Record.encode value)] }) (.note rfl) fun _ more u _ _ hmore => ?_
  subst hmore
  refine (does_emit "output" topic value).mono (fun _ more hmore => ?_) fun _ _ h => h
  rw [hmore]
  rfl

/-- A bridge is opened by one call, and kept unless that is refused. -/
theorem does_openBridge (broker : String) :
    Work.Does link (r.openBridge link broker) (r.openBridge link.transcribed broker) s
      (fun client account => account =
        { calls := [.connect broker (.ok client)], actions := [.connected broker], bridges := [(broker, client)] })
      fun e account => ∃ refusal : Error, e = r.fault s!"cannot open bridge to {broker}: {refusal.message}" ∧
        account = { calls := [.connect broker (.error refusal)], actions := [.connected broker] } := by
  refine Work.Does.bind (Q := fun client account => account =
    { calls := [.connect broker (.ok client)], actions := [.connected broker] })
    (.connect (fun client => rfl) fun e => ⟨e, rfl, rfl⟩) fun client account t _ _ haccount => ?_
  subst haccount
  refine Work.Does.bind (Q := fun _ more => more = { bridges := [(broker, client)] }) (.keep rfl)
    fun _ more u _ _ hmore => ?_
  subst hmore
  exact .pure rfl

theorem bridge_apply (link : Link σ κ) (r : Runner) (broker : String) (s : Session σ κ) :
    r.bridge link broker s =
      match s.bridges.find? (·.1 = broker) with
      | some (_, client) => .ok client s
      | none => r.openBridge link broker s := by
  change (match s.bridges.find? (·.1 = broker) with
    | some (_, client) => pure client
    | none => r.openBridge link broker : Work σ κ κ) s = _
  cases s.bridges.find? (·.1 = broker) <;> rfl

/-- A bridge that is open is used, and only if there is none the broker is connected to. -/
theorem does_bridge (broker : String) :
    Work.Does link (r.bridge link broker) (r.bridge link.transcribed broker) s
      (fun client account => (broker, client) ∈ s.bridges ∧ account = ∅ ∨ broker ∉ s.bridges.map (·.1) ∧ account =
        { calls := [.connect broker (.ok client)], actions := [.connected broker], bridges := [(broker, client)] })
      fun e account => ∃ refusal : Error, e = r.fault s!"cannot open bridge to {broker}: {refusal.message}" ∧
        broker ∉ s.bridges.map (·.1) ∧
        account = { calls := [.connect broker (.error refusal)], actions := [.connected broker] } := by
  have hsame (t : Transcript κ) : (s.withTranscript t).bridges = s.bridges := rfl
  cases hfind : s.bridges.find? (·.1 = broker) with
  | some entry =>
      obtain ⟨broker', client⟩ := entry
      obtain rfl : broker' = broker := by simpa using List.find?_some hfind
      have hmem := List.mem_of_find?_eq_some hfind
      refine (Work.Does.pure (a := client) (.inl ⟨hmem, rfl⟩)).congr ?_ fun t => ?_
      · rw [bridge_apply, hfind]
        rfl
      · rw [bridge_apply, hsame, hfind]
        rfl
  | none =>
      have hnew : broker ∉ s.bridges.map (·.1) := by
        intro hmem
        obtain ⟨entry, hentry, hbroker⟩ := List.mem_map.mp hmem
        exact List.find?_eq_none.mp hfind entry hentry (decide_eq_true hbroker)
      have hopen : r.bridge link broker s = r.openBridge link broker s := by
        rw [bridge_apply, hfind]
      refine ((does_openBridge broker).mono (fun client account h => .inr ⟨hnew, h⟩) fun e account h => ?_).congr hopen
        fun t => ?_
      · obtain ⟨refusal, he, haccount⟩ := h
        exact ⟨refusal, he, hnew, haccount⟩
      · rw [bridge_apply, hsame, hfind]

/-- Once there is a client for the broker of an errand, perhaps one that was just opened, a single call is left of the
trip. -/
theorem does_send_trip (e : Errand) {client : κ} {bridges : List (String × κ)} (opened : List (String × κ))
    (hmade : ∀ answer, Visit.Made r.cluster.broker home bridges ⟨e.publication r.cluster.broker,
      (Account.ofOpened opened).calls ++
        [.publish client (e.sink.channel r.cluster.broker).topic (.ofPayload (Record.encode e.value)) answer]⟩) :
    let channel := e.sink.channel r.cluster.broker
    Work.Does link (r.send link channel.broker channel.topic e.value client)
      (r.send link.transcribed channel.broker channel.topic e.value client) s
      (fun _ more => ∃ t : Trip κ, t.toErrand = e ∧ r.Makes home bridges [t] (.ofOpened opened ++ more) ∧
        ∀ call ∈ t.calls, call.Granted)
      fun error more => ∃ (t : Trip κ) (text : String), error = r.fault text ∧ t.toErrand = e ∧
        r.Makes home bridges [t] (.ofOpened opened ++ more) ∧ Link.Refusal t.calls text := by
  intro channel
  have hgranted : ∀ call ∈ (Account.ofOpened opened).calls, call.Granted :=
    List.forall_mem_map.mpr fun _ _ => rfl
  refine (does_send _ _ _ _).mono (fun _ more hmore => ?_) fun error more hfailed => ?_
  · subst hmore
    refine ⟨⟨e, _⟩, rfl, .single (hmade (.ok ())) rfl ?_ ?_, ?_⟩
    · rw [Account.bridges_append, List.filterMap_append, Account.filterMap_opened?_ofOpened]
      rfl
    · rw [Account.actions_append, Trip.actions_ofOpened]
      exact congrArg _ (List.append_nil _).symm
    · exact List.forall_mem_append.mpr ⟨hgranted, List.forall_mem_singleton.mpr rfl⟩
  · obtain ⟨refusal, rfl, rfl⟩ := hfailed
    refine ⟨⟨e, _⟩, _, rfl, rfl, .single (hmade (.error refusal)) rfl ?_ ?_, _, _, rfl, hgranted, rfl⟩
    · rw [Account.bridges_append, List.filterMap_append, Account.filterMap_opened?_ofOpened]
      rfl
    · rw [Account.actions_append, Trip.actions_ofOpened]
      rfl

/-- A publication is one trip. -/
theorem does_publish {e : Errand} (hapt : e.sink.Apt r.cluster.broker) :
    Work.Does link (r.publish link home e.sink e.value) (r.publish link.transcribed home e.sink e.value) s
      (fun _ account => ∃ t : Trip κ, t.toErrand = e ∧ r.Makes home s.bridges [t] account ∧
        ∀ call ∈ t.calls, call.Granted)
      fun error account => ∃ (t : Trip κ) (text : String), error = r.fault text ∧ t.toErrand = e ∧
        r.Makes home s.bridges [t] account ∧ Link.Refusal t.calls text := by
  obtain ⟨sink, value⟩ := e
  cases sink with
  | near topic =>
      rw [publish_near, publish_near]
      exact does_send_trip ⟨.near topic, value⟩ [] fun answer => .near answer rfl
  | bridge broker topic =>
      rw [publish_bridge, publish_bridge]
      refine ((does_bridge broker).mono (fun _ _ h => h) fun error account hfailed => ?_).bind
        fun client account t _ _ haccount => ?_
      · obtain ⟨refusal, rfl, hnew, rfl⟩ := hfailed
        exact ⟨⟨⟨.bridge broker topic, value⟩, [.connect broker (.error refusal)]⟩, _, rfl, rfl,
          .single (.refused refusal hapt hnew) rfl rfl rfl, [], _, rfl, by simp, rfl⟩
      · obtain ⟨hmem, rfl⟩ | ⟨hnew, rfl⟩ := haccount
        · exact does_send_trip ⟨.bridge broker topic, value⟩ [] fun answer => .again answer hapt hmem
        · exact does_send_trip ⟨.bridge broker topic, value⟩ [(broker, client)] fun answer =>
            .first client answer hapt hnew

/-! ### The work on an item -/

/-- One trip for each errand, until all is done or a call is refused. -/
theorem does_perform (a : Agenda) (hapt : ∀ e ∈ a.errands, e.sink.Apt r.cluster.broker) :
    Work.Does link (r.perform link home a) (r.perform link.transcribed home a) s
      (fun _ account => ∃ trips, r.Makes home s.bridges trips account ∧ a.Ends trips none)
      fun error account => ∃ trips text, error = r.fault text ∧ r.Makes home s.bridges trips account ∧
        a.Ends trips (some text) := by
  have hloop := Work.Does.forM link (s := s) (f := fun e => r.publish link home e.sink e.value)
    (g := fun e => r.publish link.transcribed home e.sink e.value)
    (I := fun done account => ∃ trips : List (Trip κ), trips.map (·.toErrand) = done ∧
      r.Makes home s.bridges trips account ∧ ∀ t ∈ trips, ∀ call ∈ t.calls, call.Granted)
    (F := fun done e error account => ∃ (trips : List (Trip κ)) (text : String), error = r.fault text ∧
      trips.map (·.toErrand) = done ++ [e] ∧ r.Makes home s.bridges trips account ∧
        Link.Refusal (trips.flatMap (·.calls)) text)
    a.errands ⟨[], rfl, .nil, by simp⟩ ?_
  · refine (hloop.mono (fun _ _ h => h) fun error account hfailed => ?_).bind fun _ account t _ hgoes hall => ?_
    · obtain ⟨done, e, rest, t, hsplit, -, -, trips, text, rfl, htrips, hmakes, hrefusal⟩ := hfailed
      refine ⟨trips, text, rfl, hmakes, .refused ⟨rest, ?_⟩ hrefusal⟩
      rw [htrips, hsplit, List.append_assoc, List.singleton_append]
    · obtain ⟨trips, htrips, hmakes, hgranted⟩ := hall
      cases hfault : a.fault with
      | none =>
          refine .pure ⟨trips, ?_, .whole htrips hgranted hfault⟩
          rw [Account.append_empty]
          exact hmakes
      | some text =>
          refine .throw ⟨trips, text, rfl, ?_, .whole htrips hgranted hfault⟩
          rw [Account.append_empty]
          exact hmakes
  · rintro done e rest hsplit account t hgoes ⟨trips, htrips, hmakes, hgranted⟩
    have he : e ∈ a.errands := hsplit ▸ List.mem_append_right _ List.mem_cons_self
    refine (does_publish (hapt e he)).mono (fun _ more hmore => ?_) fun error more hmore => ?_
    · obtain ⟨trip, htrip, hone, hcalls⟩ := hmore
      refine ⟨trips ++ [trip], ?_, hmakes.append hgranted (hgoes.bridges ▸ hone), ?_⟩
      · rw [List.map_append, htrips, List.map_singleton, htrip]
      · exact List.forall_mem_append.mpr ⟨hgranted, List.forall_mem_singleton.mpr hcalls⟩
    · obtain ⟨trip, text, rfl, htrip, hone, hrefusal⟩ := hmore
      refine ⟨trips ++ [trip], text, rfl, ?_, hmakes.append hgranted (hgoes.bridges ▸ hone), ?_⟩
      · rw [List.map_append, htrips, List.map_singleton, htrip]
      · rw [List.flatMap_append, List.flatMap_singleton]
        refine hrefusal.append fun call hcall => ?_
        obtain ⟨t', ht', hcall⟩ := List.mem_flatMap.mp hcall
        exact hgranted t' ht' call hcall

end Runner

end Pipeworks
