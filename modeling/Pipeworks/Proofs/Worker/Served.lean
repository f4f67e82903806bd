import Pipeworks.Proofs.Worker.Paths
import Pipeworks.Proofs.Worker.Round

/-!
The work of a runner while the brokers serve it. Then all calls are granted, and each client leads to the broker that it
was asked for; so nothing but the agenda of an item decides what comes of it. For each errand there is one delivery, at
the broker that the sink names, with its report, and the only faults are those of the agenda.
-/

namespace Pipeworks

open Link (Exchange Transcript)

variable {σ κ : Type}

/-! ### Brokers that serve -/

/-- Brokers that serve: as long as they are `up`, whoever connects gets a client for the address that was asked for
and whatever is published is taken, and they stay up. -/
structure Link.Serves (link : Link σ κ) (address : κ → String) (up : σ → Prop) : Prop where
  connect : ∀ broker w, up w → ∃ k w', link.connect broker w = (.ok k, w') ∧ address k = broker ∧ up w'
  publish : ∀ k topic r w, up w → ∃ w', link.publish k topic r w = (.ok (), w') ∧ up w'

theorem Hub.serves : Hub.link.Serves id fun h => h.down = [] := by
  constructor
  · intro broker h hup
    exact ⟨broker, h, by simp [link, connect, requireUp, hup, Except.map], rfl, hup⟩
  · intro k topic r h hup
    refine ⟨h.produce ⟨k, topic⟩ r, ?_, hup⟩
    simp only [link, publish, requireUp, hup]
    rfl

structure Session.Ready (address : κ → String) (up : σ → Prop) (s : Session σ κ) : Prop where
  world : up s.world
  bridges : ∀ broker k, (broker, k) ∈ s.bridges → address k = broker

namespace Link

variable {link : Link σ κ} {address : κ → String} {up : σ → Prop} {calls : Transcript κ} {w w' : σ}

/-- The answer of brokers that serve. A subscription may be refused. -/
def Exchange.Served (address : κ → String) : Exchange κ → Prop
  | connect broker answer => ∃ client, answer = .ok client ∧ address client = broker
  | subscribe _ _ _ _ => True
  | publish _ _ _ answer => answer = .ok ()

theorem Exchange.Served.address_eq {call : Exchange κ} (h : call.Served address) {broker : String} {client : κ}
    (hopened : call.opened? = some (broker, client)) : address client = broker := by
  cases call with
  | connect broker' answer =>
      obtain ⟨client', rfl, haddress⟩ := h
      obtain ⟨rfl, rfl⟩ := Prod.mk.inj (Option.some.inj hopened)
      exact haddress
  | subscribe => cases hopened
  | publish => cases hopened

/-- Brokers that are up and serve stay up, if they do so at the subscriptions. -/
theorem Serves.leads (hserves : link.Serves address up)
    (hkeeps : ∀ client topic group answer, .subscribe client topic group answer ∈ calls →
      ∀ w, up w → up (link.subscribe client topic group w).2)
    (h : link.Leads calls w w') (hup : up w) : up w' ∧ ∀ call ∈ calls, call.Served address := by
  induction calls generalizing w with
  | nil => exact ⟨h ▸ hup, by simp⟩
  | cons call calls ih =>
      obtain ⟨w₁, hanswer, hrest⟩ := h
      have hcall : up w₁ ∧ call.Served address := by
        cases call with
        | connect broker answer =>
            obtain ⟨client, w₂, hconnect, haddress, hup'⟩ := hserves.connect broker w hup
            obtain ⟨rfl, rfl⟩ := Prod.mk.inj (hconnect.symm.trans hanswer)
            exact ⟨hup', client, rfl, haddress⟩
        | subscribe client topic group answer =>
            have hkept := hkeeps client topic group answer List.mem_cons_self w hup
            rw [show link.subscribe client topic group w = _ from hanswer] at hkept
            exact ⟨hkept, trivial⟩
        | publish client topic record answer =>
            obtain ⟨w₂, hpublish, hup'⟩ := hserves.publish client topic record w hup
            obtain ⟨rfl, rfl⟩ := Prod.mk.inj (hpublish.symm.trans hanswer)
            exact ⟨hup', rfl⟩
      obtain ⟨hup', hcalls⟩ := ih (fun client topic group answer hmem =>
        hkeeps client topic group answer (List.mem_cons_of_mem _ hmem)) hrest hcall.1
      exact ⟨hup', List.forall_mem_cons.mpr ⟨hcall.2, hcalls⟩⟩

end Link

/-! ### Visits to brokers that serve -/

section

variable {link : Link σ κ} {address : κ → String} {up : σ → Prop} {own : String} {home : κ}
  {bridges : List (String × κ)}
  {visits : List (Visit κ)} {v : Visit κ} {account : Account κ} {s t : Session σ κ}

theorem Visit.Made.granted (h : v.Made own home bridges) (hserved : ∀ call ∈ v.calls, call.Served address) :
    v.Granted := by
  intro call hcall
  have hanswer := hserved call hcall
  cases h with
  | near answer _ | again answer _ _ =>
      obtain rfl := List.mem_singleton.mp hcall
      obtain rfl : answer = .ok () := hanswer
      rfl
  | first client answer _ _ =>
      obtain rfl | hcall := List.mem_cons.mp hcall
      · rfl
      · obtain rfl := List.mem_singleton.mp hcall
        obtain rfl : answer = .ok () := hanswer
        rfl
  | refused e _ _ =>
      obtain rfl := List.mem_singleton.mp hcall
      obtain ⟨client, hclient, -⟩ := hanswer
      cases hclient

theorem Visit.Made.not_subscribe (h : v.Made own home bridges) {client : κ} {topic group : String}
    {answer : Except Error Unit} : .subscribe client topic group answer ∉ v.calls := by
  cases h <;> simp

theorem Visit.address_of_opened (hserved : ∀ call ∈ Visit.allCalls visits, call.Served address) {broker : String}
    {client : κ} (h : (broker, client) ∈ Visit.opened visits) : address client = broker := by
  obtain ⟨call, hcall, hopened⟩ := List.mem_filterMap.mp h
  exact (hserved call hcall).address_eq hopened

/-- When brokers that serve are visited in turn, they stay up, all calls are granted, and all bridges lead to their
brokers. -/
theorem Account.Visits.served (hserves : link.Serves address up) (hs : s.Ready address up)
    (h : account.Visits own home s.bridges visits) (hgoes : s.Goes link account t) :
    t.Ready address up ∧ ∀ v ∈ visits, v.Granted ∧ (∀ call ∈ v.calls, call.Served address) ∧
      ∃ bridges, v.Made own home bridges ∧ ∀ broker client, (broker, client) ∈ bridges → address client = broker := by
  have hleads := hgoes.world
  rw [h.calls] at hleads
  obtain ⟨hup, hserved⟩ := hserves.leads (fun client topic group answer hmem => by
    obtain ⟨v, hv, hmem⟩ := List.mem_flatMap.mp hmem
    obtain ⟨bridges, hmade⟩ := h.inTurn.made_of_mem hv
    exact absurd hmem hmade.not_subscribe) hleads hs.world
  refine ⟨⟨hup, fun broker client hmem => ?_⟩, fun v hv => ?_⟩
  · rw [hgoes.bridges, h.opened] at hmem
    exact (List.mem_append.mp hmem).elim (hs.bridges broker client) (Visit.address_of_opened hserved)
  · obtain ⟨before, after, rfl⟩ := List.append_of_mem hv
    have hcalls : ∀ call ∈ v.calls, call.Served address :=
      fun call hcall => hserved call (List.mem_flatMap.mpr ⟨v, hv, hcall⟩)
    obtain ⟨hmade, -⟩ := h.inTurn before v after rfl
    refine ⟨hmade.granted hcalls, hcalls, _, hmade, fun broker client hmem => ?_⟩
    refine (List.mem_append.mp hmem).elim (hs.bridges broker client) (Visit.address_of_opened fun call hcall => ?_)
    rw [Visit.allCalls_append] at hserved
    exact hserved call (List.mem_append_left _ hcall)

end

/-! ### What is seen of a worker -/

inductive Remark where
  | delivery (d : Delivery)
  | event (e : Event)

namespace Remark

def delivery? : Remark → Option Delivery
  | delivery d => some d
  | event _ => none

def event? : Remark → Option Event
  | delivery _ => none
  | event e => some e

end Remark

namespace Action

/-- What an action delivers: a publication goes to the broker that its client is connected to. -/
def delivery? (address : κ → String) : Action κ → Option Delivery
  | .published client channel payload => some ⟨address client, channel.topic, payload⟩
  | _ => none

def event? : Action κ → Option Event
  | .emitted e => some e
  | _ => none

def remark? (address : κ → String) : Action κ → Option Remark
  | .connected _ => none
  | .published client channel payload => some (.delivery ⟨address client, channel.topic, payload⟩)
  | .emitted e => some (.event e)

theorem bind_delivery? (address : κ → String) (a : Action κ) :
    (a.remark? address).bind Remark.delivery? = a.delivery? address := by
  cases a <;> rfl

theorem bind_event? (address : κ → String) (a : Action κ) : (a.remark? address).bind Remark.event? = a.event? := by
  cases a <;> rfl

theorem filterMap_delivery? (address : κ → String) (actions : List (Action κ)) :
    (actions.filterMap (remark? address)).filterMap Remark.delivery? = actions.filterMap (delivery? address) := by
  rw [List.filterMap_filterMap]
  exact congrArg (List.filterMap · actions) (funext (bind_delivery? address))

theorem filterMap_event? (address : κ → String) (actions : List (Action κ)) :
    (actions.filterMap (remark? address)).filterMap Remark.event? = actions.filterMap event? := by
  rw [List.filterMap_filterMap]
  exact congrArg (List.filterMap · actions) (funext (bind_event? address))

end Action

/-! ### The work on an item -/

namespace Runner

variable {link : Link σ κ} {address : κ → String} {up : σ → Prop} {r : Runner} {home : κ} {bridges : List (String × κ)}
  {s t : Session σ κ} {account : Account κ}

def reported (r : Runner) (kind topic : String) (value : Json) : List Remark :=
  if r.streamEvents then [.event (Event.stream r.pipeline r.cluster.index kind topic value)] else []

theorem filterMap_reports_remark? (address : κ → String) (r : Runner) (kind topic : String) (value : Json) :
    (r.reports kind topic value).filterMap (Action.remark? address) = r.reported kind topic value := by
  rw [reports, reported]
  split_ifs <;> rfl

def remarks (r : Runner) (e : Errand) : List Remark :=
  .delivery (e.delivery r.cluster.broker) :: r.reported "output" (e.sink.channel r.cluster.broker).topic e.value

def received (r : Runner) (a : Arrival) : List Remark :=
  match a.record? with
  | some (topic, value) => r.reported "input" topic value
  | none => []

def shown (r : Runner) (a : Arrival) : List Remark := r.received a ++ (r.agenda a).errands.flatMap r.remarks

theorem filterMap_receipt (address : κ → String) (r : Runner) (a : Arrival) :
    (r.receipt a).filterMap (Action.remark? address) = r.received a := by
  rw [receipt, received]
  cases a.record? with
  | none => rfl
  | some record => exact filterMap_reports_remark? address r "input" record.1 record.2

theorem remarks_deeds {d : Dispatch κ} (h : address d.client = d.channel.broker) :
    (d.deeds r).filterMap (Action.remark? address) =
      .delivery ⟨d.channel.broker, d.channel.topic, Record.encode d.value⟩ ::
        r.reported "output" d.channel.topic d.value := by
  rw [← filterMap_reports_remark? address, ← h]
  rfl

/-- A trip for which all calls are granted ends with a publication, through the client of the cluster or a bridge. -/
theorem actions_of_granted {trip : Trip κ} (hmade : (trip.visit r.cluster.broker).Made r.cluster.broker home bridges)
    (hgranted : ∀ call ∈ trip.calls, call.Granted) :
    ∃ client, (client = home ∧ (trip.sink.channel r.cluster.broker).broker = r.cluster.broker ∨
        ((trip.sink.channel r.cluster.broker).broker, client) ∈
          bridges ++ Visit.opened [trip.visit r.cluster.broker]) ∧
      trip.actions r = (trip.calls.filterMap Exchange.broker?).map .connected ++
        Dispatch.deeds r ⟨client, trip.sink.channel r.cluster.broker, trip.value⟩ := by
  obtain ⟨⟨sink, value⟩, calls⟩ := trip
  change Visit.Made _ home bridges ⟨(sink.channel r.cluster.broker, Record.encode value), calls⟩ at hmade
  rw [Trip.actions, Trip.sent]
  cases hmade with
  | near answer hnear =>
      cases answer with
      | ok => exact ⟨home, .inl ⟨rfl, hnear⟩, congrArg _ (List.append_nil _)⟩
      | error e => cases hgranted _ List.mem_cons_self
  | @again _ _ client answer _ hmem =>
      cases answer with
      | ok => exact ⟨client, .inr (List.mem_append_left _ hmem), congrArg _ (List.append_nil _)⟩
      | error e => cases hgranted _ List.mem_cons_self
  | first client answer _ _ =>
      cases answer with
      | ok => exact ⟨client, .inr (List.mem_append_right _ List.mem_cons_self), congrArg _ (List.append_nil _)⟩
      | error e => cases hgranted _ (List.mem_cons_of_mem _ List.mem_cons_self)
  | refused e _ _ => cases hgranted _ List.mem_cons_self

/-- A trip to brokers that serve is a delivery at the broker that the sink names. -/
theorem filterMap_trip (hhome : address home = r.cluster.broker)
    (hbridges : ∀ broker client, (broker, client) ∈ bridges → address client = broker) {trip : Trip κ}
    (hmade : (trip.visit r.cluster.broker).Made r.cluster.broker home bridges)
    (hgranted : ∀ call ∈ trip.calls, call.Granted) (hserved : ∀ call ∈ trip.calls, call.Served address) :
    (trip.actions r).filterMap (Action.remark? address) = r.remarks trip.toErrand := by
  obtain ⟨client, hclient, hactions⟩ := actions_of_granted hmade hgranted
  have haddress : address client = (trip.sink.channel r.cluster.broker).broker := by
    obtain ⟨rfl, hnear⟩ | hmem := hclient
    · exact hhome.trans hnear.symm
    · refine (List.mem_append.mp hmem).elim (hbridges _ _) (Visit.address_of_opened fun call hcall => ?_)
      exact hserved call (by simpa [Visit.allCalls, Trip.visit] using hcall)
  have hconnected : ((trip.calls.filterMap Exchange.broker?).map Action.connected).filterMap
      (Action.remark? address) = [] := by
    simp [Action.remark?, Function.comp_def]
  rw [hactions, List.filterMap_append, hconnected, List.nil_append]
  exact remarks_deeds haddress

/-- What is seen of a round of trips to brokers that serve. -/
theorem Rounds.served (hserves : link.Serves address up) (hhome : address home = r.cluster.broker)
    (hs : s.Ready address up) {a : Arrival} {trips : List (Trip κ)}
    (h : r.Rounds home s.bridges [(a, trips)] account) (hgoes : s.Goes link account t) :
    t.Ready address up ∧ (∀ trip ∈ trips, ∀ call ∈ trip.calls, call.Granted) ∧
      account.actions.filterMap (Action.remark? address) =
        (r.receipt a).filterMap (Action.remark? address) ++ trips.flatMap fun trip => r.remarks trip.toErrand := by
  have hvisits := h.visits
  rw [List.flatMap_singleton] at hvisits
  obtain ⟨hready, hserved⟩ := hvisits.served hserves hs hgoes
  have htrip : ∀ trip ∈ trips, (∀ call ∈ trip.calls, call.Granted) ∧
      (trip.actions r).filterMap (Action.remark? address) = r.remarks trip.toErrand := by
    intro trip htrip
    obtain ⟨hgranted, hcalls, bridges, hmade, hbridges⟩ := hserved _ (List.mem_map_of_mem htrip)
    exact ⟨hgranted, filterMap_trip hhome hbridges hmade hgranted hcalls⟩
  refine ⟨hready, fun trip hmem => (htrip trip hmem).1, ?_⟩
  rw [h.actions, List.flatMap_singleton, List.filterMap_append, List.filterMap_flatMap]
  exact congrArg _ (List.flatMap_congr fun trip hmem => (htrip trip hmem).2)

variable {load : String → Step}

/-- While the brokers serve, what is seen of an item and the fault in which the work on it ends, if there is one, are
those of its agenda. -/
theorem accept_served (hserves : link.Serves address up) (htopology : r.topology = Topology.build load r.cluster)
    (hhome : address home = r.cluster.broker) (hs : s.Ready address up) (a : Arrival) :
    ((r.accept link home a).last s).Ready address up ∧
      (r.accept link home a).error? s = (r.agenda a).fault.map r.fault ∧
      ∃ new, ((r.accept link home a).last s).trace = s.trace ++ new ∧
        new.filterMap (Action.remark? address) = r.shown a := by
  -- a round that ends with all its errands done shows what it should
  have hwhole {t : Session σ κ} {account : Account κ} {trips : List (Trip κ)}
      (hround : r.Rounds home s.bridges [(a, trips)] account) (hgoes : s.Goes link account t)
      (hdone : trips.map (·.toErrand) = (r.agenda a).errands) :
      t.Ready address up ∧ ∃ new, t.trace = s.trace ++ new ∧ new.filterMap (Action.remark? address) = r.shown a := by
    obtain ⟨hready, -, hactions⟩ := hround.served hserves hhome hs hgoes
    refine ⟨hready, account.actions, hgoes.trace, ?_⟩
    rw [hactions, shown, filterMap_receipt, ← hdone, List.flatMap_map]
  rw [Work.last, Work.error?]
  cases hrun : r.accept link home a s with
  | ok u t =>
      obtain ⟨account, -, hgoes, trips, hround, hends⟩ := (does_accept htopology a).of_ok hrun
      cases hends with
      | whole hdone _ hfault =>
          obtain ⟨hready, hnew⟩ := hwhole hround hgoes hdone
          exact ⟨hready, by rw [hfault]; rfl, hnew⟩
  | error e t =>
      obtain ⟨account, -, hgoes, trips, text, rfl, hround, hends⟩ := (does_accept htopology a).of_error hrun
      cases hends with
      | whole hdone _ hfault =>
          obtain ⟨hready, hnew⟩ := hwhole hround hgoes hdone
          exact ⟨hready, by rw [hfault]; rfl, hnew⟩
      | refused _ hrefusal =>
          obtain ⟨-, hgranted, -⟩ := hround.served hserves hhome hs hgoes
          refine absurd (fun call hcall => ?_) hrefusal.not_granted
          obtain ⟨trip, htrip, hcall⟩ := List.mem_flatMap.mp hcall
          exact hgranted trip htrip call hcall

/-- Nothing is seen of a runner that attaches. When it succeeds, its client leads to the broker of the cluster. -/
theorem attach_served (hserves : link.Serves address up)
    (hkeeps : ∀ client topic group w, up w → up (link.subscribe client topic group w).2) (r : Runner)
    (hs : s.Ready address up) :
    (∃ new, ((r.attach link).last s).trace = s.trace ++ new ∧ new.filterMap (Action.remark? address) = []) ∧
      ∀ home t, r.attach link s = .ok home t → t.Ready address up ∧ address home = r.cluster.broker := by
  rw [Work.last]
  cases hrun : r.attach link s with
  | error e t =>
      obtain ⟨account, -, hgoes, answer, calls, rfl, -⟩ := (does_attach (r := r)).of_error hrun
      refine ⟨⟨_, hgoes.trace, rfl⟩, fun home t' hend => ?_⟩
      cases hend
  | ok home t =>
      obtain ⟨account, -, hgoes, calls, rfl, -⟩ := (does_attach (r := r)).of_ok hrun
      refine ⟨⟨_, hgoes.trace, rfl⟩, fun home' t' hend => ?_⟩
      obtain ⟨rfl, rfl⟩ := EStateM.Result.ok.inj hend
      obtain ⟨hup, hserved⟩ :=
        hserves.leads (fun client topic group _ _ => hkeeps client topic group) hgoes.world hs.world
      refine ⟨⟨hup, ?_⟩, (hserved _ List.mem_cons_self).address_eq rfl⟩
      rw [hgoes.bridges, List.append_nil]
      exact hs.bridges

end Runner

end Pipeworks
