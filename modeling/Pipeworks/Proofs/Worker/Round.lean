import Pipeworks.Proofs.Worker.Trip

/-!
The work of a runner on the items that arrive, after it has connected to its own broker and subscribed. Each item makes
a round: its record is reported, and trips are made for its agenda. The first item that faults makes the last round.
-/

namespace Pipeworks

open Link (Exchange Transcript)

variable {σ κ : Type}

namespace Runner

variable {link : Link σ κ} {r : Runner} {home : κ} {s : Session σ κ} {E : Error → Account κ → Prop}

def receipt (r : Runner) (a : Arrival) : List (Action κ) :=
  match a.record? with
  | some (topic, value) => r.reports "input" topic value
  | none => []

/-- Rounds are made one after another, with some bridges at first, and they are all that is accounted for. -/
structure Rounds (r : Runner) (home : κ) (bridges : List (String × κ)) (rounds : List (Arrival × List (Trip κ)))
    (account : Account κ) : Prop where
  visits : account.Visits r.cluster.broker home bridges (rounds.flatMap fun x => x.2.map (Trip.visit r.cluster.broker))
  actions : account.actions = rounds.flatMap fun x => r.receipt x.1 ++ x.2.flatMap (Trip.actions r)

namespace Rounds

variable {bridges : List (String × κ)} {rounds rounds' : List (Arrival × List (Trip κ))} {account account' : Account κ}

theorem nil : r.Rounds home bridges [] ∅ := ⟨.nil rfl rfl, rfl⟩

theorem single {a : Arrival} {trips : List (Trip κ)} (h : r.Makes home bridges trips account) :
    r.Rounds home bridges [(a, trips)] ({ actions := r.receipt a } ++ account) := by
  refine ⟨?_, ?_⟩
  · have hreceived : Account.Visits r.cluster.broker home bridges [] { actions := r.receipt a } := .nil rfl rfl
    rw [List.flatMap_singleton]
    exact hreceived.append (by simp) ((List.append_nil bridges).symm ▸ h.visits)
  · rw [Account.actions_append, h.actions, List.flatMap_singleton]

theorem calls_single {a : Arrival} {trips : List (Trip κ)} (h : r.Rounds home bridges [(a, trips)] account) :
    account.calls = trips.flatMap (·.calls) := by
  rw [h.visits.calls, List.flatMap_singleton, Visit.allCalls, List.flatMap_map]
  rfl

theorem append (h : r.Rounds home bridges rounds account)
    (hgranted : ∀ x ∈ rounds, ∀ t ∈ x.2, ∀ call ∈ t.calls, call.Granted)
    (h' : r.Rounds home (bridges ++ account.bridges) rounds' account') :
    r.Rounds home bridges (rounds ++ rounds') (account ++ account') := by
  refine ⟨?_, ?_⟩
  · rw [List.flatMap_append]
    refine h.visits.append (fun v hv => ?_) h'.visits
    obtain ⟨x, hx, hv⟩ := List.mem_flatMap.mp hv
    obtain ⟨t, ht, rfl⟩ := List.mem_map.mp hv
    exact hgranted x hx t ht
  · rw [Account.actions_append, h.actions, h'.actions, List.flatMap_append]

end Rounds

/-! ### Items -/

theorem does_receive (a : Arrival) :
    Work.Does link (r.receive a) (r.receive a) s (fun _ account => account = { actions := r.receipt a }) E := by
  rw [receive, receive, receipt]
  cases a.record? with
  | none => exact .pure rfl
  | some record => exact does_emit "input" record.1 record.2

variable {load : String → Step}

theorem apt_of_mem_agenda (htopology : r.topology = Topology.build load r.cluster) {a : Arrival} {e : Errand}
    (h : e ∈ (r.agenda a).errands) : e.sink.Apt r.cluster.broker := by
  obtain ⟨id, hsink⟩ := exists_sink_of_mem_agenda h
  rw [htopology] at hsink
  obtain ⟨o, -, ho⟩ := Option.map_eq_some_iff.mp ((Topology.equipped_build load r.cluster).sinkOf id e.sink hsink)
  exact ho ▸ Sink.apt_ofOutput r.cluster.broker o

theorem does_accept (htopology : r.topology = Topology.build load r.cluster) (a : Arrival) :
    Work.Does link (r.accept link home a) (r.accept link.transcribed home a) s
      (fun _ account => ∃ trips, r.Rounds home s.bridges [(a, trips)] account ∧ (r.agenda a).Ends trips none)
      fun e account => ∃ trips text, e = r.fault text ∧ r.Rounds home s.bridges [(a, trips)] account ∧
        (r.agenda a).Ends trips (some text) := by
  rw [accept_eq, accept_eq]
  refine (does_receive a).bind fun _ account t _ hgoes haccount => ?_
  have hbridges : t.bridges = s.bridges := by
    rw [hgoes.bridges, haccount]
    exact List.append_nil _
  subst haccount
  refine (does_perform (r.agenda a) fun e he => apt_of_mem_agenda htopology he).mono (fun _ more hmore => ?_)
    fun e more hmore => ?_
  · obtain ⟨trips, hmakes, hends⟩ := hmore
    exact ⟨trips, .single (hbridges ▸ hmakes), hends⟩
  · obtain ⟨trips, text, he, hmakes, hends⟩ := hmore
    exact ⟨trips, text, he, .single (hbridges ▸ hmakes), hends⟩

/-- Item by item, until all are worked on or one of them faults. -/
theorem does_items (htopology : r.topology = Topology.build load r.cluster) (arrivals : List Arrival) :
    Work.Does link (arrivals.forM (r.accept link home)) (arrivals.forM (r.accept link.transcribed home)) s
      (fun _ account => ∃ rounds, rounds.map (·.1) = arrivals ∧ r.Rounds home s.bridges rounds account ∧
        ∀ x ∈ rounds, (r.agenda x.1).Ends x.2 none)
      fun e account => ∃ done a rest t, arrivals = done ++ a :: rest ∧
        done.forM (r.accept link home) s = .ok ⟨⟩ t ∧ (r.accept link home a).error? t = some e ∧
        ∃ rounds trips text, e = r.fault text ∧ rounds.map (·.1) = done ∧
          r.Rounds home s.bridges (rounds ++ [(a, trips)]) account ∧ (∀ x ∈ rounds, (r.agenda x.1).Ends x.2 none) ∧
          (r.agenda a).Ends trips (some text) := by
  refine .forM link (I := fun done account => ∃ rounds, rounds.map (·.1) = done ∧ r.Rounds home s.bridges rounds account ∧
    ∀ x ∈ rounds, (r.agenda x.1).Ends x.2 none) arrivals ⟨[], rfl, .nil, by simp⟩ ?_
  rintro done a rest - account t hgoes ⟨rounds, hdone, hrounds, hends⟩
  have hgranted : ∀ x ∈ rounds, ∀ trip ∈ x.2, ∀ call ∈ trip.calls, call.Granted := fun x hx => (hends x hx).granted
  refine (does_accept htopology a).mono (fun _ more hmore => ?_) fun e more hmore => ?_
  · obtain ⟨trips, hone, hend⟩ := hmore
    refine ⟨rounds ++ [(a, trips)], ?_, hrounds.append hgranted (hgoes.bridges ▸ hone), ?_⟩
    · rw [List.map_append, hdone, List.map_singleton]
    · exact List.forall_mem_append.mpr ⟨hends, List.forall_mem_singleton.mpr hend⟩
  · obtain ⟨trips, text, he, hone, hend⟩ := hmore
    exact ⟨rounds, trips, text, he, hdone, hrounds.append hgranted (hgoes.bridges ▸ hone), hends, hend⟩

/-! ### Attaching -/

def Subscribes (r : Runner) (answer : Except Error κ) (calls : Transcript κ) : Prop :=
  ∀ call ∈ calls, ∃ home, answer = .ok home ∧
    ∃ i ∈ r.cluster.inputs, ∃ answer', call = .subscribe home i.topic r.cluster.group answer'

theorem Subscribes.nil {answer : Except Error κ} : r.Subscribes answer [] := fun _ hcall => nomatch hcall

theorem Subscribes.concat {home : κ} {calls : Transcript κ} (h : r.Subscribes (.ok home) calls) {i : Endpoint}
    (hi : i ∈ r.cluster.inputs) (answer : Except Error Unit) :
    r.Subscribes (.ok home) (calls ++ [.subscribe home i.topic r.cluster.group answer]) :=
  List.forall_mem_append.mpr ⟨h, List.forall_mem_singleton.mpr ⟨home, rfl, i, hi, answer, rfl⟩⟩

theorem does_subscribe (home : κ) :
    Work.Does link (r.cluster.inputs.forM fun i => Work.ask (link.subscribe home i.topic r.cluster.group) id)
      (r.cluster.inputs.forM fun i => Work.ask (link.transcribed.subscribe home i.topic r.cluster.group) id) s
      (fun _ account => ∃ calls, account = { calls := calls } ∧ r.Subscribes (.ok home) calls)
      fun e account => ∃ earlier topic group,
        account = { calls := earlier ++ [.subscribe home topic group (.error e)] } ∧
        r.Subscribes (.ok home) (earlier ++ [.subscribe home topic group (.error e)]) := by
  have hloop := Work.Does.forM link (s := s)
    (f := fun i => Work.ask (link.subscribe home i.topic r.cluster.group) id)
    (g := fun i => Work.ask (link.transcribed.subscribe home i.topic r.cluster.group) id)
    (I := fun _ account => ∃ calls : Transcript κ, account = { calls := calls } ∧ r.Subscribes (.ok home) calls)
    (F := fun _ i e account => ∃ earlier : Transcript κ,
      account = { calls := earlier ++ [.subscribe home i.topic r.cluster.group (.error e)] } ∧
        r.Subscribes (.ok home) (earlier ++ [.subscribe home i.topic r.cluster.group (.error e)]))
    r.cluster.inputs ⟨[], rfl, .nil⟩ ?_
  · refine hloop.mono (fun _ _ h => h) fun e account hfailed => ?_
    obtain ⟨-, i, -, -, -, -, -, earlier, haccount, hcalls⟩ := hfailed
    exact ⟨earlier, _, _, haccount, hcalls⟩
  · rintro done i rest hsplit account t - ⟨calls, rfl, hcalls⟩
    have hi : i ∈ r.cluster.inputs := hsplit ▸ List.mem_append_right _ List.mem_cons_self
    exact .ask (fun _ _ h => h) (fun answer => ⟨_, rfl, hcalls.concat hi _⟩) fun e => ⟨calls, rfl, hcalls.concat hi _⟩

/-- A runner connects to the broker of its cluster and subscribes, until all is granted or a call is refused. -/
theorem does_attach :
    Work.Does link (r.attach link) (r.attach link.transcribed) s
      (fun home account => ∃ calls, account =
          { calls := .connect r.cluster.broker (.ok home) :: calls, actions := [.connected r.cluster.broker] } ∧
        r.Subscribes (.ok home) calls)
      fun e account => ∃ answer calls, account =
          { calls := .connect r.cluster.broker answer :: calls, actions := [.connected r.cluster.broker] } ∧
        r.Subscribes answer calls ∧ (answer = .error e ∧ calls = [] ∨
          ∃ earlier client topic group, calls = earlier ++ [.subscribe client topic group (.error e)]) := by
  refine Work.Does.bind (Q := fun home account => account =
      { calls := [.connect r.cluster.broker (.ok home)], actions := [.connected r.cluster.broker] })
    (.connect (fun home => rfl) fun e => ⟨.error e, [], rfl, .nil, .inl ⟨rfl, rfl⟩⟩)
    fun home account t _ _ haccount => ?_
  subst haccount
  refine ((does_subscribe home).mono (fun _ _ h => h) fun e more hfailed => ?_).bind fun _ more u _ _ hmore => ?_
  · obtain ⟨earlier, topic, group, rfl, hcalls⟩ := hfailed
    exact ⟨.ok home, _, rfl, hcalls, .inr ⟨earlier, home, topic, group, rfl⟩⟩
  · obtain ⟨calls, rfl, hcalls⟩ := hmore
    refine .pure ⟨calls, ?_, hcalls⟩
    rw [Account.append_empty]
    rfl

end Runner

end Pipeworks
