import Pipeworks.Proofs.Worker.Outcome

/-!
What the error that ends the work of a cluster is put down to. An item, a payload or a step that fails, a bridge that
cannot be opened and a publication that is refused all end the work with a fault that names the cluster and the cause.
The broker of the cluster itself is the exception: while the cluster attaches to it, the error is handed on as the
broker gave it, and names no cluster.
-/

namespace Pipeworks

variable {σ κ : Type}

namespace Runner

/-! ### The causes of a fault -/

/-- What a fault in the work on an item can be put down to, with the text that tells it. A refusal of the brokers is the
last call at them: it has left the world as it is in the end. -/
inductive Cause (g : Graph) (load : String → Step) (own : String) (link : Link σ κ) (a : Arrival) (s : Session σ κ) :
    String → Prop where
  | item {e : Error} : a.item = .error e → Cause g load own link a s s!"subscription to '{a.topic}' failed: {e.message}"
  | payload {payload : ByteArray} {e : Error} : a.item = .ok payload → Record.decode payload = .error e →
      Cause g load own link a s s!"undecodable record on '{a.topic}': {e.message}"
  | step {payload : ByteArray} {value last : Json} {n : NodeRef} {id : Int} {e : Error} : a.item = .ok payload →
      Record.decode payload = .ok value → g.Arrives load a.input value n last → (n, .transformation id) ∈ g.edges →
      g.stepAt load id last = .error e →
      Cause g load own link a s s!"{(NodeRef.transformation id).name} raised: {e.message}"
  | bridge {broker : String} {w : σ} {e : Error} : broker ≠ own → link.connect broker w = (.error e, s.world) →
      Cause g load own link a s s!"cannot open bridge to {broker}: {e.message}"
  | publication {client : κ} {topic : String} {record : Record} {w : σ} {e : Error} :
      link.publish client topic record w = (.error e, s.world) →
      Cause g load own link a s s!"publish to '{topic}' failed: {e.message}"

variable {link : Link σ κ} {r : Runner} {g : Graph} {load : String → Step} {home : κ} {a : Arrival}
  {s s' : Session σ κ} {text : String}

/-- A fault of the agenda is one of the item, of its payload or of a step. -/
theorem cause_of_fault (hfollows : r.topology.Follows g load r.cluster.broker fun _ => True)
    (h : (r.agenda a).fault = some text) : Cause g load r.cluster.broker link a s text := by
  rw [agenda] at h
  cases hitem : a.item with
  | error e =>
      rw [hitem] at h
      obtain rfl := Option.some.inj h
      exact .item hitem
  | ok payload =>
      simp only [hitem] at h
      cases hvalue : Record.decode payload with
      | error e =>
          simp only [hvalue] at h
          obtain rfl := Option.some.inj h
          exact .payload hitem hvalue
      | ok value =>
          simp only [hvalue] at h
          obtain ⟨n, last, id, e, harrives, hedge, hstep, rfl⟩ := hfollows.exists_arrives_of_fault trivial h
          exact .step hitem hvalue harrives hedge hstep

/-- The call with which a round was broken off is the last one of all. -/
theorem cause_of_refusal {trips : List (Trip κ)} {account : Account κ} {bridges : List (String × κ)}
    (hround : r.Rounds home bridges [(a, trips)] account) (hgoes : s.Goes link account s')
    (h : Link.Refusal (trips.flatMap (·.calls)) text) : Cause g load r.cluster.broker link a s' text := by
  obtain ⟨earlier, call, hcalls, -, hcall⟩ := h
  have hleads := hgoes.world
  rw [hround.calls_single, hcalls] at hleads
  obtain ⟨w, -, hanswer⟩ := Link.leads_append.mp hleads
  rw [Link.leads_singleton] at hanswer
  rw [Link.Exchange.complaint?.eq_def] at hcall
  split at hcall
  · rename_i broker e
    obtain rfl := Option.some.inj hcall
    obtain ⟨trip, htrip, hmem⟩ := List.mem_flatMap.mp (hcalls ▸ List.mem_append_right earlier List.mem_cons_self)
    have hturn := hround.visits.inTurn
    rw [List.flatMap_singleton] at hturn
    obtain ⟨_, hmade⟩ := hturn.made_of_mem (List.mem_map_of_mem htrip)
    exact .bridge (hmade.far hmem) hanswer
  · obtain rfl := Option.some.inj hcall
    exact .publication hanswer
  · cases hcall

/-- Whatever is wrong with an item, the work on it faults, and the fault tells why. -/
theorem cause_of_accept (htopology : r.topology = Topology.build load r.cluster) {e : Error}
    (hrun : r.accept link home a s = .error e s') :
    ∃ text, e = .runtimeFault r.cluster.index text ∧
      Cause (r.cluster.wired load) load r.cluster.broker link a s' text := by
  have hfollows : r.topology.Follows (r.cluster.wired load) load r.cluster.broker fun _ => True :=
    htopology ▸ r.cluster.follows_wired load
  obtain ⟨account, -, hgoes, trips, text, rfl, hround, hends⟩ := (does_accept htopology a).of_error hrun
  refine ⟨text, rfl, ?_⟩
  cases hends with
  | whole _ _ hfault => exact cause_of_fault hfollows hfault
  | refused _ hrefusal => exact cause_of_refusal hround hgoes hrefusal

/-! ### Attaching -/

/-- The broker of the cluster has refused a cluster that attaches to it: either the connection or the subscription to
an input. The error is the one that the broker gave. -/
inductive Refused (link : Link σ κ) (c : Cluster) (s s' : Session σ κ) (e : Error) : Prop where
  | connection : link.connect c.broker s.world = (.error e, s'.world) → Refused link c s s' e
  | subscription {home : κ} {w w' : σ} {i : Endpoint} : link.connect c.broker s.world = (.ok home, w) → i ∈ c.inputs →
      link.subscribe home i.topic c.group w' = (.error e, s'.world) → Refused link c s s' e

theorem refused_of_attach {e : Error} (h : r.attach link s = .error e s') : Refused link r.cluster s s' e := by
  obtain ⟨account, -, hgoes, answer, calls, rfl, hsubscribes, hend⟩ := does_attach.of_error h
  obtain ⟨w, hconnect, hrest⟩ := hgoes.world
  obtain ⟨rfl, rfl⟩ | ⟨earlier, client, topic, group, rfl⟩ := hend
  · obtain rfl : w = s'.world := hrest
    exact .connection hconnect
  · obtain ⟨home, rfl, i, hi, answer', hcall⟩ := hsubscribes _ (List.mem_append_right _ List.mem_cons_self)
    obtain ⟨rfl, rfl, rfl, rfl⟩ := Link.Exchange.subscribe.inj hcall
    obtain ⟨w', -, hrefused⟩ := Link.leads_append.mp hrest
    exact .subscription hconnect hi (Link.leads_singleton.mp hrefused)

/-! ### A run -/

/-- Every error that ends the run of a cluster, whatever the steps, the brokers and the items are. Either the broker of
the cluster has refused it when it attached, and the error is the broker's own; or the cluster was attached, the work on
some items has ended well, and that on the next one with a fault that names the cluster and tells the cause. -/
theorem run_blames (load : String → Step) (pipeline : PipelineId) (c : Cluster) (streamEvents : Bool)
    (link : Link σ κ) (arrivals : List Arrival) (s : Session σ κ) :
    let r : Runner := ⟨pipeline, c, Topology.build load c, streamEvents⟩
    (∀ e s', r.attach link s = .error e s' → Refused link c s s' e ∧ r.run link arrivals s = .error e s') ∧
    ∀ home s₁, r.attach link s = .ok home s₁ → ∀ e s', r.run link arrivals s = .error e s' →
      ∃ before a after s₂ text, arrivals = before ++ a :: after ∧ before.forM (r.accept link home) s₁ = .ok () s₂ ∧
        r.accept link home a s₂ = .error e s' ∧ e = .runtimeFault c.index text ∧
        Cause (c.wired load) load c.broker link a s' text := by
  intro r
  have htopology : r.topology = Topology.build load r.cluster := rfl
  refine ⟨fun e s' hattach => ⟨refused_of_attach hattach, ?_⟩, fun home s₁ hattach e s' hrun => ?_⟩
  · rw [run, Work.bind_apply, hattach]
  · rw [run, Work.bind_apply, hattach] at hrun
    obtain ⟨before, a, after, s₂, hsplit, hbefore, hlast⟩ := Work.forM_eq_error hrun
    obtain ⟨text, he, hcause⟩ := cause_of_accept htopology hlast
    exact ⟨before, a, after, s₂, text, hsplit, hbefore, hlast, he, hcause⟩

/-- The cluster of two outputs is attached, and then cannot reach the other broker. -/
theorem halved_run_blames :
    let arrivals : List Arrival := [⟨.input 1, "x", .ok (Record.encode (.int 2))⟩]
    ∃ home s₁ e s', halving.attach Hub.link stranded = .ok home s₁ ∧
      halving.run Hub.link arrivals stranded = .error e s' ∧
      ∃ before a after s₂ text, arrivals = before ++ a :: after ∧
        before.forM (halving.accept Hub.link home) s₁ = .ok () s₂ ∧ halving.accept Hub.link home a s₂ = .error e s' ∧
        e = .runtimeFault 0 text ∧
        Cause (halved.wired fun _ value => .ok (some value)) (fun _ value => .ok (some value)) "near" Hub.link a s' text ∧
        e.message = "Runtime fault in segment 0: cannot open bridge to far: Broker at far unavailable: broker is down" := by
  intro arrivals
  have hfails : (Work.error? (halving.run Hub.link arrivals) stranded).map Error.message =
      some "Runtime fault in segment 0: cannot open bridge to far: Broker at far unavailable: broker is down" := by
    decide +kernel
  have hattach : halving.attach Hub.link stranded = .ok "near" { stranded with trace := [.connected "near"] } := rfl
  obtain ⟨e, he, hmessage⟩ := Option.map_eq_some_iff.mp hfails
  have hrun := Work.eq_error he
  obtain ⟨before, a, after, s₂, text, hsplit, hbefore, hlast, he, hcause⟩ :=
    (run_blames (fun _ value => .ok (some value)) 1 halved false Hub.link arrivals stranded).2 _ _ hattach e _ hrun
  refine ⟨_, _, e, _, hattach, hrun, before, a, after, s₂, text, hsplit, hbefore, hlast, he, hcause, ?_⟩
  rw [Work.error?, hrun] at hfails
  exact Option.some.inj hfails

/-- Not every error of a run names the cluster: when the broker of the cluster itself is down, the error is that of the
broker. -/
theorem not_forall_run_fault :
    ¬∀ (load : String → Step) (pipeline : PipelineId) (c : Cluster) (streamEvents : Bool) (link : Link Hub String)
      (arrivals : List Arrival) (s : Session Hub String) (e : Error) (s' : Session Hub String),
      (⟨pipeline, c, Topology.build load c, streamEvents⟩ : Runner).run link arrivals s = .error e s' →
        ∃ text, e = .runtimeFault c.index text := by
  intro hall
  have hrun : halving.run Hub.link [] { world := { down := ["near"] } } =
      .error (.transport "near" "broker is down")
        { world := { down := ["near"] }, trace := [.connected "near"] } := rfl
  obtain ⟨text, htext⟩ := hall _ _ _ _ _ _ _ _ _ hrun
  cases htext

end Runner

end Pipeworks
