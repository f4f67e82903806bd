import Pipeworks.Proofs.Worker.Paths
import Pipeworks.Proofs.Worker.Sequence

/-!
How the work on a record ends, whatever the steps, the brokers and the bridges do. The calls that a worker makes at the
brokers are taken down with their answers, and they explain the end of the work: when all calls are granted and no step
fails on what arrives at it, the record is carried to its end, and otherwise there is a fault that names the cluster.
-/

namespace Pipeworks

open Link (Transcript)

variable {σ κ : Type}

namespace Runner

variable {g : Graph} {load : String → Step} {value : Json}

/-- What a payload is to publish along some paths when nothing fails: nothing at all, if it has no value. -/
def due (g : Graph) (load : String → Step) (routes : List (List (Fin g.flows.length))) (payload : ByteArray) :
    List Publication :=
  match Record.decode payload with
  | .ok value => (routes.filterMap (g.deliver? load · value)).map Delivery.publication
  | .error _ => []

theorem due_eq {routes : List (List (Fin g.flows.length))} {payload : ByteArray}
    (hvalue : Record.decode payload = .ok value) :
    due g load routes payload = (routes.filterMap (g.deliver? load · value)).map Delivery.publication := by
  rw [due, hvalue]

end Runner

def Arrival.due (g : Graph) (load : String → Step) (a : Arrival) : List Publication :=
  match a.item with
  | .ok payload => Runner.due g load (g.paths a.input) payload
  | .error _ => []

namespace Runner

/-- What an item without a fault is to publish is what is due; where there is a fault, it is a part of that. -/
theorem errands_due {r : Runner} {g : Graph} {load : String → Step}
    (hfollows : r.topology.Follows g load r.cluster.broker fun _ => True) (hedges : g.edges = r.topology.edges)
    (a : Arrival) :
    ((r.agenda a).errands.map (Errand.publication r.cluster.broker)).Subperm (a.due g load) ∧
      ((r.agenda a).fault = none →
        ((r.agenda a).errands.map (Errand.publication r.cluster.broker)).Perm (a.due g load)) := by
  cases hvalue : a.value with
  | error e =>
      obtain ⟨hnone, hfault⟩ := agenda_of_no_value hvalue
      rw [hnone]
      exact ⟨List.nil_subperm, fun hcalm => absurd hcalm hfault⟩
  | ok value =>
      have hdue : a.due g load = (g.deliveries load (g.edges.length + 1) a.input value).map Delivery.publication := by
        obtain ⟨input, topic, item⟩ := a
        cases item with
        | error e => cases hvalue
        | ok payload => exact (due_eq hvalue).trans (congrArg _ (Graph.filterMap_paths g load input value))
      have hall := (hfollows.errands_perm trivial (g.edges.length + 1) (n := a.input) value).map Delivery.publication
      rw [List.map_map] at hall
      obtain ⟨hpart, hwhole⟩ := r.topology.errands_agenda (g.edges.length + 1) a.input value
      rw [agenda_of_value hvalue, ← hedges, hdue]
      refine ⟨(hpart.sublist.map _).subperm.trans hall.subperm, fun hcalm => ?_⟩
      rw [hwhole hcalm]
      exact hall

/-- Whatever the cluster, the payload, the steps and the brokers are. The work on a record ends well exactly when the
payload has a value, no step fails on what arrives at it, and every call that is made at the brokers is granted; any
other end is a fault that names the cluster. The wired flows have the paths `routes` from the input to an output through
transformations, each of them once, and what was published by the end is among what is due along these paths, each
publication no more often than there; after a good end it is all of it. -/
theorem handle_outcome (load : String → Step) (pipeline : PipelineId) (c : Cluster) (streamEvents : Bool)
    (link : Link σ κ) (home : κ) (input : NodeRef) (topic : String) (payload : ByteArray) (s : Session σ κ) :
    let r : Runner := ⟨pipeline, c, Topology.build load c, streamEvents⟩
    let g := c.wired load
    let work := r.handle link home input topic payload
    ∃ (calls : Transcript κ) (routes : List (List (Fin g.flows.length))) (out : List Publication),
      r.handle link.transcribed home input topic payload (s.withTranscript []) = Work.withTranscript calls (work s) ∧
      ((∃ s', work s = .ok () s') ↔
        (∃ value, Record.decode payload = .ok value ∧ g.Undisturbed load input value) ∧ ∀ call ∈ calls, call.Granted) ∧
      (∀ e s', work s = .error e s' → ∃ text, e = .runtimeFault c.index text) ∧
      routes.Nodup ∧ (∀ p, p ∈ routes ↔ g.IsRoute input p) ∧
      (work.last s).published = s.published ++ out ∧
      out.Subperm (due g load routes payload) ∧
      ((∃ s', work s = .ok () s') → out.Perm (due g load routes payload)) := by
  intro r g work
  let a : Arrival := ⟨input, topic, .ok payload⟩
  have hfollows := c.follows_wired load
  have hacyclic := c.acyclic_wired load
  have hedges : g.edges = r.topology.edges := c.edges_wired load
  have htopology : r.topology = Topology.build load r.cluster := rfl
  obtain ⟨hpart, hwhole⟩ := errands_due (r := r) hfollows hedges a
  have hcalm : (r.agenda a).fault = none ↔
      ∃ value, Record.decode payload = .ok value ∧ g.Undisturbed load input value :=
    fault_agenda_eq_none_iff hfollows hacyclic hedges
  obtain ⟨account, hrecorded, -, hok, herror⟩ := does_accept htopology a
  suffices hends : ∃ out,
      ((∃ s', work s = .ok () s') ↔ (r.agenda a).fault = none ∧ ∀ call ∈ account.calls, call.Granted) ∧
      (∀ e s', work s = .error e s' → ∃ text, e = .runtimeFault c.index text) ∧
      (work.last s).published = s.published ++ out ∧ out.Subperm (due g load (g.paths input) payload) ∧
      ((∃ s', work s = .ok () s') → out.Perm (due g load (g.paths input) payload)) by
    obtain ⟨out, hiff, hfault, hout, hsome, hall⟩ := hends
    exact ⟨account.calls, g.paths input, out, hrecorded [], hiff.trans (and_congr_left' hcalm), hfault,
      Graph.nodup_paths, Graph.mem_paths hacyclic, hout, hsome, hall⟩
  rw [Work.last]
  cases hrun : work s with
  | ok u s' =>
      obtain ⟨trips, hround, ⟨-, hgranted, hfault⟩ | _⟩ := hok u s' hrun
      refine ⟨_, iff_of_true ⟨s', rfl⟩ ⟨hfault, ?_⟩, fun e s'' hend => ?_, (published_accept (a := a) htopology hrun).2,
        hpart, fun _ => hwhole hfault⟩
      · rw [hround.calls_single]
        exact List.forall_mem_flatMap.mpr hgranted
      · cases hend
  | error e s' =>
      have hbad : ¬∃ s'', EStateM.Result.error e s' = .ok () s'' := by simp
      obtain ⟨out, hout, hpublished⟩ := published_accept_error (a := a) htopology hrun
      obtain ⟨trips, text, rfl, hround, hends⟩ := herror e s' hrun
      refine ⟨out, iff_of_false hbad ?_, fun e' s'' hend => ?_, hpublished, hout.sublist.subperm.trans hpart,
        fun hgood => absurd hgood hbad⟩
      · rintro ⟨hfine, hgranted⟩
        rw [hround.calls_single] at hgranted
        cases hends with
        | whole _ _ hfault => cases hfine.symm.trans hfault
        | refused _ hrefusal => exact hrefusal.not_granted hgranted
      · obtain ⟨rfl, -⟩ := EStateM.Result.error.inj hend
        exact ⟨text, rfl⟩

/-- A cluster whose input leads to an output on its own broker and to one on another broker. -/
def halved : Cluster where
  index := 0
  broker := "near"
  group := "halved"
  inputs := [⟨1, none, "x", "near", none⟩]
  flows := [⟨none, .input 1, .output 2⟩, ⟨none, .input 1, .output 3⟩]
  transformations := []
  outputs := [⟨2, none, "y", "far", none⟩, ⟨3, none, "z", "near", none⟩]

def halving : Runner := ⟨1, halved, Topology.build (fun _ value => .ok (some value)) halved, false⟩

def stranded : Session Hub String where
  world := { down := ["far"] }

/-- A number is published on the near broker, and then no bridge can be opened to the other one. -/
theorem halved_handle_outcome :
    let load : String → Step := fun _ value => .ok (some value)
    let work := halving.handle Hub.link "near" (.input 1) "x" (Record.encode (.int 2))
    ∃ (e : Error) (s : Session Hub String) (calls : Transcript String)
      (routes : List (List (Fin (halved.wired load).flows.length))),
      work stranded = .error e s ∧ (∃ text, e = .runtimeFault 0 text) ∧ calls.map (decide ·.Granted) = [true, false] ∧
      routes.Nodup ∧ (∀ p, p ∈ routes ↔ (halved.wired load).IsRoute (.input 1) p) ∧
      s.published = [(⟨"near", "z"⟩, Record.encode (.int 2))] ∧
      s.published.Subperm (due (halved.wired load) load routes (Record.encode (.int 2))) := by
  intro load work
  have herror : (Work.error? (halving.handle Hub.link "near" (.input 1) "x" (Record.encode (.int 2)))
      stranded).isSome := by decide +kernel
  have hpublished : (Work.last (halving.handle Hub.link "near" (.input 1) "x" (Record.encode (.int 2)))
      stranded).published = [(⟨"near", "z"⟩, Record.encode (.int 2))] := by decide +kernel
  have hgranted : (Work.last (halving.handle Hub.link.transcribed "near" (.input 1) "x" (Record.encode (.int 2)))
      (stranded.withTranscript [])).world.2.map (decide ·.Granted) = [true, false] := by decide +kernel
  obtain ⟨calls, routes, out, hrecorded, -, hfault, hnodup, hroutes, hout, hdue, -⟩ := handle_outcome load 1 halved false
    Hub.link "near" (.input 1) "x" (Record.encode (.int 2)) stranded
  obtain ⟨e, he⟩ := Option.isSome_iff_exists.mp herror
  have hrun := Work.eq_error he
  refine ⟨e, work.last stranded, calls, routes, hrun, hfault e _ hrun, ?_, hnodup, hroutes, hpublished, ?_⟩
  · rw [← Work.transcript_last hrecorded]
    exact hgranted
  · rw [show (work.last stranded).published = out from hout]
    exact hdue

end Runner

end Pipeworks
