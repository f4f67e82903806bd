import Pipeworks.Proofs.Worker.Course
import Pipeworks.Proofs.Worker.Outcome

/-!
Which brokers a worker connects to in one run, when it does, and through which clients it publishes. After the
connection to the broker of the cluster and the subscriptions the calls at the brokers fall into visits, one for each
publication that is taken up, and the clients that a visit may use are those that the calls before it have opened: the
bridges are a cache of these answers, and nothing else.
-/

namespace Pipeworks

open Link (Exchange Transcript)

variable {σ κ : Type}

namespace Runner

/-- An item for which a broker is connected to has something due there, and no item before it has. -/
theorem connects_for_first {own : String} {due : Arrival → List Publication} {records : List (Arrival × List (Visit κ))}
    (hturn : Visit.InTurn own home [] (records.flatMap (·.2))) (hdue : ∀ x ∈ records, ∀ v ∈ x.2, v.wanted ∈ due x.1)
    (hwhole : ∀ before x after, records = before ++ x :: after →
      ∀ y ∈ before, ∀ p ∈ due y.1, ∃ v ∈ y.2, v.wanted = p)
    {before after : List (Arrival × List (Visit κ))} {a : Arrival} {visits : List (Visit κ)}
    (hsplit : records = before ++ (a, visits) :: after) {broker : String} {answer : Except Error κ}
    (hconnect : .connect broker answer ∈ Visit.allCalls visits) :
    (∃ p ∈ due a, p.1.broker = broker) ∧ ∀ x ∈ before, ∀ p ∈ due x.1, p.1.broker ≠ broker := by
  obtain ⟨v, hv, hcall⟩ := List.mem_flatMap.mp hconnect
  obtain ⟨sooner, later, hvisits⟩ := List.append_of_mem hv
  have hall : records.flatMap (·.2) =
      (before.flatMap (·.2) ++ sooner) ++ v :: (later ++ after.flatMap (·.2)) := by
    rw [hsplit, List.flatMap_append, List.flatMap_cons, hvisits]
    simp
  obtain ⟨hmade, hgranted⟩ := hturn _ v _ hall
  rw [List.nil_append] at hmade
  have hbroker : broker ∈ v.calls.filterMap Exchange.broker? := List.mem_filterMap.mpr ⟨_, hcall, rfl⟩
  obtain hnone | ⟨hone, hfar, hnew⟩ := hmade.brokers
  · rw [hnone] at hbroker
    cases hbroker
  · rw [hone] at hbroker
    obtain rfl := List.mem_singleton.mp hbroker
    refine ⟨⟨v.wanted, hdue (a, visits) (by simp [hsplit]) v hv, rfl⟩, fun x hx p hp hsame => hnew ?_⟩
    -- an earlier visit to the same broker has left a bridge
    obtain ⟨u, hu, rfl⟩ := hwhole before (a, visits) after hsplit x hx p hp
    have hmem : u ∈ before.flatMap (·.2) ++ sooner := List.mem_append_left _ (List.mem_flatMap_of_mem hx hu)
    obtain ⟨earlier, others, hearlier⟩ := List.append_of_mem hmem
    have hbridged := (hturn earlier u (others ++ v :: (later ++ after.flatMap (·.2)))
      (by rw [hall, hearlier, List.append_assoc, List.cons_append])).1.bridged (hgranted u hmem) (hsame ▸ hfar)
    rw [hearlier, ← hsame, show u :: others = [u] ++ others from rfl, ← List.append_assoc, Visit.opened_append,
      Visit.opened_append, List.map_append]
    exact List.mem_append_left _ hbridged

/-- The connections of one run, whatever the cluster, the steps, the brokers and the items are. The first call is to
connect to the broker of the cluster, and no broker is connected to twice in the whole run, neither this one nor another
one, whether the connection was granted or not. After the subscriptions, the calls are those of the visits to the
outputs, item by item: a visit is for a publication that is due of its item, and this goes through the client of the
cluster if it is for the broker of the cluster, and otherwise through the client that was opened to its broker, in this
visit or before. So another broker is only connected to for the first item of which something is due there. -/
theorem run_connections (load : String → Step) (pipeline : PipelineId) (c : Cluster) (streamEvents : Bool)
    (link : Link σ κ) (arrivals : List Arrival) (world : σ) (trace : List (Action κ)) :
    let r : Runner := ⟨pipeline, c, Topology.build load c, streamEvents⟩
    let s : Session σ κ := { world, trace }
    let due := Arrival.due (c.wired load) load
    ∃ (answer : Except Error κ) (subscriptions : Transcript κ) (records : List (Arrival × List (Visit κ))),
      let visits := records.flatMap (·.2)
      let calls := .connect c.broker answer :: (subscriptions ++ Visit.allCalls visits)
      r.run link.transcribed arrivals (s.withTranscript []) = Work.withTranscript calls (r.run link arrivals s) ∧
      (calls.filterMap Exchange.broker?).Nodup ∧
      (∀ call ∈ subscriptions, ∃ home, answer = .ok home ∧
        ∃ i ∈ c.inputs, ∃ answer', call = .subscribe home i.topic c.group answer') ∧
      records.map (·.1) <+: arrivals ∧
      (∀ x ∈ records, ∀ v ∈ x.2, v.wanted ∈ due x.1) ∧
      (∀ before v after, visits = before ++ v :: after → ∃ home, answer = .ok home ∧
        v.Made c.broker home (Visit.opened before) ∧ ∀ u ∈ before, u.Granted) ∧
      ∀ before a visits after, records = before ++ (a, visits) :: after →
        ∀ broker answer', .connect broker answer' ∈ Visit.allCalls visits →
          (∃ p ∈ due a, p.1.broker = broker) ∧ ∀ x ∈ before, ∀ p ∈ due x.1, p.1.broker ≠ broker := by
  intro r s due
  have htopology : r.topology = Topology.build load r.cluster := rfl
  have hfollows : r.topology.Follows (c.wired load) load r.cluster.broker fun _ => True := c.follows_wired load
  have hedges : (c.wired load).edges = r.topology.edges := c.edges_wired load
  obtain ⟨answer, subscriptions, rounds, account, hrecorded, -, ⟨hsubscribes, hcalls, -, hturn, hends, honward⟩, hgets⟩ :=
    run_course htopology link arrivals s
  let records := rounds.map fun x => (x.1, x.2.map (Trip.visit c.broker))
  have hvisits : records.flatMap (·.2) = rounds.flatMap fun x => x.2.map (Trip.visit c.broker) := List.flatMap_map ..
  have hinTurn {a : Arrival} {visits : List (Visit κ)} (hmem : (a, visits) ∈ records) :
      ∃ home, answer = .ok home ∧ Visit.InTurn c.broker home [] (records.flatMap (·.2)) := by
    rw [hvisits]
    obtain ⟨x, hx, -⟩ := List.mem_map.mp hmem
    exact hturn (List.ne_nil_of_mem hx)
  -- what is taken up of an item is due, and all that is due is taken up before the next item
  have hdue : ∀ x ∈ records, ∀ v ∈ x.2, v.wanted ∈ due x.1 := by
    refine List.forall_mem_map.mpr fun x hx => List.forall_mem_map.mpr fun trip htrip => ?_
    obtain ⟨fault, hend⟩ := hends x hx
    have herrand := hend.isPrefix.subset (List.mem_map_of_mem htrip)
    exact (errands_due hfollows hedges x.1).1.subset (List.mem_map_of_mem herrand)
  have hwhole : ∀ before x after, records = before ++ x :: after →
      ∀ y ∈ before, ∀ p ∈ due y.1, ∃ v ∈ y.2, v.wanted = p := by
    intro before x after hsplit y hy p hp
    obtain ⟨before, rest, rfl, rfl, hrest⟩ := List.map_eq_append_iff.mp hsplit
    obtain ⟨x, after, rfl, -, -⟩ := List.map_eq_cons_iff.mp hrest
    obtain ⟨y, hmem, rfl⟩ := List.mem_map.mp hy
    cases honward before x after rfl y hmem with
    | whole herrands _ hcalm =>
        have hmem := ((errands_due hfollows hedges y.1).2 hcalm).mem_iff.mpr hp
        rw [← herrands, List.map_map] at hmem
        obtain ⟨trip, htrip, rfl⟩ := List.mem_map.mp hmem
        exact ⟨trip.visit c.broker, List.mem_map_of_mem htrip, rfl⟩
  refine ⟨answer, subscriptions, records, ?_, ?_, hsubscribes, ?_, hdue, fun before v after hsplit => ?_,
    fun before a visits after hsplit broker answer' hconnect => ?_⟩
  · rw [hvisits, hrecorded [], List.nil_append, hcalls]
  · have hnone : subscriptions.filterMap Exchange.broker? = [] := by
      refine List.filterMap_eq_nil_iff.mpr fun call hcall => ?_
      obtain ⟨home, -, i, -, answer', rfl⟩ := hsubscribes call hcall
      rfl
    by_cases hempty : rounds = []
    · simp [records, hempty, Visit.allCalls, Exchange.broker?, hnone]
    · obtain ⟨home, -, hturn⟩ := hturn hempty
      have hnodup := hturn.nodup_brokers
      rw [hvisits, List.filterMap_cons, List.filterMap_append, hnone, List.nil_append]
      exact hnodup
  · rw [List.map_map]
    exact hgets.isPrefix
  · obtain ⟨x, hx, -⟩ := List.mem_flatMap.mp (hsplit ▸ List.mem_append_right before List.mem_cons_self)
    obtain ⟨home, hanswer, hturn⟩ := hinTurn hx
    obtain ⟨hmade, hgranted⟩ := hturn before v after hsplit
    exact ⟨home, hanswer, hmade, hgranted⟩
  · obtain ⟨home, -, hturn⟩ := hinTurn (hsplit ▸ List.mem_append_right before List.mem_cons_self)
    exact connects_for_first hturn hdue hwhole hsplit hconnect

/-- Two records, each of them for an output at home and one elsewhere: the other broker is connected to once. -/
example :
    let arrivals : List Arrival := .replicate 2 ⟨.input 1, "x", .ok (Record.encode (.int 2))⟩
    let calls := ((halving.run Hub.link.transcribed arrivals).last (Session.withTranscript [] { world := {} })).world.2
    calls.filterMap Exchange.broker? = ["near", "far"] ∧ calls.length = 7 := by
  decide +kernel

end Runner

end Pipeworks
