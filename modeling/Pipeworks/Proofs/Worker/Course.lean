import Pipeworks.Proofs.Worker.Round

/-!
The course of a whole run. The cluster connects to its broker and subscribes, and then rounds are made for the items
that the work gets to, one after another; each of them has ended well but the last one.
-/

namespace Pipeworks

open Link (Transcript)

variable {σ κ α β : Type}

/-! ### How far work gets -/

/-- The items that work on a list gets to: all of them, or those up to the first one with which it comes to an error. -/
structure Work.GetsTo (work : List α → Work σ κ β) (s : Session σ κ) (items taken : List α) : Prop where
  isPrefix : taken <+: items
  onward : ∀ before, before <+: taken → before ≠ taken → Work.error? (work before) s = none
  stopped : taken ≠ items → (Work.error? (work taken) s).isSome

namespace Work.GetsTo

/-- How far work gets depends on nothing but where it comes to an error. -/
theorem congr {work work' : List α → Work σ κ β} {s s' : Session σ κ} {items taken : List α}
    (h : GetsTo work s items taken) (heq : ∀ xs, error? (work' xs) s' = error? (work xs) s) :
    GetsTo work' s' items taken :=
  ⟨h.isPrefix, fun before hbefore hne => (heq before).trans (h.onward before hbefore hne),
    fun hne => (heq taken) ▸ h.stopped hne⟩

/-- There is only one answer to how far work gets. -/
theorem unique {work : List α → Work σ κ β} {s : Session σ κ} {items taken taken' : List α}
    (h : GetsTo work s items taken) (h' : GetsTo work s items taken') : taken = taken' := by
  have hshorter {xs ys : List α} (hxs : GetsTo work s items xs) (hys : GetsTo work s items ys) (hle : xs <+: ys) :
      xs = ys := by
    by_contra hne
    have hfine := hys.onward xs hle hne
    have hmore : xs ≠ items := fun heq => hne (hle.eq_of_length_le (heq ▸ hys.isPrefix.length_le))
    simpa [hfine] using hxs.stopped hmore
  obtain hle | hle := List.prefix_or_prefix_of_prefix h.isPrefix h'.isPrefix
  · exact hshorter h h' hle
  · exact (hshorter h' h hle).symm

theorem nil {work : List α → Work σ κ β} {s : Session σ κ} {items : List α}
    (h : (error? (work []) s).isSome) : GetsTo work s items [] :=
  ⟨List.nil_prefix, fun _ hbefore hne => absurd (List.prefix_nil.mp hbefore) hne, fun _ => h⟩

variable {f : α → Work σ κ PUnit} {x : α} {xs ys : List α} {s t : Session σ κ}

theorem error?_eq_none_of_prefix (hrun : error? (xs.forM f) s = none) (hle : ys <+: xs) :
    error? (ys.forM f) s = none := by
  obtain ⟨zs, rfl⟩ := hle
  rw [forM_append] at hrun
  rw [error?]
  cases hfirst : ys.forM f s with
  | ok u t => rfl
  | error e t =>
      rw [error?, bind_of_error hfirst] at hrun
      cases hrun

theorem whole (hrun : error? (xs.forM f) s = none) : GetsTo (fun items => items.forM f) s xs xs :=
  ⟨List.prefix_rfl, fun _ hbefore _ => error?_eq_none_of_prefix hrun hbefore, fun hne => absurd rfl hne⟩

theorem failed {e : Error} (hrun : xs.forM f s = .ok ⟨⟩ t) (hlast : error? (f x) t = some e) :
    GetsTo (fun items => items.forM f) s (xs ++ x :: ys) (xs ++ [x]) := by
  refine ⟨⟨ys, by rw [List.append_assoc, List.singleton_append]⟩, fun before hbefore hne => ?_, fun _ => ?_⟩
  · obtain rfl | hle := List.prefix_concat_iff.mp hbefore
    · exact absurd rfl hne
    · exact error?_eq_none_of_prefix (by rw [error?, hrun]) hle
  · rw [forM_concat, error?_bind_of_ok hrun, hlast]
    rfl

end Work.GetsTo

/-! ### Runs -/

namespace Runner

variable {link : Link σ κ} {r : Runner} {s : Session σ κ} {load : String → Step}

/-- The course of a run from a session with some bridges: the answer of the broker of the cluster, the subscriptions,
and the rounds that were made. -/
structure Course (r : Runner) (bridges : List (String × κ)) (answer : Except Error κ) (subscriptions : Transcript κ)
    (rounds : List (Arrival × List (Trip κ))) (account : Account κ) : Prop where
  subscribes : r.Subscribes answer subscriptions
  calls : account.calls = .connect r.cluster.broker answer ::
    (subscriptions ++ Visit.allCalls (rounds.flatMap fun x => x.2.map (Trip.visit r.cluster.broker)))
  actions : account.actions = .connected r.cluster.broker ::
    rounds.flatMap fun x => r.receipt x.1 ++ x.2.flatMap (Trip.actions r)
  inTurn : rounds ≠ [] → ∃ home, answer = .ok home ∧
    Visit.InTurn r.cluster.broker home bridges (rounds.flatMap fun x => x.2.map (Trip.visit r.cluster.broker))
  ends : ∀ x ∈ rounds, ∃ fault, (r.agenda x.1).Ends x.2 fault
  onward : ∀ before x after, rounds = before ++ x :: after → ∀ y ∈ before, (r.agenda y.1).Ends y.2 none

namespace Course

variable {bridges : List (String × κ)} {answer : Except Error κ} {subscriptions : Transcript κ}

theorem refused (h : r.Subscribes answer subscriptions) :
    r.Course bridges answer subscriptions []
      { calls := .connect r.cluster.broker answer :: subscriptions, actions := [.connected r.cluster.broker] } where
  subscribes := h
  calls := congrArg _ (List.append_nil _).symm
  actions := rfl
  inTurn hne := absurd rfl hne
  ends := by simp
  onward := by simp

theorem attached {home : κ} {rounds : List (Arrival × List (Trip κ))} {account : Account κ}
    (h : r.Subscribes (.ok home) subscriptions) (hrounds : r.Rounds home bridges rounds account)
    (hends : ∀ x ∈ rounds, ∃ fault, (r.agenda x.1).Ends x.2 fault)
    (honward : ∀ before x after, rounds = before ++ x :: after → ∀ y ∈ before, (r.agenda y.1).Ends y.2 none) :
    r.Course bridges (.ok home) subscriptions rounds
      ({ calls := .connect r.cluster.broker (.ok home) :: subscriptions,
         actions := [.connected r.cluster.broker] } ++ account) where
  subscribes := h
  calls := by rw [Account.calls_append, hrounds.visits.calls, List.cons_append]
  actions := by rw [Account.actions_append, hrounds.actions, List.singleton_append]
  inTurn _ := ⟨home, rfl, hrounds.visits.inTurn⟩
  ends := hends
  onward := honward

end Course

/-- Every run has its course, whether it ends well or not. -/
theorem run_course (htopology : r.topology = Topology.build load r.cluster) (link : Link σ κ)
    (arrivals : List Arrival) (s : Session σ κ) :
    ∃ answer subscriptions rounds account,
      (∀ t, r.run link.transcribed arrivals (s.withTranscript t) =
        Work.withTranscript (t ++ account.calls) (r.run link arrivals s)) ∧
      s.Goes link account ((r.run link arrivals).last s) ∧ r.Course s.bridges answer subscriptions rounds account ∧
      Work.GetsTo (fun items => r.run link items) s arrivals (rounds.map (·.1)) := by
  suffices h : Work.Does link (r.run link arrivals) (r.run link.transcribed arrivals) s
      (fun _ account => ∃ answer subscriptions rounds, r.Course s.bridges answer subscriptions rounds account ∧
        Work.GetsTo (fun items => r.run link items) s arrivals (rounds.map (·.1)))
      fun _ account => ∃ answer subscriptions rounds, r.Course s.bridges answer subscriptions rounds account ∧
        Work.GetsTo (fun items => r.run link items) s arrivals (rounds.map (·.1)) by
    obtain ⟨account, hrecorded, hgoes, answer, subscriptions, rounds, hcourse, hgets⟩ := h.of_last
    exact ⟨answer, subscriptions, rounds, account, hrecorded, hgoes, hcourse, hgets⟩
  refine (does_attach.with_error?.mono (fun _ _ h => h.2) fun e account hfailed => ?_).bind
    fun home account t hattach hgoes hattached => ?_
  · obtain ⟨hrefused, answer, subscriptions, rfl, hsubscribes, -⟩ := hfailed
    refine ⟨answer, subscriptions, [], .refused hsubscribes, .nil ?_⟩
    rw [run, Work.error?, Work.bind_of_error (Work.eq_error hrefused)]
    rfl
  · obtain ⟨subscriptions, rfl, hsubscribes⟩ := hattached
    have hbridges : t.bridges = s.bridges := hgoes.bridges.trans (List.append_nil _)
    have hgets {items taken : List Arrival}
        (h : Work.GetsTo (fun items => items.forM (r.accept link home)) t items taken) :
        Work.GetsTo (fun items => r.run link items) s items taken := by
      refine h.congr fun items => ?_
      rw [run, Work.error?_bind_of_ok hattach]
    refine (does_items htopology arrivals).with_error?.mono (fun _ more hdone => ?_) fun e more hfailed => ?_
    · obtain ⟨hrun, rounds, rfl, hrounds, hends⟩ := hdone
      refine ⟨.ok home, subscriptions, rounds, .attached hsubscribes (hbridges ▸ hrounds)
        (fun x hx => ⟨none, hends x hx⟩) fun before x after hsplit y hy => ?_, hgets (.whole hrun)⟩
      exact hends y (hsplit ▸ List.mem_append_left _ hy)
    · obtain ⟨-, done, a, rest, u, rfl, hrun, hlast, rounds, trips, text, -, rfl, hrounds, hends, hend⟩ := hfailed
      refine ⟨.ok home, subscriptions, rounds ++ [(a, trips)], .attached hsubscribes (hbridges ▸ hrounds) ?_
        fun before x after hsplit y hy => ?_, ?_⟩
      · exact List.forall_mem_append.mpr
          ⟨fun x hx => ⟨none, hends x hx⟩, List.forall_mem_singleton.mpr ⟨some text, hend⟩⟩
      · have hearlier : rounds = before ++ (x :: after).dropLast := by
          rw [← List.dropLast_append_cons, ← hsplit, List.dropLast_concat]
        exact hends y (hearlier ▸ List.mem_append_left _ hy)
      · rw [List.map_append, List.map_singleton]
        exact hgets (.failed hrun hlast)

end Runner

end Pipeworks
