import Pipeworks.Worker.Basic
import Pipeworks.Proofs.Worker.Course

/-!
The lifecycle events of a worker, whatever its job is and whoever the brokers are. A worker of a cluster announces that
it has started, and any worker that comes to an error announces this at its end; nothing else that it does is
announced.
-/

namespace Pipeworks

open Link (Transcript)

variable {σ κ α : Type}

def Action.announcement? : Action κ → Option Event
  | .emitted e => if e.category = .lifecycle then some e else none
  | _ => none

def Session.announcements (s : Session σ κ) : List Event := s.trace.filterMap Action.announcement?

def Session.emitted (s : Session σ κ) (e : Event) : Session σ κ := { s with trace := s.trace ++ [.emitted e] }

/-! ### What is not announced -/

def Account.Quiet (account : Account κ) : Prop := account.actions.filterMap Action.announcement? = []

theorem Account.Quiet.append {account account' : Account κ} (h : account.Quiet) (h' : account'.Quiet) :
    (account ++ account').Quiet := by
  rw [Quiet, Account.actions_append, List.filterMap_append, h, h', List.append_nil]

theorem Session.Goes.announcements_eq {link : Link σ κ} {account : Account κ} {s t : Session σ κ}
    (h : s.Goes link account t) (hquiet : account.Quiet) : t.announcements = s.announcements := by
  rw [announcements, h.trace, List.filterMap_append, hquiet, List.append_nil, announcements]

namespace Runner

theorem filterMap_reports_announcement? (r : Runner) (kind topic : String) (value : Json) :
    (r.reports kind topic value : List (Action κ)).filterMap Action.announcement? = [] := by
  rw [reports]
  split_ifs <;> rfl

theorem Course.quiet {r : Runner} {bridges : List (String × κ)} {answer : Except Error κ} {subscriptions : Transcript κ}
    {rounds : List (Arrival × List (Trip κ))} {account : Account κ}
    (h : r.Course bridges answer subscriptions rounds account) : account.Quiet := by
  have hreceipt (a : Arrival) : (r.receipt a : List (Action κ)).filterMap Action.announcement? = [] := by
    rw [receipt]
    split
    · exact filterMap_reports_announcement? _ _ _ _
    · rfl
  have hdeeds (d : Dispatch κ) : (d.deeds r).filterMap Action.announcement? = [] :=
    filterMap_reports_announcement? _ _ _ _
  have htrip (trip : Trip κ) : (trip.actions r).filterMap Action.announcement? = [] := by
    rw [Trip.actions, List.filterMap_append, List.filterMap_flatMap]
    simp [hdeeds, Action.announcement?, Function.comp_def]
  rw [Account.Quiet, h.actions, List.filterMap_cons, List.filterMap_flatMap]
  simp [Action.announcement?, hreceipt, htrip, List.filterMap_flatMap]

end Runner

/-- A producer connects and publishes, and announces nothing. -/
theorem Producer.does_run (link : Link σ κ) (p : ProducerSpec) (ticks : Nat) {s : Session σ κ} :
    Work.Does link (run link p ticks) (run link.transcribed p ticks) s (fun _ => Account.Quiet)
      fun _ => Account.Quiet := by
  have hpublish (client : κ) (ticks : List Nat) {s : Session σ κ} :
      Work.Does link (publish link p client ticks) (publish link.transcribed p client ticks) s (fun _ => Account.Quiet)
        fun _ => Account.Quiet := by
    refine (Work.Does.forM link (I := fun _ => Account.Quiet) (F := fun _ _ _ => Account.Quiet) ticks rfl
      fun _ tick _ _ account t _ hquiet => ?_).mono (fun _ _ h => h) fun e account hfailed => ?_
    · refine Work.Does.bind (Q := fun _ more => more.Quiet) (.ask (fun _ _ h => h) (fun _ => rfl) fun _ => hquiet.append rfl)
        fun _ more u _ _ hmore => .note ?_
      exact hquiet.append (hmore.append rfl)
    · obtain ⟨_, _, _, _, -, -, -, hfailed⟩ := hfailed
      exact hfailed
  rw [run, run]
  cases check p.channels p.frequency with
  | error e => exact Work.Does.bind (Q := fun _ => Account.Quiet) (.throw rfl) fun _ _ _ hrun => nomatch hrun
  | ok d =>
      refine Work.Does.bind (Q := fun _ => Account.Quiet) (.pure rfl) fun _ account t _ _ hquiet => ?_
      refine Work.Does.bind (Q := fun _ => Account.Quiet) (.connect (fun _ => rfl) fun _ => hquiet.append rfl)
        fun client more u _ _ hmore => ?_
      exact (hpublish client _).mono (fun _ rest hrest => hquiet.append (hmore.append hrest))
        fun _ rest hrest => hquiet.append (hmore.append hrest)

/-! ### What is announced -/

namespace Worker

def greeting (s : WorkerSpec) : List Event :=
  match s.role with
  | .cluster c => [started s c]
  | .producer _ => []

def reported (spec : WorkerSpec) : EStateM.Result Error (Session σ κ) α → EStateM.Result Error (Session σ κ) α
  | .ok a s => .ok a s
  | .error e s => .error e (s.emitted (failed spec e))

theorem reporting_apply (spec : WorkerSpec) (work : Work σ κ α) (s : Session σ κ) :
    reporting spec work s = reported spec (work s) := by
  change EStateM.tryCatch work _ s = _
  rw [EStateM.tryCatch]
  cases work s <;> rfl

theorem announcements_reporting (spec : WorkerSpec) {work : Work σ κ α} {s : Session σ κ} {es : List Event}
    (h : (work.last s).announcements = s.announcements ++ es) :
    (Work.last (reporting spec work) s).announcements =
      s.announcements ++ es ++ ((Work.error? (reporting spec work) s).map (failed spec)).toList := by
  rw [Work.last] at h
  rw [Work.last, Work.error?, reporting_apply]
  cases hrun : work s with
  | ok a s' =>
      rw [hrun] at h
      dsimp only [reported]
      rw [Option.map_none, Option.toList_none, List.append_nil]
      exact h
  | error e s' =>
      rw [hrun] at h
      change (s'.trace ++ [Action.emitted (failed spec e)]).filterMap Action.announcement? = _
      rw [List.filterMap_append, ← h]
      rfl

/-- The lifecycle events of a worker, in order: that it has started, if it has a cluster to work on, and that it
failed, with the error to which it came, if it came to one. -/
theorem announcements_run (link : Link σ κ) (spec : WorkerSpec) (arrivals : List Arrival) (ticks : Nat)
    (s : Session σ κ) :
    (Work.last (run link spec arrivals ticks) s).announcements =
      s.announcements ++ greeting spec ++
        ((Work.error? (run link spec arrivals ticks) s).map (failed spec)).toList := by
  refine announcements_reporting spec ?_
  rw [greeting]
  cases spec.role with
  | cluster c =>
      have htopology : (runner spec c).topology = Topology.build (Step.ofScript · spec.budget) c := rfl
      obtain ⟨_, _, _, account, -, hgoes, hcourse, -⟩ :=
        Runner.run_course htopology link arrivals (s.emitted (started spec c))
      have hlast := hgoes.announcements_eq hcourse.quiet
      rw [show (s.emitted (started spec c)).announcements = s.announcements ++ [started spec c] from
        List.filterMap_append] at hlast
      exact (congrArg Session.announcements (Work.last_bind_of_ok rfl)).trans hlast
  | producer p =>
      obtain ⟨account, -, hgoes, hquiet⟩ := (Producer.does_run link p ticks (s := s)).of_last
      exact (hgoes.announcements_eq hquiet).trans (List.append_nil _).symm

/-- A lifecycle event that the worker of a job sends in some run. -/
def Sends (spec : WorkerSpec) (e : Event) : Prop :=
  ∃ (σ κ : Type) (link : Link σ κ) (arrivals : List Arrival) (ticks : Nat) (w : σ),
    e ∈ (Work.last (run link spec arrivals ticks) { world := w }).announcements

variable {link : Link σ κ} {spec : WorkerSpec} {arrivals : List Arrival} {ticks : Nat} {w : σ}

theorem sends_failed {e : Error} (h : Work.error? (run link spec arrivals ticks) { world := w } = some e) :
    Sends spec (failed spec e) := by
  refine ⟨σ, κ, link, arrivals, ticks, w, ?_⟩
  rw [announcements_run, h]
  exact List.mem_append_right _ List.mem_cons_self

/-- A worker sends nothing but that it has started and that it failed. -/
theorem Sends.cases {e : Event} (h : Sends spec e) :
    (∃ c, spec.role = .cluster c ∧ e = started spec c) ∨ ∃ err, e = failed spec err := by
  obtain ⟨σ, κ, link, arrivals, ticks, w, he⟩ := h
  rw [announcements_run, List.mem_append, List.mem_append] at he
  rcases he with (he | he) | he
  · exact absurd he List.not_mem_nil
  · rw [greeting] at he
    cases hrole : spec.role with
    | cluster c =>
        rw [hrole] at he
        exact .inl ⟨c, rfl, List.mem_singleton.mp he⟩
    | producer p =>
        rw [hrole] at he
        exact absurd he List.not_mem_nil
  · obtain ⟨err, -, rfl⟩ := Option.map_eq_some_iff.mp (Option.mem_toList.mp he)
    exact .inr ⟨err, rfl⟩

end Worker

end Pipeworks
