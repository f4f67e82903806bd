import Pipeworks.Proofs.Supervisor.Quiet

/-!
What one step may do to a supervisor, of a monitor and of a call that ends a generation. Most steps change the stage of
the monitor, who holds the lock of the generation, or the processes that are shut down; apart from that, a monitor only
looks for a process that died and reports.
-/

namespace Pipeworks.Supervisor

variable {s s' : Supervisor} {g : Nat}

theorem eq_of_next_later {t t' : Teardown} (h : t.next s = .later t' s') : ∃ ps, s' = { s with processes := ps } := by
  obtain ⟨i, rest, -, ⟨-, -, rfl⟩ | ⟨p, q, -, rfl, -⟩⟩ := Teardown.next_later_cases h
  · exact ⟨s'.processes, rfl⟩
  · exact ⟨_, rfl⟩

/-- A monitor that makes a teardown goes on with it, or with what is to follow when the processes are gone. -/
theorem monitorTeardown_cases {t : Teardown} {stage : Teardown → Monitor} {finish : Supervisor → Supervisor}
    (h : s.monitorTeardown g t stage finish = some s') :
    (∃ ps m, s' = Supervisor.setMonitor { s with processes := ps } g m) ∨ s' = finish s := by
  rw [monitorTeardown] at h
  cases hnext : t.next s with
  | wait =>
      rw [hnext] at h
      cases h
  | later t' s₁ =>
      rw [hnext] at h
      obtain rfl := Option.some.inj h
      obtain ⟨ps, rfl⟩ := eq_of_next_later hnext
      exact .inl ⟨ps, _, rfl⟩
  | finished s₁ =>
      rw [hnext] at h
      obtain rfl := Option.some.inj h
      obtain ⟨rfl, -⟩ := Teardown.next_finished hnext
      exact .inr rfl

/-- All that a step of a monitor may do: it changes its stage, and the processes that it shuts down; it changes its
stage, and takes the lock or gives it back; it looks for a process that died; or it reports when the processes are
gone, that the run failed or that it is complete. -/
theorem stepMonitor_cases {x : Generation} (hx : s.generations[g]? = some x) {timerFirst : Bool}
    (h : s.stepMonitor g timerFirst = some s') :
    (∃ ps m, s' = Supervisor.setMonitor { s with processes := ps } g m) ∨
    (∃ held m, s' = (s.setHeld g held).setMonitor g m) ∨
    (∃ deadline, x.monitor = .checking deadline ∧ s' = s.checkForCrash g x deadline) ∨
    (∃ segment message t, x.monitor = .failing segment message t ∧
      s' = ((s.endMonitor g).ingest (Monitor.crashEvent x.pipeline segment message)).2) ∨
    ∃ t, x.monitor = .endingWorkers t ∧ s' = (s.endMonitor g).reportCompletion x := by
  have hmove (m : Monitor) : ∃ ps m', s.setMonitor g m = Supervisor.setMonitor { s with processes := ps } g m' :=
    ⟨s.processes, m, rfl⟩
  rw [stepMonitor, hx] at h
  cases hmonitor : x.monitor with
  | fresh =>
      simp only [hmonitor] at h
      obtain rfl := Option.some.inj h
      exact .inl (hmove _)
  | sleeping wake deadline =>
      simp only [hmonitor] at h
      split_ifs at h <;> obtain rfl := Option.some.inj h <;> exact .inl (hmove _)
  | checking deadline =>
      simp only [hmonitor] at h
      split_ifs at h
      obtain rfl := Option.some.inj h
      exact .inr (.inr (.inl ⟨deadline, rfl, rfl⟩))
  | failing segment message t =>
      simp only [hmonitor] at h
      obtain hgoes | rfl := monitorTeardown_cases h
      · exact .inl hgoes
      · exact .inr (.inr (.inr (.inl ⟨segment, message, t, rfl, rfl⟩)))
  | completing =>
      simp only [hmonitor] at h
      split_ifs at h
      obtain rfl := Option.some.inj h
      exact .inr (.inl ⟨true, _, rfl⟩)
  | endingProducers t =>
      simp only [hmonitor] at h
      obtain hgoes | rfl := monitorTeardown_cases h
      · exact .inl hgoes
      · exact .inl (hmove _)
  | draining limit =>
      simp only [hmonitor] at h
      split_ifs at h <;> obtain rfl := Option.some.inj h
      · exact .inr (.inl ⟨false, .ended, rfl⟩)
      · exact .inl (hmove _)
  | endingWorkers t =>
      simp only [hmonitor] at h
      obtain hgoes | rfl := monitorTeardown_cases h
      · exact .inl hgoes
      · exact .inr (.inr (.inr (.inr ⟨t, rfl, rfl⟩)))
  | ended => simp [hmonitor] at h
  | broken => simp [hmonitor] at h

/-- All that a step of the end of a generation may do: it changes processes, or who holds the lock of the generation. -/
theorem stepTakedown_cases {t : Takedown} {t' : Option Takedown} (h : s.stepTakedown g t = some (t', s')) :
    (∃ ps, s' = { s with processes := ps }) ∨ ∃ held, s' = s.setHeld g held := by
  rw [stepTakedown] at h
  cases hx : s.generations[g]? with
  | none =>
      rw [hx] at h
      obtain ⟨-, rfl⟩ := Prod.mk.inj (Option.some.inj h)
      exact .inl ⟨s.processes, rfl⟩
  | some x =>
      rw [hx] at h
      cases t with
      | joining =>
          dsimp only at h
          split_ifs at h
          obtain ⟨-, rfl⟩ := Prod.mk.inj (Option.some.inj h)
          exact .inl ⟨s.processes, rfl⟩
      | claiming =>
          dsimp only at h
          split_ifs at h
          obtain ⟨-, rfl⟩ := Prod.mk.inj (Option.some.inj h)
          exact .inr ⟨true, rfl⟩
      | stopping t =>
          cases hnext : t.next s with
          | wait => simp [hnext] at h
          | later t₁ s₁ =>
              simp only [hnext, Option.some.injEq, Prod.mk.injEq] at h
              obtain ⟨-, rfl⟩ := h
              exact .inl (eq_of_next_later hnext)
          | finished s₁ =>
              simp only [hnext, Option.some.injEq, Prod.mk.injEq] at h
              obtain ⟨-, rfl⟩ := h
              obtain ⟨rfl, -⟩ := Teardown.next_finished hnext
              exact .inr ⟨false, rfl⟩

end Pipeworks.Supervisor
