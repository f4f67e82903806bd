import Pipeworks.Proofs.Supervisor.ThreadOwnership
import Pipeworks.Proofs.Supervisor.Deaths

/-!
Deaths that stay unexpected. Whoever asks a process to stop looks at it first, and leaves it at that if it has ended.
So only the living are asked, and a process that has died without having been asked to stop is told from the others
ever after, whatever is done to its run.
-/

namespace Pipeworks

namespace Subprocess

variable {now : Moment} {p : Subprocess}

theorem alive_of_requestStop (h : (p.requestStop now).stopRequested = true) :
    p.stopRequested = true ∨ p.child.status? now = none := by
  rw [requestStop] at h
  dsimp only [poll] at h
  split_ifs at h with hnone
  · exact .inr (Option.or_eq_none_iff.mp (Option.isNone_iff_eq_none.mp hnone)).2
  · exact .inl h

theorem alive_of_terminate (h : (p.terminate now).stopRequested = true) :
    p.stopRequested = true ∨ p.child.status? now = none := alive_of_requestStop h

theorem alive_of_kill (h : (p.kill now).stopRequested = true) :
    p.stopRequested = true ∨ p.child.status? now = none := alive_of_requestStop h

end Subprocess

namespace Shutdown

variable {grace : Duration} {now : Moment} {stage stage' : Shutdown} {p q : Subprocess}

theorem alive_of_next_later (h : stage.next grace now p = .later stage' q) (hq : q.stopRequested = true) :
    p.stopRequested = true ∨ p.child.status? now = none := by
  unfold next at h
  split at h
  · cases h
  · split_ifs at h
    cases stage with
    | asked limit =>
        obtain ⟨-, rfl⟩ := Shutdown.Next.later.inj h
        exact Subprocess.alive_of_kill hq
    | killed limit => cases h

theorem stopRequested_of_next_done {status : Option ExitStatus} (h : stage.next grace now p = .done status q) :
    q.stopRequested = p.stopRequested := by
  unfold next at h
  split at h
  · rename_i e p' hpoll
    obtain ⟨-, rfl⟩ := Shutdown.Next.done.inj h
    rw [Subprocess.poll] at hpoll
    rw [← (Prod.mk.inj hpoll).2]
  · split_ifs at h
    cases stage with
    | asked limit => cases h
    | killed limit =>
        obtain ⟨-, rfl⟩ := Shutdown.Next.done.inj h
        rfl

end Shutdown

namespace Supervisor

variable {s s' s'' : Supervisor} {g i : Nat} {x : Generation} {status : ExitStatus}

def AsksLiving (s s' : Supervisor) : Prop := ∀ i, s'.Asked i → s.Asked i ∨ s.Alive i

theorem AsksLiving.of_requests (h : s'.requests = s.requests) : s.AsksLiving s' := by
  intro i hi
  rw [Asked, h] at hi
  exact .inl hi

theorem AsksLiving.congr (h : s.AsksLiving s') (hsame : s''.requests = s'.requests) : s.AsksLiving s'' := by
  intro i hi
  rw [Asked, hsame] at hi
  exact h i hi

theorem AsksLiving.of_set {p q : Subprocess} (hp : s.processes[i]? = some p)
    (hq : q.stopRequested = true → p.stopRequested = true ∨ p.child.status? s.now = none) :
    s.AsksLiving { s with processes := s.processes.set i q } := by
  intro j hj
  rw [Asked, requests, List.map_set, List.getElem?_set] at hj
  split_ifs at hj with hij hlt
  · subst hij
    refine (hq (Option.some.inj hj)).imp (fun hasked => ?_) fun halive => ⟨p, hp, halive⟩
    rw [Asked, requests, List.getElem?_map, hp, Option.map_some, hasked]
  · exact .inl hj

theorem AsksLiving.of_append {ps : List Subprocess} (hps : s'.processes = s.processes ++ ps)
    (hunasked : ∀ p ∈ ps, p.stopRequested = false) : s.AsksLiving s' := by
  intro i hi
  rw [Asked, requests, hps, List.map_append, List.getElem?_append] at hi
  split_ifs at hi
  · exact .inl hi
  · obtain ⟨p, hp, hasked⟩ := Option.map_eq_some_iff.mp (List.getElem?_map .. ▸ hi)
    rw [hunasked p (List.mem_of_getElem? hp)] at hasked
    cases hasked

theorem asksLiving_of_next_later {t t' : Teardown} (h : t.next s = .later t' s') : s.AsksLiving s' := by
  obtain ⟨_ | ⟨i, rest⟩, current⟩ := t
  · simp [Teardown.next] at h
  cases hp : s.processes[i]? with
  | none =>
      simp only [Teardown.next, hp] at h
      obtain ⟨-, rfl⟩ := Teardown.Next.later.inj h
      exact .of_requests rfl
  | some p =>
      cases current with
      | none =>
          simp only [Teardown.next, hp] at h
          obtain ⟨-, rfl⟩ := Teardown.Next.later.inj h
          exact .of_set hp Subprocess.alive_of_terminate
      | some stage =>
          simp only [Teardown.next, hp] at h
          cases hstage : stage.next s.config.gracePeriod s.now p with
          | wait => simp [hstage] at h
          | later stage' q =>
              simp only [hstage] at h
              obtain ⟨-, rfl⟩ := Teardown.Next.later.inj h
              exact .of_set hp (Shutdown.alive_of_next_later hstage)
          | done status q =>
              simp only [hstage] at h
              obtain ⟨-, rfl⟩ := Teardown.Next.later.inj h
              exact .of_set hp fun hq => .inl (Shutdown.stopRequested_of_next_done hstage ▸ hq)

theorem asksLiving_stepTakedown {t : Takedown} {t' : Option Takedown} (h : s.stepTakedown g t = some (t', s')) :
    s.AsksLiving s' := by
  obtain ⟨rfl, -⟩ | ⟨x, -, -, rfl⟩ | ⟨u, u', -, hnext, -⟩ | ⟨-, rfl⟩ := stepTakedown_kinds h
  · exact .of_requests rfl
  · exact .of_requests rfl
  · exact asksLiving_of_next_later hnext
  · exact .of_requests rfl

theorem Effect.asksLiving {c : Call} {c' : Option Call} (he : Effect s c s' c') : s.AsksLiving s' := by
  cases he with
  | looks hlooks _ _ _ => exact .of_requests hlooks.requests
  | released hlooks => exact .of_requests hlooks.requests
  | unwound hspawn =>
      obtain ⟨-, ps, -, hps, -, hunasked, -⟩ := spawnAll_members hspawn
      exact .of_append hps hunasked
  | launched _ _ hspawn =>
      obtain ⟨-, ps, -, hps, -, hunasked, -⟩ := spawnAll_members hspawn
      exact .of_append hps hunasked
  | unwinds hnext => exact asksLiving_of_next_later hnext
  | goesOn _ _ _ hstep => exact asksLiving_stepTakedown hstep
  | ended _ hstep _ _ => exact (asksLiving_stepTakedown hstep).congr rfl
  | next hstep => exact (asksLiving_stepTakedown hstep).congr rfl
  | refused | failed | enlisted | taken | takenAll | aborted => exact .of_requests rfl

theorem Tick.asksLiving {m : Monitor} (h : Tick s g x s' m) : s.AsksLiving s' := by
  cases h with
  | finds _ _ _ => exact .of_requests (requests_polled s x)
  | elapses _ _ _ => exact .of_requests (requests_polled s x)
  | sleeps _ _ _ _ => exact .of_requests (requests_polled s x)
  | stops _ hnext => exact (asksLiving_of_next_later hnext).congr rfl
  | completes _ _ => exact .of_requests (congrArg (·.map (·.stopRequested)) (processes_reportCompletion _ x))
  | begins | quits | wakes | claims | fails | drains | leaves | turns => exact .of_requests rfl

theorem Died.later (h : s.Died i status) (hs : s.Honest) (hages : s.Ages s') (hasks : s.AsksLiving s') :
    s'.Died i status := by
  obtain ⟨p, hp, hdied⟩ := h
  have hunasked : p.stopRequested = false := by
    by_contra hasked
    rw [Subprocess.exitedUnexpectedly, if_pos (by simpa using hasked)] at hdied
    cases hdied
  have hhonest := hs p (List.mem_of_getElem? hp)
  have hended : p.child.status? s.now = some status := by
    rw [Subprocess.exitedUnexpectedly, hunasked] at hdied
    rcases Option.or_eq_some_iff.mp hdied with hseen | ⟨-, hended⟩
    · exact hhonest status hseen
    · exact hended
  obtain ⟨q, hq, hlater⟩ := hages.later i p hp
  refine ⟨q, hq, ?_⟩
  have hunasked' : ¬q.stopRequested = true := by
    intro hasked
    have hi : s'.Asked i := by rw [Asked, requests, List.getElem?_map, hq, Option.map_some, hasked]
    rcases hasks i hi with hbefore | ⟨p', hp', halive⟩
    · rw [Asked, requests, List.getElem?_map, hp, Option.map_some, hunasked] at hbefore
      cases hbefore
    · obtain rfl := Option.some.inj (hp.symm.trans hp')
      exact absurd (hended.symm.trans halive) (by simp)
  have hended' := hlater.ended status hended
  rw [Subprocess.exitedUnexpectedly, if_neg hunasked', Subprocess.poll]
  cases hexit : q.exit with
  | none => exact hended'
  | some e => exact (hlater.honest hhonest e hexit).symm.trans hended'

end Supervisor

theorem Thread.Does.asksLiving {env : Surroundings} {s s' : Supervisor} {t t' : Thread} (h : Does env s t t' s') :
    s.AsksLiving s' := by
  cases h with
  | later _ hstep => exact Supervisor.Effect.asksLiving (effect_of_does hstep)
  | answers _ hstep => exact Supervisor.Effect.asksLiving (effect_of_does hstep)
  | joined hstep => exact Supervisor.asksLiving_stepTakedown hstep
  | @concludes id moved =>
      refine .of_requests ?_
      rw [Supervisor.concludeAbort]
      split_ifs <;> rfl
  | alive => exact .of_requests (Supervisor.Looks.anyAlive s _).requests
  | dead => exact .of_requests (Supervisor.Looks.anyAlive s _).requests
  | spawns hspawn =>
      obtain ⟨-, ps, -, hps, -, hunasked, -⟩ := Supervisor.spawnAll_members (Supervisor.spawnAll_of_ok hspawn [])
      exact .of_append hps hunasked
  | breaks hspawn =>
      obtain ⟨-, ps, -, hps, -, hunasked, -⟩ := Supervisor.spawnAll_members (Supervisor.spawnAll_of_error hspawn [])
      exact .of_append hps hunasked
  | unwinds hnext => exact Supervisor.asksLiving_of_next_later hnext
  | _ => exact .of_requests rfl

namespace Threads

variable {x x' : Threads} {m : Move} {i : Nat} {status : ExitStatus}

theorem asksLiving_play (hplay : x.play m = some x') : x.supervisor.AsksLiving x'.supervisor := by
  cases m with
  | ask c =>
      rw [play] at hplay
      split_ifs at hplay
      obtain rfl := Option.some.inj hplay
      exact .of_requests rfl
  | proceed k env =>
      obtain ⟨t, t', -, hstep, -⟩ := proceed_eq_some hplay
      exact (Thread.does_step hstep).asksLiving
  | giveUp k => cases hplay
  | watch g timerFirst =>
      obtain ⟨s, hs, rfl⟩ := Option.map_eq_some_iff.mp hplay
      obtain ⟨y, m, -, htick⟩ := Supervisor.exists_tick hs
      exact htick.asksLiving
  | pass time =>
      obtain rfl := Option.some.inj hplay
      exact .of_requests rfl
  | signal process number =>
      obtain rfl := Option.some.inj hplay
      exact .of_requests (Supervisor.requests_signal _ _ _)
  | ingest e =>
      obtain rfl := Option.some.inj hplay
      exact .of_requests rfl

theorem died_play (hx : x.Owned) (hplay : x.play m = some x') (h : x.supervisor.Died i status) :
    x'.supervisor.Died i status :=
  h.later hx.sound.honest (happens_of_play hplay).ages (asksLiving_play hplay)

end Threads

end Pipeworks
