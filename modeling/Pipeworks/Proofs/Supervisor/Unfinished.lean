import Pipeworks.Proofs.Supervisor.History
import Pipeworks.Proofs.Supervisor.Watch

/-!
Runs that nobody watches over. A run that has not ended is in good hands as long as a generation is active for its
pipeline, or a call is about to enter one, or a stop or a shutdown is to end it. Two sorts of steps let it drop: a start
is refused after it has taken the generation of its pipeline out of the active ones, because all its processes were
gone, and an abort takes out a generation that was made after it had aborted the run. But for them, a run that has not
ended has a generation whose monitor nobody has cancelled and that has not ended either, when no call is under way.
-/

namespace Pipeworks

/-- The pipelines whose runs the call has in its hands: those of a start that is to make a generation or to enter one,
and those that a stop or a shutdown is to end. An abort does not end a run when it ends its generation. -/
def Call.kept (c : Call) : List PipelineId :=
  match c.stake with
  | .cleared id => [id]
  | .unwinding id _ => [id]
  | .enlisting id _ => [id]
  | .ending runs => if c.farewell?.isSome then runs.map (·.1) else []
  | _ => []

namespace Call

variable {c : Call} {id : PipelineId}

theorem mem_kept_of_cleared (h : c.stake = .cleared id) : id ∈ c.kept := by
  rw [kept, h]
  exact List.mem_cons_self

/-- A call that has neither generations nor processes in its hands has those runs whose pipelines it found idle. -/
theorem stake_of_mem_kept (hfree : c.stake.IsFree) (hid : id ∈ c.kept) : c.stake = .cleared id := by
  rw [kept] at hid
  split at hid
  · rename_i id' hstake
    rw [hstake, List.mem_singleton.mp hid]
  · rename_i id' t hstake
    rw [hstake] at hfree
    exact hfree.elim
  · rename_i id' g hstake
    rw [hstake] at hfree
    exact hfree.elim
  · rename_i runs hstake
    rw [hstake] at hfree
    exact hfree.elim
  · exact absurd hid List.not_mem_nil

end Call

namespace Supervisor

variable {s s' : Supervisor} {c : Call} {c' : Option Call} {id : PipelineId} {g : Nat}

def Unfinished (s : Supervisor) (id : PipelineId) : Prop :=
  ∃ r, s.registry.get? id = some r ∧ r.status.isTerminal = false

theorem Unfinished.before (h : s'.Unfinished id)
    (hrecord : ∃ ts, s'.registry.get? id = (s.registry.get? id).map (·.after ts)) : s.Unfinished id := by
  obtain ⟨r', hr', hopen⟩ := h
  obtain ⟨ts, hts⟩ := hrecord
  rw [hr'] at hts
  obtain ⟨r, hr, rfl⟩ := Option.map_eq_some_iff.mp hts.symm
  refine ⟨r, hr, Bool.eq_false_iff.mpr fun hterminal => ?_⟩
  rw [RunState.isTerminal_after hterminal] at hopen
  cases hopen

theorem not_unfinished_of_ends {t : Transition} {r : Registry} (hends : t.ends = true) (hne : t ≠ .countSegment)
    (h : r.Turns id [t] s'.registry) : ¬s'.Unfinished id := by
  rintro ⟨r', hr', hopen⟩
  rw [h.own] at hr'
  obtain ⟨r, -, rfl⟩ := Option.map_eq_some_iff.mp hr'
  rw [RunState.isTerminal_after_of_ends hends hne] at hopen
  cases hopen

def engaged (s : Supervisor) : List PipelineId := s.active.map (·.1)

theorem mem_engaged_deactivate {id' : PipelineId} : id ∈ (s.deactivate id').engaged ↔ id ∈ s.engaged ∧ id ≠ id' := by
  simp only [engaged, deactivate, List.mem_map, List.mem_filter, decide_eq_true_eq]
  constructor
  · rintro ⟨run, ⟨hrun, hne⟩, rfl⟩
    exact ⟨⟨run, hrun, rfl⟩, hne⟩
  · rintro ⟨⟨run, hrun, rfl⟩, hne⟩
    exact ⟨run, ⟨hrun, hne⟩, rfl⟩

theorem engaged_stepTakedown {t : Takedown} {t' : Option Takedown} (h : s.stepTakedown g t = some (t', s')) :
    s'.engaged = s.engaged := by
  rw [engaged, (flags_stepTakedown h).2, engaged]

/-- A step of a call lets a run drop: it is the refusal of a start that had found its pipeline idle, or an abort that
takes out the generation of its pipeline. -/
inductive LetsDrop (id : PipelineId) : Call → Option Call → Prop where
  | refused {c : Call} : c.stake = .cleared id → LetsDrop id c none
  | taken {moved : Bool} {g : Nat} :
      LetsDrop id (.abort id (.marked moved)) (some (.abort id (.ending moved g .joining)))

/-- A run that has not ended after a step of a call stays in the hands in which it was, or goes from them to others,
unless the step lets it drop. -/
theorem Effect.kept (he : Effect s c s' c') (hopen : s'.Unfinished id) (hkept : id ∈ s.engaged ∨ id ∈ c.kept) :
    (id ∈ s'.engaged ∨ ∃ d ∈ c', id ∈ d.kept) ∨ LetsDrop id c c' := by
  -- the call keeps what it had in its hands
  have hkeeps {s' : Supervisor} {c d : Call} (hactive : s'.active = s.active) (hsub : c.kept ⊆ d.kept)
      (h : id ∈ s.engaged ∨ id ∈ c.kept) : id ∈ s'.engaged ∨ ∃ d' ∈ some d, id ∈ d'.kept := by
    rw [engaged, hactive]
    exact h.imp_right fun hid => ⟨d, rfl, hsub hid⟩
  -- the call takes over a pipeline that is not active any more
  have htakes {s₁ : Supervisor} {id' : PipelineId} {d : Call} (hactive : s₁.active = s.active) (hd : id' ∈ d.kept)
      (h : id ∈ s.engaged) : id ∈ (s₁.deactivate id').engaged ∨ ∃ d' ∈ some d, id ∈ d'.kept := by
    by_cases hid : id = id'
    · exact .inr ⟨d, rfl, hid ▸ hd⟩
    · refine .inl (mem_engaged_deactivate.mpr ⟨?_, hid⟩)
      rwa [engaged, hactive]
  cases he with
  | looks hlooks hfree _ hcleared =>
      refine .inl ?_
      rw [engaged, hlooks.active]
      refine hkept.imp_right fun hid => ?_
      have hleft := hcleared id (Call.stake_of_mem_kept hfree hid)
      cases c' with
      | none => cases hleft
      | some d => exact ⟨d, rfl, Call.mem_kept_of_cleared hleft⟩
  | @refused id' o stage hstake =>
      rcases hkept with hactive | hid
      · exact .inl (.inl hactive)
      · -- the start gives the run back to nobody
        exact .inr (.refused (Call.stake_of_mem_kept (by rw [hstake]; trivial) hid))
  | released hlooks => exact .inl (htakes hlooks.active List.mem_cons_self (hkept.resolve_right List.not_mem_nil))
  | unwound hspawn => exact .inl (hkeeps (spawnAll_spec hspawn).1.active (List.Subset.refl _) hkept)
  | launched _ _ hspawn =>
      have hactive := (spawnAll_spec hspawn).1.active
      exact .inl (hkeeps hactive (List.Subset.refl _) hkept)
  | unwinds hnext =>
      obtain ⟨ps, rfl⟩ := eq_of_next_later hnext
      exact .inl (hkeeps rfl (List.Subset.refl _) hkept)
  | @failed id' _ _ _ message _ =>
      rcases hkept with hactive | hid
      · exact .inl (.inl hactive)
      · obtain rfl := List.mem_singleton.mp hid
        exact absurd hopen (not_unfinished_of_ends rfl (by simp) (.call (.fail message) s.registry id))
  | @enlisted id' o g r _ =>
      refine .inl (.inl ?_)
      by_cases hid : id = id'
      · exact List.mem_map.mpr ⟨(id', g), List.mem_append_right _ List.mem_cons_self, hid.symm⟩
      · have hactive := hkept.resolve_right fun hmem => hid (List.mem_singleton.mp hmem)
        obtain ⟨run, hrun, rfl⟩ := List.mem_map.mp hactive
        refine List.mem_map.mpr ⟨run, List.mem_append_left _ (List.mem_filter.mpr ⟨hrun, ?_⟩), rfl⟩
        exact decide_eq_true hid
  | @taken id' g c d _ _ hcalls =>
      obtain ⟨rfl, rfl⟩ | ⟨moved, rfl, rfl⟩ := hcalls
      · exact .inl (htakes rfl List.mem_cons_self (hkept.resolve_right List.not_mem_nil))
      · -- an abort does not end the run of the generation that it takes out
        have hactive := hkept.resolve_right List.not_mem_nil
        by_cases hid : id = id'
        · exact hid ▸ .inr .taken
        · exact .inl (.inl (mem_engaged_deactivate.mpr ⟨hactive, hid⟩))
  | @takenAll id' g rest _ hactive =>
      refine .inl (.inr ⟨_, rfl, ?_⟩)
      have hengaged := hkept.resolve_right List.not_mem_nil
      rw [engaged, hactive] at hengaged
      simpa [Call.kept, Call.stake, Call.farewell?] using hengaged
  | aborted => exact .inl (.inl (hkept.resolve_right List.not_mem_nil))
  | @goesOn c d id' g t t' runs s' hstake hstake' hfarewell hstep =>
      refine .inl (hkeeps (flags_stepTakedown hstep).2 (fun id hid => ?_) hkept)
      rw [Call.kept, hstake] at hid
      rw [Call.kept, hstake', hfarewell]
      exact hid
  | @ended c id' g t s₁ bus hstake hstep hmessage hnone =>
      rcases hkept with hengaged | hid
      · have hsame : s₁.engaged = s.engaged := engaged_stepTakedown hstep
        exact .inl (.inl (hsame ▸ hengaged))
      · rw [Call.kept, hstake] at hid
        cases hfarewell : c.farewell? with
        | none => simp [hfarewell] at hid
        | some message =>
            -- the call takes its leave of the run by aborting it
            obtain rfl : id = id' := by simpa [hfarewell] using hid
            have hturn : s₁.registry.Turns id [.abort message] bus.registry := by
              rw [hmessage message hfarewell]
              exact .call (.abort message) s₁.registry id
            exact absurd hopen (not_unfinished_of_ends rfl (by simp) hturn)
  | @next id' id'' g g' rest t s₁ hstep =>
      rcases hkept with hengaged | hid
      · have hsame : s₁.engaged = s.engaged := engaged_stepTakedown hstep
        exact .inl (.inl (hsame ▸ hengaged))
      · rcases List.mem_cons.mp hid with rfl | hid
        · have hturn := Registry.Turns.call (.abort "Supervisor shut down") s₁.registry id
          exact absurd hopen (not_unfinished_of_ends rfl (by simp) hturn)
        · refine .inl (.inr ⟨_, rfl, ?_⟩)
          exact hid

/-- A start that found its pipeline idle is refused if it comes to an answer by its next step. -/
theorem refused_of_answer {env : Surroundings} {a : Answer} (hstake : c.stake = .cleared id)
    (h : s.step env c = .answer a s') : ∃ o stage e, c = .start id o stage ∧ a = .started (.error e) := by
  unfold Call.stake at hstake
  split at hstake <;> cases hstake
  · rename_i o
    rw [step, stepStart] at h
    split at h
    · rename_i e _
      obtain ⟨rfl, -⟩ := Call.Next.answer.inj h
      exact ⟨o, _, e, rfl, rfl⟩
    · cases h
  · rename_i o graph
    rw [step, stepStart, validateAndLaunch] at h
    split at h
    · rename_i e _
      obtain ⟨rfl, -⟩ := Call.Next.answer.inj h
      exact ⟨o, _, e, rfl, rfl⟩
    · split at h
      · rename_i e _
        obtain ⟨rfl, -⟩ := Call.Next.answer.inj h
        exact ⟨o, _, e, rfl, rfl⟩
      · rw [launch] at h
        dsimp only at h
        split at h <;> cases h

end Supervisor

namespace Scene

variable {config : Config} {x x' : Scene} {m : Move} {id : PipelineId}

def Kept (x : Scene) (id : PipelineId) : Prop := id ∈ x.supervisor.engaged ∨ ∃ c ∈ x.calls, id ∈ c.kept

theorem unfinished_before (hm : m.isPatient = true) (hplay : x.play m = some x')
    (hopen : x'.supervisor.Unfinished id) : x.supervisor.Unfinished id ∨ x.Kept id := by
  rcases record_play hm hplay id with hrecord | ⟨c, hc, hcleared, -⟩
  · exact .inl (hopen.before hrecord)
  · exact .inr (.inr ⟨c, hc, Call.mem_kept_of_cleared hcleared⟩)

/-- Moves that may let a run drop: the refusal of a start of its pipeline, and the step in which an abort takes out the
generation of its pipeline after it has aborted the run, or found it ended. -/
inductive Forsakes (x : Scene) (id : PipelineId) (x' : Scene) : Move → Prop where
  | refused {k : Nat} {env : Surroundings} {o : StartOptions} {stage : StartStage} {e : Error} :
      x.calls[k]? = some (.start id o stage) →
      x.supervisor.step env (.start id o stage) = .answer (.started (.error e)) x'.supervisor →
      Forsakes x id x' (.proceed k env)
  | aborted {k : Nat} {env : Surroundings} {moved : Bool} : x.calls[k]? = some (.abort id (.marked moved)) →
      Forsakes x id x' (.proceed k env)

theorem Kept.play (h : x.Kept id) (hm : m.isPatient = true) (hplay : x.play m = some x')
    (hopen : x'.supervisor.Unfinished id) : x'.Kept id ∨ x.Forsakes id x' m := by
  cases m with
  | ask c =>
      rw [Scene.play] at hplay
      split_ifs at hplay
      obtain rfl := Option.some.inj hplay
      refine .inl (h.imp_right fun hkept => ?_)
      obtain ⟨c', hc', hid⟩ := hkept
      exact ⟨c', List.mem_append_left _ hc', hid⟩
  | proceed k env =>
      obtain ⟨c, c', others, hc, heffect, hbefore, hafter, hanswer⟩ := effect_among_calls hplay
      have hothers {d : Call} (hd : d ∈ others) (hid : id ∈ d.kept) : x'.Kept id :=
        .inr ⟨d, hafter.mem_iff.mpr (List.mem_append_right _ hd), hid⟩
      have hown (hkept : id ∈ x.supervisor.engaged ∨ id ∈ c.kept) : x'.Kept id ∨ x.Forsakes id x' (.proceed k env) := by
        rcases heffect.kept hopen hkept with (hengaged | ⟨d, hd, hid⟩) | hdrop
        · exact .inl (.inl hengaged)
        · refine .inl (.inr ⟨d, hafter.mem_iff.mpr (List.mem_append_left _ ?_), hid⟩)
          exact Option.mem_toList.mpr hd
        · cases hdrop with
          | refused hstake =>
              obtain ⟨a, ha⟩ := hanswer rfl
              obtain ⟨o, stage, e, rfl, rfl⟩ := Supervisor.refused_of_answer hstake ha
              exact .inr (.refused hc ha)
          | taken => exact .inr (.aborted hc)
      -- the hands are those of the call that moves, or of another one, which the step leaves alone
      rcases h with hengaged | ⟨d, hd, hid⟩
      · exact hown (.inl hengaged)
      · rcases List.mem_cons.mp (hbefore.mem_iff.mp hd) with rfl | hd
        · exact hown (.inr hid)
        · exact .inl (hothers hd hid)
  | giveUp k => exact absurd hm (by simp [Move.isPatient])
  | watch g timerFirst =>
      obtain ⟨s, hs, rfl⟩ := Option.map_eq_some_iff.mp hplay
      have hactive := (Supervisor.Quiet.stepMonitor hs).active
      refine .inl (h.imp_left fun hengaged => ?_)
      rwa [Supervisor.engaged, hactive]
  | pass time =>
      obtain rfl := Option.some.inj hplay
      exact .inl h
  | signal process number =>
      obtain rfl := Option.some.inj hplay
      exact .inl h
  | ingest e =>
      obtain rfl := Option.some.inj hplay
      exact .inl h

theorem Launches.kept (h : x.Launches id x') : x.Kept id := by
  obtain ⟨k, env, o, graph, hc, -, -⟩ := h
  exact .inr ⟨_, List.mem_of_getElem? hc, List.mem_cons_self⟩

end Scene

structure Deed.Drops (d : Deed) (id : PipelineId) : Prop where
  unfinished : d.after.supervisor.Unfinished id
  before : d.before.Kept id
  after : ¬d.after.Kept id
  forsakes : d.before.Forsakes id d.after d.move

namespace History

variable {config : Config} {τ : List Deed} {x : Scene} {id : PipelineId}

/-- The run of a pipeline was let drop, and there was no other one since. -/
def Dropped (τ : List Deed) (id : PipelineId) : Prop :=
  ∃ τ₁ d τ₂, τ = τ₁ ++ d :: τ₂ ∧ d.Drops id ∧ ∀ d' ∈ τ₂, ¬d'.before.Launches id d'.after

/-- A run that has not ended is in good hands, or it was let drop. -/
theorem kept_or_dropped (h : History config τ x) (hopen : x.supervisor.Unfinished id) : x.Kept id ∨ Dropped τ id := by
  induction h with
  | start =>
      obtain ⟨r, hr, -⟩ := hopen
      cases hr
  | @move τ x x' m hpast hm hplay ih =>
      by_cases hkept : x.Kept id
      · by_cases hkept' : x'.Kept id
        · exact .inl hkept'
        · have hforsakes := (hkept.play hm hplay hopen).resolve_left hkept'
          refine .inr ⟨τ, ⟨x, m, x'⟩, [], rfl, ⟨hopen, hkept, hkept', hforsakes⟩, ?_⟩
          exact fun d hd => absurd hd List.not_mem_nil
      · -- it was let drop before, and nobody takes it up again but for a new run
        have hpastopen := (Scene.unfinished_before hm hplay hopen).resolve_right hkept
        obtain ⟨τ₁, d, τ₂, rfl, hdrops, hnone⟩ := (ih hpastopen).resolve_left hkept
        refine .inr ⟨τ₁, d, τ₂ ++ [⟨x, m, x'⟩], by simp, hdrops, fun d' hd' => ?_⟩
        rcases List.mem_append.mp hd' with hd' | hd'
        · exact hnone d' hd'
        · obtain rfl := List.mem_singleton.mp hd'
          exact fun hlaunch => hkept hlaunch.kept

end History

/-! ### Runs that are let drop -/

namespace Scene

/-- The worker of a run is killed, and before the monitor polls, the pipeline is started again while its broker cannot
be reached. The monitor, which the start has cancelled, ends. -/
def deadEnd : List Move :=
  starting ⟨none, none⟩ ++ [.watch 0 false, .signal 0 Signal.kill, .ask (.startOf 1 ⟨none, none⟩)] ++
    List.replicate 4 (.proceed 0 calm) ++ [.proceed 0 { calm with reachable := fun _ => false }, .watch 0 false]

/-- The run has not ended and is left with no call under way, and nothing is active. -/
theorem strands_deadEnd : ∃ x, deadEnd.foldlM play (ofConfig {}) = some x ∧ x.calls = [] ∧
    x.supervisor.Unfinished 1 ∧ x.supervisor.active = [] :=
  ⟨_, rfl, rfl, ⟨_, rfl, rfl⟩, rfl⟩

/-- Not every run that has not ended is watched over when no start, stop, abort or shutdown is under way. -/
theorem not_always_guarded : ¬∀ (config : Config) (x : Scene) (id : PipelineId),
    Reachable config (·.isPatient = true) x → (∀ c ∈ x.calls, ∃ id' run, c = .status id' run) →
      x.supervisor.Unfinished id → ∃ g y, (id, g) ∈ x.supervisor.active ∧ x.supervisor.generations[g]? = some y ∧
        y.monitor.isOver = false := by
  intro h
  obtain ⟨x, hplayed, hcalls, hopen, hactive⟩ := strands_deadEnd
  have hms : ∀ m ∈ deadEnd, m.isPatient = true := by simp [deadEnd, starting, Move.isPatient]
  have hreach := Reachable.start.plays deadEnd hms hplayed
  obtain ⟨g, y, hmem, -, -⟩ := h {} x 1 hreach (fun c hc => absurd hc (by simp [hcalls])) hopen
  simp [hactive] at hmem

end Scene

namespace History

variable {config : Config} {τ : List Deed} {x : Scene} {id : PipelineId}

/-- When no start, stop, abort or shutdown is under way, a run that has not ended has an active generation whose monitor
nobody has cancelled. That monitor goes on, unless it broke because the moment of its next poll, or the end of its time,
is beyond the last one. Or else the run was let drop: by a start that was refused, or by an abort. -/
theorem guarded_or_dropped (h : History config τ x) (hcalls : ∀ c ∈ x.calls, ∃ id' run, c = .status id' run)
    (hopen : x.supervisor.Unfinished id) :
    (∃ g y, (id, g) ∈ x.supervisor.active ∧ x.supervisor.generations[g]? = some y ∧ y.pipeline = id ∧
        y.cancelled = false ∧ (y.monitor.isOver = false ∨ y.monitor = .broken)) ∨ Dropped τ id := by
  have hreach := h.reachable
  rcases h.kept_or_dropped hopen with (hengaged | ⟨c, hc, hid⟩) | hdropped
  · obtain ⟨⟨id, g⟩, hactive, rfl⟩ := List.mem_map.mp hengaged
    have hstands : x.Stands id g := .inl hactive
    obtain ⟨y, hy, hcore, hpipeline, hcancelled⟩ := hstands.core hreach
    refine .inl ⟨g, y, hactive, hy, hpipeline, hcancelled, ?_⟩
    have hattained : x.supervisor.Attained y.core y.monitor := (hstands.watched hreach hcore).attained
    cases hmonitor : y.monitor with
    | ended =>
        -- a monitor that has ended has seen the run end
        rw [hmonitor] at hattained
        obtain ⟨r, hr, hterminal⟩ := hattained.1
        obtain ⟨r', hr', hopen⟩ := hopen
        have hsame : x.supervisor.registry.get? id = some r := hpipeline ▸ hr
        obtain rfl := Option.some.inj (hsame.symm.trans hr')
        rw [hterminal] at hopen
        cases hopen
    | broken => exact .inr rfl
    | _ => exact .inl rfl
  · obtain ⟨id', run, rfl⟩ := hcalls c hc
    exact absurd hid List.not_mem_nil
  · exact .inr hdropped

/-- The killed worker of a run leaves it to a start that lets it drop. -/
theorem deadEnd_dropped : ∃ τ x, History {} τ x ∧ (∀ c ∈ x.calls, ∃ id' run, c = .status id' run) ∧
    x.supervisor.Unfinished 1 ∧ Dropped τ 1 := by
  obtain ⟨x, hplayed, hcalls, hopen, hactive⟩ := Scene.strands_deadEnd
  have hms : ∀ m ∈ Scene.deadEnd, m.isPatient = true := by simp [Scene.deadEnd, Scene.starting, Move.isPatient]
  obtain ⟨τ, h⟩ := exists_of_plays Scene.deadEnd hms .start hplayed
  have hnone : ∀ c ∈ x.calls, ∃ id' run, c = .status id' run := fun c hc => absurd hc (by simp [hcalls])
  refine ⟨τ, x, h, hnone, hopen, (guarded_or_dropped h hnone hopen).resolve_left ?_⟩
  rintro ⟨g, y, hmem, -⟩
  simp [hactive] at hmem

end History

end Pipeworks
