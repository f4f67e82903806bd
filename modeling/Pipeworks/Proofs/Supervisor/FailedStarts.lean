import Pipeworks.Proofs.Supervisor.StartStories

/-!
Starts that fail. As long as a start has marked its pipeline no other start of it goes on. A start that is refused has
done nothing that others could see. A start that could not start one of its processes shuts down those that it had
started, the producers first, and then fails the run that it had made known, unless somebody else has ended that run in
the meantime; its pipeline is not active when it answers, and it waits for nobody on its way.
-/

namespace Pipeworks.Threads

variable {config : Config} {τ : List Deed} {x x' : Threads} {m : Move} {k : Nat} {env : Surroundings} {id : PipelineId}
  {t t' : Thread} {s' : Supervisor} {ms : List Member} {e : Error}

/-! ### A start that has broken off comes to its answer -/

def Alone (k : Nat) (env : Surroundings) (m : Move) : Prop := (∃ time, m = .pass time) ∨ m = .proceed k env

def MayAnswer (x : Threads) (k : Nat) (env : Surroundings) (a : Answer) : Prop :=
  ∃ y, Leads (Alone k env) x y ∧ y.threads[k]? = some (.answered a)

namespace MayAnswer

variable {a : Answer}

theorem of_play (h : x'.MayAnswer k env a) (hm : Alone k env m) (hplay : x.play m = some x') : x.MayAnswer k env a := by
  obtain ⟨y, hleads, hover⟩ := h
  exact ⟨y, hleads.head ⟨m, hm, hplay⟩, hover⟩

theorem of_step (ht : x.threads[k]? = some t) (hstep : t.step env x.supervisor = some (t', s'))
    (h : ∀ x' : Threads, x'.threads[k]? = some t' → x'.MayAnswer k env a) : x.MayAnswer k env a := by
  have hlt := (List.getElem?_eq_some_iff.mp ht).1
  have hplay : x.play (.proceed k env) = some ⟨s', x.threads.set k t'⟩ := by
    rw [play, proceed, ht, Option.bind_some, hstep, Option.map_some]
  exact (h ⟨s', x.threads.set k t'⟩ (List.getElem?_set_self hlt)).of_play (.inr rfl) hplay

end MayAnswer

def MayFinish (k : Nat) (env : Surroundings) (id : PipelineId) (e : Error) (u : Teardown) : Prop :=
  ∀ o (x : Threads), x.threads[k]? = some (.calling (.start id o (.unwinding u e))) →
    x.MayAnswer k env (.started (.error e))

theorem MayFinish.of_next {u : Teardown}
    (h : ∀ s : Supervisor, ∃ time u' s', u.next { s with now := s.now + time } = .later u' s' ∧
      MayFinish k env id e u') : MayFinish k env id e u := by
  intro o x ht
  obtain ⟨time, u', s', hnext, hu'⟩ := h x.supervisor
  let later : Threads := { x with supervisor := { x.supervisor with now := x.supervisor.now + time } }
  have hstep : (Thread.calling (.start id o (.unwinding u e))).step env later.supervisor =
      some (.calling (.start id o (.unwinding u' e)), s') := by
    rw [Thread.step, Thread.stepStart]
    simp only [later, hnext]
  have hlater : later.MayAnswer k env (.started (.error e)) := .of_step ht hstep (hu' o)
  exact hlater.of_play (.inl ⟨time, rfl⟩) rfl

/-- When its limit is over, the shutdown of a process is done, or the process is killed. -/
theorem next_of_limit_le {stage : Shutdown} {now : Moment} (h : stage.limit ≤ now) (grace : Duration) (p : Subprocess) :
    (∃ status q, stage.next grace now p = .done status q) ∨
      ∃ l l' q, stage = .asked l ∧ stage.next grace now p = .later (.killed l') q := by
  unfold Shutdown.next
  split
  · exact .inl ⟨_, _, rfl⟩
  · rw [if_pos h]
    cases stage with
    | asked l => exact .inr ⟨l, _, _, rfl, rfl⟩
    | killed l => exact .inl ⟨_, _, rfl⟩

theorem mayFinish (u : Teardown) : MayFinish k env id e u := by
  obtain ⟨is, current⟩ := u
  induction is generalizing current with
  | nil =>
      intro o x ht
      exact .of_step ht rfl fun x' ht' => .of_step ht' rfl fun x' ht' => .of_step ht' rfl fun x' ht' => ⟨x', .refl, ht'⟩
  | cons i is ih =>
      have hstage (stage : Shutdown)
          (hkilled : ∀ l, stage = .asked l → ∀ l', MayFinish k env id e ⟨i :: is, some (.killed l')⟩) :
          MayFinish k env id e ⟨i :: is, some stage⟩ := by
        refine .of_next fun s => ⟨stage.limit, ?_⟩
        have hlimit : stage.limit ≤ s.now + stage.limit := Nat.le_add_left _ _
        cases hp : s.processes[i]? with
        | none => exact ⟨_, _, by simp only [Teardown.next, hp]; rfl, ih none⟩
        | some p =>
            rcases next_of_limit_le hlimit s.config.gracePeriod p with ⟨status, q, hnext⟩ | ⟨l, l', q, hl, hnext⟩
            · exact ⟨_, _, by simp only [Teardown.next, hp, hnext]; rfl, ih none⟩
            · exact ⟨_, _, by simp only [Teardown.next, hp, hnext]; rfl, hkilled l hl l'⟩
      have hany (stage : Shutdown) : MayFinish k env id e ⟨i :: is, some stage⟩ :=
        hstage stage fun _ _ l' => hstage (.killed l') (by rintro _ ⟨⟩)
      cases current with
      | some stage => exact hany stage
      | none =>
          refine .of_next fun s => ⟨0, ?_⟩
          cases hp : s.processes[i]? with
          | none => exact ⟨_, _, by simp only [Teardown.next, hp]; rfl, ih none⟩
          | some p => exact ⟨_, _, by simp only [Teardown.next, hp]; rfl, hany _⟩

theorem Broken.eq_of_mem {e' : Error} (h : Broken τ k ms e') (hfailed : .error e ∈ attempts τ k) : e = e' := by
  rw [h.attempted] at hfailed
  rcases List.mem_append.mp hfailed with hfailed | hfailed
  · obtain ⟨m, -, hm⟩ := List.mem_map.mp hfailed
    cases hm
  · exact Except.error.inj (List.mem_singleton.mp hfailed)

theorem AllStarted.not_mem (h : AllStarted τ k) : .error e ∉ attempts τ k := by
  obtain ⟨ms, hms⟩ := h
  rw [hms]
  rintro hfailed
  obtain ⟨m, -, hm⟩ := List.mem_map.mp hfailed
  cases hm

/-- A start that could not start a process comes to answer with the error as time passes; it waits for nobody. -/
theorem mayAnswer_of_failed (h : History config τ x) (hfailed : .error e ∈ attempts τ k) (env : Surroundings) :
    x.MayAnswer k env (.started (.error e)) := by
  have hsome : attempts τ k ≠ [] := List.ne_nil_of_mem hfailed
  have hlt : k < x.threads.length := by
    by_contra hge
    exact hsome (by rw [attempts, h.deeds_eq_nil (not_lt.mp hge), List.filterMap_nil])
  obtain ⟨t, ht⟩ : ∃ t, x.threads[k]? = some t := ⟨_, List.getElem?_eq_getElem hlt⟩
  have hstory := h.story ht
  -- by its story, a start with a failed attempt is at one of the stages behind that
  cases t with
  | calling c =>
      cases c with
      | start id o stage =>
          cases stage with
          | unwinding u e' =>
              obtain ⟨ms, -, hbroken, -⟩ := hstory
              obtain rfl := hbroken.eq_of_mem hfailed
              exact mayFinish u o x ht
          | enlisting g r => exact absurd hfailed (AllStarted.not_mem hstory)
          | _ => exact absurd (Spotless.attempted hstory) hsome
      | _ => exact absurd hstory hsome
  | launching l stage =>
      cases stage with
      | numbering => exact absurd (Spotless.attempted hstory) hsome
      | forgetting => exact absurd (Spotless.attempted hstory) hsome
      | recording => exact absurd hstory.1 hsome
      | spawning specs ms => exact absurd hfailed (AllStarted.not_mem ⟨ms, hstory.1⟩)
  | failing id e' =>
      obtain ⟨ms, hbroken, -⟩ := hstory
      obtain rfl := hbroken.eq_of_mem hfailed
      exact .of_step ht rfl fun x' ht' => .of_step ht' rfl fun x' ht' => ⟨x', .refl, ht'⟩
  | leaving id o =>
      cases o with
      | refused e' => exact absurd hstory.1.attempted hsome
      | failed e' =>
          obtain ⟨ms, hbroken, -⟩ := hstory
          obtain rfl := hbroken.eq_of_mem hfailed
          exact .of_step ht rfl fun x' ht' => ⟨x', .refl, ht'⟩
      | entered r => exact absurd hfailed (AllStarted.not_mem hstory)
  | answered a =>
      cases a with
      | started r =>
          cases r with
          | ok r => exact absurd hfailed (AllStarted.not_mem hstory)
          | error e' =>
              rcases hstory with ⟨hspotless, -⟩ | ⟨ms, hbroken, -⟩
              · exact absurd hspotless.attempted hsome
              · obtain rfl := hbroken.eq_of_mem hfailed
                exact ⟨x, .refl, ht⟩
      | _ => exact absurd hstory hsome
  | _ => exact absurd hstory hsome

/-! ### The whole of a start -/

/-- What a start leaves that could not start one of its processes: those that it had started are gone, its run has
failed, unless somebody else has ended it, and its pipeline is not active. -/
structure Undone (τ : List Deed) (k : Nat) (s : Supervisor) (id : PipelineId) (ms : List Member) (e : Error) : Prop where
  broken : Broken τ k ms e
  gone : ∀ m ∈ ms, s.Gone m.process
  given : Given τ k s id e
  idle : s.Idle id

def Marks (x : Threads) (k : Nat) (id : PipelineId) : Prop := ∃ t, x.threads[k]? = some t ∧ t.marked? = some id

/-- What has come of a start by its last step: all processes were started; or it was refused and has done nothing that
others could see; or it could not start one of its processes, and has undone what it did. -/
def Returns (τ : List Deed) (k : Nat) (x x' : Threads) : Except Error StartReport → Prop
  | .ok _ => AllStarted τ k
  | .error e => Spotless τ k ∧ Refused τ k e ∨ ∃ id ms, x.Marks k id ∧ Undone τ k x'.supervisor id ms e

theorem mem_marks_iff (x : Threads) (id : PipelineId) :
    id ∈ (x.threads.map Thread.stake).filterMap Stake.mark? ↔ ∃ k, x.Marks k id := by
  rw [List.filterMap_map, List.mem_filterMap]
  constructor
  · rintro ⟨t, ht, hmark⟩
    obtain ⟨k, hk⟩ := List.getElem?_of_mem ht
    exact ⟨k, t, hk, t.mark?_stake ▸ hmark⟩
  · rintro ⟨k, t, ht, hmark⟩
    exact ⟨t, List.mem_of_getElem? ht, t.mark?_stake.trans hmark⟩

theorem mem_starting_iff (hx : x.Owned) (id : PipelineId) : id ∈ x.supervisor.starting ↔ ∃ k, x.Marks k id :=
  (hx.sound.starting id).trans (x.mem_marks_iff id)

theorem Marks.unique_of_nodup {l : Nat} (hmarks : ((x.threads.map Thread.stake).filterMap Stake.mark?).Nodup)
    (hk : x.Marks k id) (hl : x.Marks l id) : k = l := by
  obtain ⟨t, ht, htmark⟩ := hk
  obtain ⟨u, hu, humark⟩ := hl
  have hstake {l : Nat} {u : Thread} (hu : x.threads[l]? = some u) :
      (x.threads.map Thread.stake)[l]? = some u.stake := by rw [List.getElem?_map, hu, Option.map_some]
  exact Scene.eq_of_mark hmarks (hstake ht) (hstake hu) (t.mark?_stake.trans htmark) (u.mark?_stake.trans humark)

theorem Marks.unique {l : Nat} (hx : x.Owned) (hk : x.Marks k id) (hl : x.Marks l id) : k = l :=
  hk.unique_of_nodup hx.sound.marks hl

/-- A start gives its answer by a step that gives back its mark, or as it finds its pipeline marked. -/
theorem returns_of_play (h : History config τ x) (hplay : x.play (.proceed k env) = some x')
    {r : Except Error StartReport} (hover : x'.threads[k]? = some (.answered (.started r))) :
    Returns (τ ++ [⟨x, .proceed k env, x'⟩]) k x x' r := by
  have hstory := (h.move hplay).story hover
  cases r with
  | ok r => exact hstory
  | error e =>
      rcases hstory with hrefused | ⟨ms, hbroken, -⟩
      · exact .inl hrefused
      have hsome : ¬(attempts (τ ++ [⟨x, .proceed k env, x'⟩]) k = []) := by
        rw [hbroken.attempted]
        exact List.append_ne_nil_of_right_ne_nil _ (List.cons_ne_nil _ _)
      obtain ⟨t, t', ht, hstep, hthreads⟩ := proceed_eq_some hplay
      obtain ⟨hlt, -⟩ := List.getElem?_eq_some_iff.mp ht
      obtain rfl : t' = .answered (.started (.error e)) := by
        rw [hthreads, List.getElem?_set_self hlt] at hover
        exact Option.some.inj hover
      have hstory := h.story ht
      rcases (Thread.does_step hstep).of_error with ⟨id, o, rfl⟩ | ⟨id, o, ho, rfl, hafter⟩
      · exact absurd ((attempts_append_of_none rfl ht rfl).trans hstory.attempted) hsome
      cases o with
      | entered r => cases ho
      | refused e' => exact absurd ((attempts_append_of_none rfl ht rfl).trans hstory.1.attempted) hsome
      | failed e' =>
          obtain rfl := Except.error.inj ho
          obtain ⟨ms, hbroken, hgone, hgiven⟩ := hstory
          have hidle : x.supervisor.Fits (.cleared id) :=
            h.reachable.owned.sound.fits _ (List.mem_map_of_mem (List.mem_of_getElem? ht))
          refine .inr ⟨id, ms, ⟨_, ht, rfl⟩, ?_⟩
          rw [hafter]
          refine ⟨hbroken.append_of_same rfl ht rfl (by rw [hafter]; rfl), hgone, ?_, hidle⟩
          exact hgiven.imp_right fun ⟨hended, d, hd, hrobs⟩ => ⟨hended, d, List.mem_append_left _ hd, hrobs⟩

theorem History.played (h : History config τ x) : ∀ d ∈ τ, d.before.play d.move = some d.after := by
  induction h with
  | start => exact fun d hd => absurd hd List.not_mem_nil
  | move _ hplay ih =>
      intro d hd
      rcases List.mem_append.mp hd with hd | hd
      · exact ih d hd
      · obtain rfl := List.mem_singleton.mp hd
        exact hplay

/-- A deed of the monitor of a generation, of somebody who sends an event, or of a call of another sort than a start. -/
inductive Deed.Foreign : Deed → Prop where
  | watch {x x' : Threads} {g : Nat} {timerFirst : Bool} : Foreign ⟨x, .watch g timerFirst, x'⟩
  | ingest {x x' : Threads} {e : Event} : Foreign ⟨x, .ingest e, x'⟩
  | call {x x' : Threads} {k : Nat} {env : Surroundings} {t : Thread} : x.threads[k]? = some t → t.isStart = false →
      Foreign ⟨x, .proceed k env, x'⟩

theorem Deed.Robs.foreign {d : Deed} (h : d.Robs k id) (hplay : d.before.play d.move = some d.after) : d.Foreign := by
  obtain ⟨x, m, x'⟩ := d
  dsimp only at hplay
  have hchanged : x'.supervisor.registry ≠ x.supervisor.registry := by
    intro hsame
    obtain ⟨r, hr, hgoes⟩ := h.unended
    obtain ⟨r', hr', hend⟩ := h.ended
    rw [hsame, hr] at hr'
    obtain rfl := Option.some.inj hr'
    exact absurd (hgoes.symm.trans hend) Bool.false_ne_true
  cases m with
  | ask c =>
      rw [play] at hplay
      split_ifs at hplay
      obtain rfl := Option.some.inj hplay
      exact absurd rfl hchanged
  | proceed l env =>
      obtain ⟨t, -, ht, -⟩ := proceed_eq_some hplay
      have hother := h.other
      simp only [Deed.isOfStart, ht, Option.any_some] at hother
      exact .call ht hother
  | giveUp l => cases hplay
  | watch g timerFirst => exact .watch
  | pass time =>
      obtain rfl := Option.some.inj hplay
      exact absurd rfl hchanged
  | signal process number =>
      obtain rfl := Option.some.inj hplay
      exact absurd rfl hchanged
  | ingest e => exact .ingest

/-- A pipeline is marked as starting exactly while a start of it is between its mark and its answer, and no two are. A
start that answers with an error was refused and has done nothing that others could see, or it could not start one of
its processes: then that is the error, those that it had started are gone, the producers first, its run has failed,
unless somebody else has ended it, who is no start, and its pipeline is not active. And once a process could not be
started, the start comes to this answer by itself. -/
theorem starts_exclude_each_other_and_fail_whole (h : History config τ x) :
    (∀ id, id ∈ x.supervisor.starting ↔ ∃ k, x.Marks k id) ∧
    (∀ id k l, x.Marks k id → x.Marks l id → k = l) ∧
    (∀ k env x' r, x.play (.proceed k env) = some x' → x'.threads[k]? = some (.answered (.started r)) →
      Returns (τ ++ [⟨x, .proceed k env, x'⟩]) k x x' r) ∧
    (∀ d ∈ τ, ∀ k id, d.Robs k id → d.Foreign) ∧
    ∀ k env e, .error e ∈ attempts τ k → x.MayAnswer k env (.started (.error e)) :=
  have howned := h.reachable.owned
  ⟨mem_starting_iff howned, fun _ _ _ hk hl => hk.unique howned hl,
    fun _ _ _ _ hplay hover => returns_of_play h hplay hover, fun d hd _ _ hrobs => hrobs.foreign (h.played d hd),
    fun _ env _ hfailed => mayAnswer_of_failed h hfailed env⟩

def paired : Graph where
  pipeline := 1
  name := "paired"
  inputs := [⟨1, none, "in", "near", none⟩, ⟨2, none, "in", "far", none⟩]
  outputs := [⟨1, none, "out", "near", none⟩, ⟨2, none, "out", "far", none⟩]
  transformations := []
  flows := [⟨none, .input 1, .output 1⟩, ⟨none, .input 2, .output 2⟩]

def balky : Surroundings where
  fetch _ := .ok (some paired)
  reachable _ := true
  launch n _ := if n = 0 then .ok (.ok {}) else .ok (.error .notFound)
  stamp := ""

def hapless : List Move := .ask (.startOf 1 ⟨none, none⟩) :: List.replicate 13 (.proceed 0 balky)

/-- The second process cannot be started, and the first one is shut down again. -/
theorem hapless_fails_whole : ∃ τ x x' id ms e, History {} τ x ∧ x.play (.proceed 0 balky) = some x' ∧
    x'.threads[0]? = some (.answered (.started (.error e))) ∧ ms.length = 1 ∧
      Undone (τ ++ [⟨x, .proceed 0 balky, x'⟩]) 0 x'.supervisor id ms e := by
  let τ := (ofConfig {}).trace hapless
  obtain ⟨x, x', e, hplayed, hplay, hover, hlength⟩ : ∃ x x' e, hapless.foldlM play (ofConfig {}) = some x ∧
      x.play (.proceed 0 balky) = some x' ∧ x'.threads[0]? = some (.answered (.started (.error e))) ∧
      (attempts (τ ++ [⟨x, .proceed 0 balky, x'⟩]) 0).length = 2 := ⟨_, _, _, rfl, rfl, rfl, rfl⟩
  have h : History {} τ x := History.start.plays hapless hplayed
  rcases (starts_exclude_each_other_and_fail_whole h).2.2.1 0 balky x' (.error e) hplay hover with
    ⟨hspotless, -⟩ | ⟨id, ms, -, hundone⟩
  · rw [hspotless.attempted] at hlength
    cases hlength
  · refine ⟨τ, x, x', id, ms, e, h, hplay, hover, ?_, hundone⟩
    rw [hundone.broken.attempted, List.length_append, List.length_map] at hlength
    exact Nat.succ.inj hlength

end Pipeworks.Threads
