import Pipeworks.Script.Deadline
import Pipeworks.Proofs.Config
import Pipeworks.Proofs.Duration
import Pipeworks.Proofs.Supervisor.FailedStarts
import Pipeworks.Proofs.Supervisor.SuccessfulStarts

/-!
How far the clock reaches. The clock tells no moment after the last one. A monitor breaks when the end of its run or its
next poll lies beyond that, and for no other reason; so a run that was started is watched over as long as the clock
reaches its end and the next poll. Neither the check of the settings nor a start looks at that. A script breaks down
whoever runs it when its deadline lies beyond the last moment, but a budget that a worker can read is far too short for
that.
-/

namespace Pipeworks

namespace Moment

def horizon : Moment := 9223372036854775808 * 1000000000

theorem later?_eq_none_iff {m : Moment} {d : Duration} : later? m d = none ↔ horizon ≤ m + d.nanos := by
  rw [later?]
  split
  case isTrue hlt => exact ⟨nofun, fun hle => absurd hlt (Nat.not_lt.mpr hle)⟩
  case isFalse hge => exact ⟨fun _ => Nat.not_lt.mp hge, fun _ => rfl⟩

theorem later?_of_lt {m : Moment} {d : Duration} (h : m + d.nanos < horizon) : later? m d = some (m + d.nanos) :=
  if_pos h

end Moment

/-! ### Scripts -/

namespace Script

variable {now : Moment} {source : String} {budget : Duration}

theorem loadAt?_of_lt (h : now + budget.nanos < Moment.horizon) :
    loadAt? now source budget = some (load source budget) := by
  rw [loadAt?, Moment.later?_of_lt h]
  cases Parser.parse source with
  | error e => rfl
  | ok p =>
      dsimp only
      cases entryOf p <;> rfl

/-- A script whose deadline cannot be told breaks down whoever loads it, unless it is refused before it is run. -/
theorem loadAt?_eq_none_iff : loadAt? now source budget = none ↔
    Moment.horizon ≤ now + budget.nanos ∧ ∃ p entry, Parser.parse source = .ok p ∧ entryOf p = .ok entry := by
  rw [loadAt?]
  cases hparse : Parser.parse source with
  | error e => simp
  | ok p =>
      dsimp only
      cases hentry : entryOf p with
      | error e => simp [hentry]
      | ok entry => simp [hentry, Moment.later?_eq_none_iff]

theorem Loaded.runAt?_of_lt {l : Loaded} (h : now + l.budget.nanos < Moment.horizon) (record : Json) :
    l.runAt? now record = some (l.run record) := by
  rw [runAt?, Moment.later?_of_lt h, Option.map_some]

end Script

/-- Whatever a duration that was written is read as, it is shorter than the bound of 64 bits in milliseconds. -/
theorem Duration.nanos_lt_of_written {d d' : Duration} {p : Json.Place}
    (h : decoder p (Json.Doc.ofJson d.json) = .ok d') : d'.nanos < Text.bound64 * 1000000 := by
  have htext : d.text = (ofMillis d.millis).text := by rw [text, text, millis_ofMillis]
  rw [decoder_json, htext] at h
  by_cases hbound : d.millis < Text.bound64
  · rw [parse_text hbound] at h
    obtain rfl := Except.ok.inj h
    exact Nat.mul_lt_mul_of_pos_right hbound (by decide)
  · rw [parse_text_of_le (Nat.not_lt.mp hbound)] at h
    cases h

/-! ### Monitors -/

namespace Monitor

variable {now : Moment} {interval : Duration}

theorem sleep_eq_broken_iff {deadline : Option Moment} :
    sleep now interval deadline = .broken ↔ Moment.horizon ≤ now + interval.nanos := by
  rw [← Moment.later?_eq_none_iff, sleep]
  cases Moment.later? now interval <;> simp

theorem begin_eq_broken_iff {runtime : Option Duration} : begin now interval runtime = .broken ↔
    (∃ r, runtime = some r ∧ Moment.horizon ≤ now + r.nanos) ∨ Moment.horizon ≤ now + interval.nanos := by
  cases runtime with
  | none => simp [begin, sleep_eq_broken_iff]
  | some r =>
      rw [begin]
      cases hlater : Moment.later? now r with
      | none => simp [Moment.later?_eq_none_iff.mp hlater]
      | some deadline =>
          have hreached : ¬Moment.horizon ≤ now + r.nanos := by
            rw [← Moment.later?_eq_none_iff, hlater]
            exact nofun
          simp [sleep_eq_broken_iff, hreached]

end Monitor

namespace Supervisor

variable {s s' : Supervisor} {g : Nat} {x : Generation}

structure Reckons (s : Supervisor) (x : Generation) : Prop where
  deadline : ∀ r, x.runtime = some r → s.now + r.nanos < Moment.horizon
  poll : s.now + (s.config.pollInterval x.runtime).nanos < Moment.horizon

/-- The monitor of a generation is to reckon a moment that the clock does not reach: when it begins, or when it has
found all well and goes on sleeping. -/
inductive Overruns (s : Supervisor) (x : Generation) : Prop where
  | begins : x.monitor = .fresh → ¬s.Reckons x → Overruns s x
  | sleeps {deadline : Option Moment} : x.monitor = .checking deadline → s.sighting? x = none →
      (deadline.any fun d => d ≤ s.now) = false →
      Moment.horizon ≤ s.now + (s.config.pollInterval x.runtime).nanos → Overruns s x

theorem not_reckons_iff : ¬s.Reckons x ↔ (∃ r, x.runtime = some r ∧ Moment.horizon ≤ s.now + r.nanos) ∨
    Moment.horizon ≤ s.now + (s.config.pollInterval x.runtime).nanos := by
  constructor
  · intro h
    by_contra hneither
    obtain ⟨hdeadline, hpoll⟩ := not_or.mp hneither
    exact h ⟨fun r hr => Nat.not_le.mp fun hle => hdeadline ⟨r, hr, hle⟩, Nat.not_le.mp hpoll⟩
  · rintro (⟨r, hr, hle⟩ | hle) h
    · exact absurd (h.deadline r hr) (Nat.not_lt.mpr hle)
    · exact absurd h.poll (Nat.not_lt.mpr hle)

theorem Reckons.of_le (h : s'.Reckons x) (hnow : s.now ≤ s'.now) (hconfig : s'.config = s.config) : s.Reckons x where
  deadline r hr := Nat.lt_of_le_of_lt (Nat.add_le_add_right hnow _) (h.deadline r hr)
  poll := by
    have hpoll := h.poll
    rw [hconfig] at hpoll
    exact Nat.lt_of_le_of_lt (Nat.add_le_add_right hnow _) hpoll

theorem Overruns.not_reckons (h : s.Overruns x) : ¬s.Reckons x := by
  cases h with
  | begins _ h => exact h
  | sleeps _ _ _ h => exact not_reckons_iff.mpr (.inr h)

/-- Within settings that were accepted, only the longest interval and the runtime matter. -/
theorem reckons_of_lt (hc : s.config.Pollable) (hpoll : s.now + s.config.pollMax.nanos < Moment.horizon)
    (hruntime : ∀ r, x.runtime = some r → s.now + r.nanos < Moment.horizon) : s.Reckons x where
  deadline := hruntime
  poll := Nat.lt_of_le_of_lt (Nat.add_le_add_left (Config.pollInterval_le_pollMax hc x.runtime) _) hpoll

theorem Tick.now_eq {m : Monitor} (h : Tick s g x s' m) : s'.now = s.now := by
  cases h with
  | stops _ hnext =>
      obtain ⟨ps, rfl⟩ := eq_of_next_later hnext
      rfl
  | completes =>
      obtain ⟨bus, hbus⟩ := exists_reportCompletion (s.endMonitor g) x
      rw [hbus]
      rfl
  | _ => rfl

theorem Tick.not_broken {m : Monitor} (h : Tick s g x s' m) : x.monitor ≠ .broken := by
  intro hbroken
  cases h with
  | stops hteardown _ =>
      rw [hbroken] at hteardown
      cases hteardown
  | begins h | quits h | wakes h | finds h | elapses h | sleeps h | claims h | fails h | drains h | leaves h | turns h
    | completes h =>
      rw [hbroken] at h
      cases h

/-- A monitor breaks by its step when the step overruns the clock, and only then. -/
theorem Tick.eq_broken_iff {m : Monitor} (h : Tick s g x s' m) : m = .broken ↔ s.Overruns x := by
  have hother {m' : Monitor} (hmonitor : x.monitor = m') (hfresh : m' ≠ .fresh) (hchecking : ∀ d, m' ≠ .checking d) :
      ¬s.Overruns x := by
    rintro (⟨hx, -⟩ | ⟨hx, -, -, -⟩)
    · exact hfresh (hmonitor ▸ hx)
    · exact hchecking _ (hmonitor ▸ hx)
  cases h with
  | begins hmonitor hm =>
      rw [hm, Monitor.begin_eq_broken_iff, ← not_reckons_iff]
      refine ⟨.begins hmonitor, fun h => h.not_reckons⟩
  | @sleeps deadline _ hmonitor hsighting hover hm =>
      rw [hm, Monitor.sleep_eq_broken_iff]
      refine ⟨.sleeps hmonitor hsighting hover, ?_⟩
      rintro (⟨hx, -⟩ | ⟨-, -, -, hle⟩)
      · rw [hmonitor] at hx
        cases hx
      · exact hle
  | @elapses deadline hmonitor _ hover =>
      refine ⟨nofun, ?_⟩
      rintro (⟨hx, -⟩ | ⟨hx, -, hgoing, -⟩)
      · rw [hmonitor] at hx
        cases hx
      · obtain rfl := Monitor.checking.inj (hmonitor.symm.trans hx)
        rw [hover] at hgoing
        cases hgoing
  | @finds deadline _ _ _ _ hmonitor hsighting _ =>
      refine ⟨nofun, ?_⟩
      rintro (⟨hx, -⟩ | ⟨-, hnone, -, -⟩)
      · rw [hmonitor] at hx
        cases hx
      · rw [hsighting] at hnone
        cases hnone
  | @stops t t' _ hteardown _ =>
      cases hmonitor : x.monitor with
      | failing | endingProducers | endingWorkers => exact iff_of_false nofun (hother hmonitor nofun nofun)
      | _ =>
          rw [hmonitor] at hteardown
          cases hteardown
  | quits hmonitor | wakes hmonitor | claims hmonitor | fails hmonitor | drains hmonitor | leaves hmonitor
    | turns hmonitor | completes hmonitor => exact iff_of_false nofun (hother hmonitor nofun nofun)

end Supervisor

/-! ### Threads -/

namespace Thread

variable {env : Surroundings} {s s' : Supervisor} {t t' : Thread}

/-- A thread takes no time, and leaves the generations that are there as they are. -/
theorem Does.extends (h : Does env s t t' s') :
    s'.now = s.now ∧ ∃ xs, s'.cores = s.cores ++ xs ∧ ∀ y ∈ xs, y.monitor = .fresh := by
  have hsame {s' : Supervisor} (hnow : s'.now = s.now) (hcores : s'.cores = s.cores) :
      s'.now = s.now ∧ ∃ xs, s'.cores = s.cores ++ xs ∧ ∀ y ∈ xs, y.monitor = .fresh :=
    ⟨hnow, [], by rw [hcores, List.append_nil], fun _ hy => absurd hy List.not_mem_nil⟩
  have heffect {c : Call} {c' : Option Call} {s' : Supervisor} (he : Supervisor.Effect s c s' c') :
      s'.now = s.now ∧ ∃ xs, s'.cores = s.cores ++ xs ∧ ∀ y ∈ xs, y.monitor = .fresh := ⟨he.aged.1, he.cores⟩
  cases h with
  | later _ hstep => exact heffect (effect_of_does hstep)
  | answers _ hstep => exact heffect (effect_of_does hstep)
  | @joined id moved g u _ hstep =>
      have he : Supervisor.Effect s (.abort id (.ending false g u)) s' none := Supervisor.effect_concludeAbort hstep
      exact heffect he
  | @concludes id moved =>
      rw [Supervisor.concludeAbort]
      split_ifs <;> exact hsame rfl rfl
  | @alive id o g =>
      have hlooks := Supervisor.Looks.anyAlive s g
      exact hsame hlooks.now (Supervisor.cores_of_generations hlooks.generations)
  | @dead id o g _ =>
      have hlooks := Supervisor.Looks.anyAlive s g
      have hcores := Supervisor.cores_of_generations hlooks.generations
      exact hsame hlooks.now ((Supervisor.cores_cancel _ _).trans hcores)
  | spawns hspawn =>
      obtain ⟨hgrown, hgenerations, -⟩ := Supervisor.spawnAll_spec (Supervisor.spawnAll_of_ok hspawn [])
      exact hsame hgrown.now (Supervisor.cores_of_generations hgenerations)
  | breaks hspawn =>
      obtain ⟨hgrown, hgenerations, -⟩ := Supervisor.spawnAll_spec (Supervisor.spawnAll_of_error hspawn [])
      exact hsame hgrown.now (Supervisor.cores_of_generations hgenerations)
  | @enrols l x _ hfresh =>
      refine ⟨rfl, [x.core], Supervisor.cores_enrol s x, fun y hy => ?_⟩
      obtain rfl := List.mem_singleton.mp hy
      exact hfresh
  | unwinds hnext =>
      obtain ⟨ps, rfl⟩ := Supervisor.eq_of_next_later hnext
      exact hsame rfl rfl
  | enters => exact hsame rfl (Supervisor.cores_modifyGeneration s _ fun _ => rfl)
  | _ => exact hsame rfl rfl

def reported? : Thread → Option StartReport
  | calling (.start _ _ (.enlisting _ r)) => some r
  | leaving _ (.entered r) => some r
  | answered (.started (.ok r)) => some r
  | _ => none

/-- A start that has started its last process has a report from then on. -/
theorem Does.reported (h : Does env s t t' s') {r : StartReport} (hr : t'.reported? = some r) :
    t.reported? = some r ∨ ∃ l ms, t = launching l (.spawning [] ms) ∧ r = l.report ms := by
  have hanswered {a : Answer} (ha : ∀ r, a ≠ .started r) : (answered a).reported? = none := by
    cases a with
    | started r => exact absurd rfl (ha r)
    | _ => rfl
  cases h with
  | @later c c' _ hc hstep =>
      have habstains := Supervisor.abstains_step env (s := s) hc
      rw [hstep] at habstains
      cases c' with
      | start id o stage => cases habstains.1
      | _ => cases hr
  | answers hc hstep =>
      have habstains := Supervisor.abstains_step env (s := s) hc
      rw [hstep] at habstains
      rw [hanswered habstains.1] at hr
      cases hr
  | @concludes id moved =>
      have habstains : s.Abstains (.answer (s.concludeAbort id moved).1 _) :=
        Supervisor.abstains_concludeAbort rfl moved
      rw [hanswered habstains.1] at hr
      cases hr
  | @enrols l x _ _ => exact .inr ⟨l, x.members, rfl, (Option.some.inj hr).symm⟩
  | enters => exact .inl hr
  | @leaves id o =>
      cases o with
      | entered r' => exact .inl hr
      | refused e => cases hr
      | failed e => cases hr
  | @refused id o stage e _ _ => cases hr
  | _ => cases hr

end Thread

namespace Threads

variable {config : Config} {τ : List Deed} {x x' : Threads} {m : Move} {g k : Nat} {y : Generation}

def Deed.Overruns (g : Nat) (d : Deed) : Prop :=
  ∃ timerFirst y, d.move = .watch g timerFirst ∧ d.before.supervisor.generations[g]? = some y ∧
    d.before.supervisor.Overruns y

theorem not_overruns (hm : ∀ timerFirst, m ≠ .watch g timerFirst) : ¬Deed.Overruns g ⟨x, m, x'⟩ := by
  rintro ⟨timerFirst, -, hwatch, -⟩
  exact hm timerFirst hwatch

inductive Affects (g : Nat) (x : Threads) (m : Move) (x' : Threads) : Prop where
  | ticks {timerFirst : Bool} {y : Generation} {stage : Monitor} : m = .watch g timerFirst →
      x.supervisor.generations[g]? = some y → x.supervisor.Tick g y x'.supervisor stage → Affects g x m x'
  | stays : (∀ timerFirst, m ≠ .watch g timerFirst) → x'.supervisor.cores[g]? = x.supervisor.cores[g]? →
      Affects g x m x'
  | appears : (∀ timerFirst, m ≠ .watch g timerFirst) → x.supervisor.cores[g]? = none →
      (∀ y, x'.supervisor.cores[g]? = some y → y.monitor = .fresh) → Affects g x m x'

theorem affects_of_play (g : Nat) (hplay : x.play m = some x') : Affects g x m x' := by
  cases m with
  | ask c =>
      rw [play] at hplay
      split_ifs at hplay
      obtain rfl := Option.some.inj hplay
      exact .stays (by rintro _ ⟨⟩) rfl
  | proceed k env =>
      obtain ⟨t, t', -, hstep, -⟩ := proceed_eq_some hplay
      obtain ⟨-, xs, hxs, hfresh⟩ := (Thread.does_step hstep).extends
      by_cases hlt : g < x.supervisor.cores.length
      · exact .stays (by rintro _ ⟨⟩) (by rw [hxs, List.getElem?_append_left hlt])
      · refine .appears (by rintro _ ⟨⟩) (List.getElem?_eq_none (Nat.not_lt.mp hlt)) fun y hy => ?_
        rw [hxs, List.getElem?_append_right (Nat.not_lt.mp hlt)] at hy
        exact hfresh y (List.mem_of_getElem? hy)
  | giveUp k => cases hplay
  | watch g' timerFirst =>
      obtain ⟨s, hs, rfl⟩ := Option.map_eq_some_iff.mp hplay
      by_cases hg : g' = g
      · subst hg
        obtain ⟨y, stage, hy, htick⟩ := Supervisor.exists_tick hs
        exact .ticks rfl hy htick
      · refine .stays (fun _ h => hg (Move.watch.inj h).1) ?_
        rw [Supervisor.cores, Supervisor.cores, List.getElem?_map, List.getElem?_map,
          Supervisor.touchesOnly_stepMonitor hs g (Ne.symm hg)]
  | pass time => exact Option.some.inj hplay ▸ .stays (by rintro _ ⟨⟩) rfl
  | signal process number => exact Option.some.inj hplay ▸ .stays (by rintro _ ⟨⟩) rfl
  | ingest e => exact Option.some.inj hplay ▸ .stays (by rintro _ ⟨⟩) rfl

theorem now_le_of_play (hplay : x.play m = some x') : x.supervisor.now ≤ x'.supervisor.now := by
  cases m with
  | proceed k env =>
      obtain ⟨t, t', -, hstep, -⟩ := proceed_eq_some hplay
      exact (Thread.does_step hstep).extends.1.ge
  | watch g timerFirst =>
      obtain ⟨s, hs, rfl⟩ := Option.map_eq_some_iff.mp hplay
      obtain ⟨y, stage, -, htick⟩ := Supervisor.exists_tick hs
      exact htick.now_eq.ge
  | ask c =>
      rw [play] at hplay
      split_ifs at hplay
      exact (Option.some.inj hplay) ▸ Nat.le_refl _
  | giveUp k => cases hplay
  | pass time => exact Option.some.inj hplay ▸ Nat.le_add_right _ _
  | signal process number => exact Option.some.inj hplay ▸ Nat.le_refl _
  | ingest e => exact Option.some.inj hplay ▸ Nat.le_refl _

theorem core_of_play (hplay : x.play m = some x') (hy : x.supervisor.cores[g]? = some y) :
    ∃ stage, x'.supervisor.cores[g]? = some { y with monitor := stage } := by
  cases affects_of_play g hplay with
  | @ticks timerFirst z stage _ hz htick =>
      obtain ⟨held, hbecomes⟩ := htick.becomes hz
      obtain rfl := Option.some.inj ((Supervisor.getElem?_cores hz).symm.trans hy)
      exact ⟨stage, Supervisor.getElem?_cores hbecomes⟩
  | stays _ hsame => exact ⟨y.monitor, hsame.trans hy⟩
  | appears _ hnone _ =>
      rw [hnone] at hy
      cases hy

theorem History.broken_iff (h : History config τ x) (g : Nat) :
    (∃ y, x.supervisor.generations[g]? = some y ∧ y.monitor = .broken) ↔ ∃ d ∈ τ, d.Overruns g := by
  have hcores (x : Threads) : (∃ y, x.supervisor.generations[g]? = some y ∧ y.monitor = .broken) ↔
      ∃ y, x.supervisor.cores[g]? = some y ∧ y.monitor = .broken := by
    rw [Supervisor.cores, List.getElem?_map]
    cases x.supervisor.generations[g]? with
    | none => simp
    | some y => simp [Generation.core]
  induction h with
  | start =>
      refine iff_of_false ?_ ?_
      · rintro ⟨y, hy, -⟩
        cases hy
      · rintro ⟨d, hd, -⟩
        cases hd
  | @move τ x x' m _ hplay ih =>
      have hpast : (∃ d ∈ τ ++ [⟨x, m, x'⟩], d.Overruns g) ↔
          (∃ d ∈ τ, d.Overruns g) ∨ Deed.Overruns g ⟨x, m, x'⟩ := by simp [or_and_right, exists_or]
      refine Iff.trans ?_ (hpast.trans (or_congr_left ih.symm)).symm
      -- the last move is a step of this monitor, or the monitor stays what it was, or it is new
      cases affects_of_play g hplay with
      | @ticks timerFirst y stage hm hy htick =>
          obtain ⟨held, hbecomes⟩ := htick.becomes hy
          have hnow : Deed.Overruns g ⟨x, m, x'⟩ ↔ x.supervisor.Overruns y := by
            refine ⟨?_, fun hover => ⟨timerFirst, y, hm, hy, hover⟩⟩
            rintro ⟨_, z, -, hz, hover⟩
            rwa [Option.some.inj (hy.symm.trans hz)]
          have hbefore : ¬∃ y, x.supervisor.generations[g]? = some y ∧ y.monitor = .broken := by
            rintro ⟨z, hz, hbroken⟩
            exact htick.not_broken (Option.some.inj (hy.symm.trans hz) ▸ hbroken)
          rw [hnow, ← htick.eq_broken_iff, hbecomes]
          simp [hbefore]
      | stays hm hsame =>
          have hnot : ¬Deed.Overruns g ⟨x, m, x'⟩ := not_overruns hm
          rw [hcores, hcores, hsame]
          simp [hnot]
      | appears hm hnone hfresh =>
          have hnot : ¬Deed.Overruns g ⟨x, m, x'⟩ := not_overruns hm
          rw [hcores, hcores, hnone]
          refine iff_of_false ?_ (by simp [hnot])
          rintro ⟨y, hy, hbroken⟩
          rw [hfresh y hy] at hbroken
          cases hbroken

/-- A generation that was there is there later, with another stage of its monitor perhaps; and the clock has not gone
back. -/
theorem History.since (h : History config τ x) : ∀ d ∈ τ, d.before.supervisor.config = config ∧
    d.before.supervisor.now ≤ x.supervisor.now ∧
      ∀ (g : Nat) y, d.before.supervisor.cores[g]? = some y ∨ d.after.supervisor.cores[g]? = some y →
        ∃ stage, x.supervisor.cores[g]? = some { y with monitor := stage } := by
  induction h with
  | start => exact fun d hd => absurd hd List.not_mem_nil
  | @move τ x x' m h hplay ih =>
      intro d hd
      rcases List.mem_append.mp hd with hd | hd
      · obtain ⟨hconfig, hnow, hkeeps⟩ := ih d hd
        refine ⟨hconfig, hnow.trans (now_le_of_play hplay), fun g y hy => ?_⟩
        obtain ⟨stage, hstage⟩ := hkeeps g y hy
        obtain ⟨stage', hstage'⟩ := core_of_play hplay hstage
        exact ⟨stage', hstage'⟩
      · obtain rfl := List.mem_singleton.mp hd
        refine ⟨h.config_eq, now_le_of_play hplay, fun g y hy => ?_⟩
        rcases hy with hy | hy
        · exact core_of_play hplay hy
        · exact ⟨y.monitor, hy⟩

/-- As long as the clock reaches the end of a run that would begin now and its next poll, its monitor has not broken. -/
theorem History.not_broken (h : History config τ x) (hy : x.supervisor.generations[g]? = some y)
    (hreckons : x.supervisor.Reckons y) : y.monitor ≠ .broken := by
  intro hbroken
  obtain ⟨d, hd, timerFirst, z, -, hz, hover⟩ := (h.broken_iff g).mp ⟨y, hy, hbroken⟩
  obtain ⟨hconfig, hnow, hkeeps⟩ := h.since d hd
  obtain ⟨stage, hstage⟩ := hkeeps g z.core (.inl (Supervisor.getElem?_cores hz))
  have hruntime : z.runtime = y.runtime := by
    have hcore := Option.some.inj (hstage.symm.trans (Supervisor.getElem?_cores hy))
    injection hcore
  have hthen : x.supervisor.Reckons z := ⟨hruntime ▸ hreckons.deadline, hruntime ▸ hreckons.poll⟩
  exact hover.not_reckons (hthen.of_le hnow (h.config_eq.trans hconfig.symm))

/-! ### Starts -/

/-- What happened before a deed is a part of what happened. -/
theorem History.before (h : History config τ x) :
    ∀ d ∈ τ, ∃ τ', History config τ' d.before ∧ ∀ d' ∈ τ', d' ∈ τ := by
  induction h with
  | start => exact fun d hd => absurd hd List.not_mem_nil
  | @move τ x x' m h hplay ih =>
      intro d hd
      rcases List.mem_append.mp hd with hd | hd
      · obtain ⟨τ', h', hsub⟩ := ih d hd
        exact ⟨τ', h', fun d' hd' => List.mem_append_left _ (hsub d' hd')⟩
      · obtain rfl := List.mem_singleton.mp hd
        exact ⟨τ, h, fun d' hd' => List.mem_append_left _ hd'⟩

/-- Who has a report got it by the step after its last process was started. -/
theorem History.reported {t : Thread} {r : StartReport} (h : History config τ x) (ht : x.threads[k]? = some t)
    (hr : t.reported? = some r) : ∃ d ∈ τ, ∃ env l ms, d.move = .proceed k env ∧
      d.before.threads[k]? = some (.launching l (.spawning [] ms)) ∧ r = l.report ms := by
  revert hr
  refine h.follows (P := fun τ k _ t => t.reported? = some r → ∃ d ∈ τ, ∃ env l ms, d.move = .proceed k env ∧
    d.before.threads[k]? = some (.launching l (.spawning [] ms)) ∧ r = l.report ms) ?_ ?_ ?_ ht
  · intro τ x c _ hnew hr
    cases c with
    | start id o stage =>
        cases stage with
        | asked => cases hr
        | _ => cases hnew
    | _ => cases hr
  · intro τ x x' m k t _ _ _ _ ih hr
    obtain ⟨d, hd, hrest⟩ := ih hr
    exact ⟨d, List.mem_append_left _ hd, hrest⟩
  · intro τ x k env t t' s' _ ht hdoes ih hr
    rcases hdoes.reported hr with hr | ⟨l, ms, rfl, hreport⟩
    · obtain ⟨d, hd, hrest⟩ := ih hr
      exact ⟨d, List.mem_append_left _ hd, hrest⟩
    · exact ⟨_, List.mem_append_right _ (List.mem_singleton_self _), env, l, ms, rfl, ht, hreport⟩

/-- A start that succeeded has a generation with the processes that it reports, which was to run for as long as it was
asked to. -/
theorem History.exists_generation {r : StartReport} (h : History config τ x)
    (hr : x.threads[k]? = some (.answered (.started (.ok r)))) :
    ∃ o, Asked τ k r.pipeline o ∧ ∃ (g : Nat) (y : Generation), x.supervisor.generations[g]? = some y ∧
      y.pipeline = r.pipeline ∧ y.runtime = o.runtime ∧ y.members.map (·.process) = r.processes := by
  obtain ⟨d, hd, env, l, ms, hmove, hl, rfl⟩ := h.reported hr rfl
  obtain ⟨τ', h', hsub⟩ := h.before d hd
  obtain ⟨report, jobs, processes, hprepared, -⟩ := h'.progress hl
  obtain ⟨d', hd', hasked⟩ := hprepared.asked
  refine ⟨l.options, ⟨d', hsub d' hd', hasked⟩, d.before.supervisor.generations.length, ?_⟩
  have hplayed := h.played d hd
  rw [hmove, play, proceed, hl] at hplayed
  have hafter : (Thread.enrol d.before.supervisor l ms).2 = d.after.supervisor :=
    congrArg Threads.supervisor (Option.some.inj hplayed)
  have hcore := Supervisor.getElem?_cores (s := (Thread.enrol d.before.supervisor l ms).2) List.getElem?_concat_length
  rw [hafter] at hcore
  obtain ⟨-, -, hkeeps⟩ := h.since _ hd
  obtain ⟨stage, hstage⟩ := hkeeps _ _ (.inr hcore)
  rw [Supervisor.cores, List.getElem?_map] at hstage
  obtain ⟨y, hy, hsame⟩ := Option.map_eq_some_iff.mp hstage
  injection hsame with hpipeline hmembers hruntime
  exact ⟨y, hy, hpipeline, hruntime, congrArg (List.map (·.process)) hmembers⟩

/-! ### As long as the clock reaches -/

/-- A start that succeeded is watched over, unless its monitor was to reckon a moment beyond the last one. Settings that
were accepted leave that to the longest interval and to the runtime, which nothing bounds. No script that a worker runs
breaks it down until shortly before the last moment: a budget that is read from where the supervisor has written it is
short enough; a longer one breaks whoever runs the script. -/
theorem monitored_as_far_as_clock_reaches (h : History config τ x) :
    (∀ k r, x.threads[k]? = some (.answered (.started (.ok r))) → ∃ o, Asked τ k r.pipeline o ∧
      ∃ (g : Nat) (y : Generation), x.supervisor.generations[g]? = some y ∧ y.pipeline = r.pipeline ∧
        y.runtime = o.runtime ∧ y.members.map (·.process) = r.processes ∧
          (y.monitor = .broken ↔ ∃ d ∈ τ, d.Overruns g) ∧ (x.supervisor.Reckons y → y.monitor ≠ .broken)) ∧
    (config.check = .ok () → x.supervisor.now + config.pollMax.nanos < Moment.horizon →
      ∀ y : Generation, (∀ r, y.runtime = some r → x.supervisor.now + r.nanos < Moment.horizon) →
        x.supervisor.Reckons y) ∧
    (∀ (now : Moment) (source : String) (budget : Duration), Script.loadAt? now source budget = none ↔
      Moment.horizon ≤ now + budget.nanos ∧
        ∃ p entry, Script.Parser.parse source = .ok p ∧ Script.entryOf p = .ok entry) ∧
    ∀ (p : Json.Place) (budget : Duration), Duration.decoder p (Json.Doc.ofJson config.stepBudget.json) = .ok budget →
      ∀ now : Moment, now + Text.bound64 * 1000000 ≤ Moment.horizon →
        (∀ source, Script.loadAt? now source budget = some (Script.load source budget)) ∧
          ∀ (l : Script.Loaded) (record : Json), l.budget = budget → l.runAt? now record = some (l.run record) := by
  refine ⟨fun k r hr => ?_, fun hcheck hpoll y hruntime => ?_, fun now source budget => Script.loadAt?_eq_none_iff,
    fun p budget hread now hnow => ?_⟩
  · obtain ⟨o, hasked, g, y, hy, hpipeline, hruntime, hmembers⟩ := h.exists_generation hr
    refine ⟨o, hasked, g, y, hy, hpipeline, hruntime, hmembers, ?_, h.not_broken hy⟩
    rw [← h.broken_iff g, hy]
    simp
  · rw [← h.config_eq] at hcheck hpoll
    exact Supervisor.reckons_of_lt (Config.check_eq_ok_iff.mp hcheck) hpoll hruntime
  · have hlt : now + budget.nanos < Moment.horizon :=
      Nat.lt_of_lt_of_le (Nat.add_lt_add_left (Duration.nanos_lt_of_written hread) now) hnow
    exact ⟨fun source => Script.loadAt?_of_lt hlt, fun l record hl => Script.Loaded.runAt?_of_lt (hl ▸ hlt) record⟩

def begun (o : StartOptions) : List Move :=
  .ask (.startOf 1 o) :: List.replicate 11 (.proceed 0 Scene.calm) ++ [.watch 0 false]

/-- A run of an hour is watched over. -/
theorem hour_monitored : ∃ τ x r, ∃ (g : Nat) (y : Generation), History {} τ x ∧ x.threads = [.answered (.started (.ok r))] ∧
    x.supervisor.generations[g]? = some y ∧ y.members.map (·.process) = r.processes ∧
      y.runtime = some (.ofSecs 3600) ∧ y.monitor ≠ .broken := by
  obtain ⟨x, r, hplayed, hthreads, hruntimes, hnow⟩ : ∃ x r,
      (begun ⟨some (.ofSecs 3600), none⟩).foldlM play (ofConfig {}) = some x ∧
        x.threads = [.answered (.started (.ok r))] ∧
          x.supervisor.generations.map (·.runtime) = [some (.ofSecs 3600)] ∧ x.supervisor.now = 0 :=
    ⟨_, _, rfl, rfl, rfl, rfl⟩
  have h := History.start.plays _ hplayed
  obtain ⟨hstarted, hreckons, -⟩ := monitored_as_far_as_clock_reaches h
  obtain ⟨o, -, g, y, hy, -, -, hmembers, -, hwhole⟩ := hstarted 0 r (by rw [hthreads]; rfl)
  have hruntime : y.runtime = some (.ofSecs 3600) := by
    have hmem := List.mem_map_of_mem (f := Generation.runtime) (List.mem_of_getElem? hy)
    rw [hruntimes] at hmem
    exact List.mem_singleton.mp hmem
  refine ⟨_, x, r, g, y, h, hthreads, hy, hmembers, hruntime, hwhole (hreckons ?_ ?_ y fun d hd => ?_)⟩
  · exact Config.check_eq_ok_iff.mpr Config.pollable_default
  · rw [hnow]
    decide
  · obtain rfl := Option.some.inj (hruntime.symm.trans hd)
    rw [hnow]
    decide

/-- A run that may go on for the longest time that can be asked for has been started, and nobody watches over it. With
an interval of as many seconds as a moment cannot have, that is so whatever the runtime; and a script with a budget of
as many seconds breaks down whoever loads it. The check accepts all of these settings. -/
theorem started_unmonitored :
    (∃ τ x r y, ({} : Config).check = .ok () ∧ History {} τ x ∧ x.threads = [.answered (.started (.ok r))] ∧
      x.supervisor.generations = [y] ∧ y.runtime = some (.ofSecs 18446744073709551615) ∧ y.monitor = .broken) ∧
    (∃ config τ x r y, Config.check config = .ok () ∧ History config τ x ∧
      x.threads = [.answered (.started (.ok r))] ∧ x.supervisor.generations = [y] ∧ y.runtime = none ∧
        y.monitor = .broken) ∧
    ∃ config : Config, config.check = .ok () ∧
      Script.loadAt? 0 "fn transform(x) \x7b x \x7d" config.stepBudget = none := by
  have haccepted (config : Config) (hmin : config.pollMin = .ofSecs 1) (hmax : .ofSecs 1 ≤ config.pollMax) :
      config.check = .ok () :=
    Config.check_eq_ok_iff.mpr ⟨hmin ▸ by decide, hmin ▸ hmax⟩
  refine ⟨?_, ?_, ?_⟩
  · obtain ⟨x, r, y, hplayed, hseen⟩ : ∃ x r y,
        (begun ⟨some (.ofSecs 18446744073709551615), none⟩).foldlM play (ofConfig {}) = some x ∧
          x.threads = [.answered (.started (.ok r))] ∧ x.supervisor.generations = [y] ∧
            y.runtime = some (.ofSecs 18446744073709551615) ∧ y.monitor = .broken :=
      ⟨_, _, _, rfl, rfl, rfl, rfl, rfl⟩
    exact ⟨_, x, r, y, haccepted {} rfl (by decide), History.start.plays _ hplayed, hseen⟩
  · obtain ⟨x, r, y, hplayed, hseen⟩ : ∃ x r y,
        (begun ⟨none, none⟩).foldlM play (ofConfig { pollMax := .ofSecs 9223372036854775808 }) = some x ∧
          x.threads = [.answered (.started (.ok r))] ∧ x.supervisor.generations = [y] ∧
            y.runtime = none ∧ y.monitor = .broken :=
      ⟨_, _, _, rfl, rfl, rfl, rfl, rfl⟩
    exact ⟨_, _, x, r, y, haccepted _ rfl (by decide), History.start.plays _ hplayed, hseen⟩
  · refine ⟨{ stepBudget := .ofSecs 9223372036854775808 }, haccepted _ rfl (by decide), ?_⟩
    have hnone : (Script.loadAt? 0 "fn transform(x) \x7b x \x7d" (.ofSecs 9223372036854775808)).isNone = true := by
      decide +kernel
    exact Option.isNone_iff_eq_none.mp hnone

end Threads

end Pipeworks
