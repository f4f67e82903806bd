import Pipeworks.Config
import Mathlib.Tactic.Common

/-!
Polling. Settings that pass the check have a positive lower bound between polls that is not above the upper one. So a
tenth of any runtime can be brought within the bounds, and no run is polled without a pause. The options of a command
move the upper bound and take the lower one along; what they yield passes the check as well.
-/

namespace Pipeworks

namespace Duration

theorem le_def {a b : Duration} : a ≤ b ↔ a.nanos ≤ b.nanos := Iff.rfl

theorem lt_def {a b : Duration} : a < b ↔ a.nanos < b.nanos := Iff.rfl

def clamp? (low high d : Duration) : Option Duration :=
  if low ≤ high then some (if d < low then low else if high < d then high else d) else none

end Duration

namespace Config

variable {c c' : Config} {o : Overrides}

/-- The time between two polls, where a bound above the other one yields none. -/
def interval? (c : Config) : Option Duration → Option Duration
  | none => some c.pollMax
  | some runtime => Duration.clamp? c.pollMin c.pollMax ⟨runtime.nanos / 10⟩

structure Pollable (c : Config) : Prop where
  positive : 0 < c.pollMin.nanos
  ordered : c.pollMin ≤ c.pollMax

/-- What a run can rely on, whatever its runtime. A run without one is polled like one that is longer than any. -/
structure Usable (c : Config) : Prop where
  bounds : c.Pollable
  computed : ∀ runtime, c.interval? runtime = some (c.pollInterval runtime)
  atLeast : ∀ runtime, c.pollMin ≤ c.pollInterval runtime
  atMost : ∀ runtime, c.pollInterval runtime ≤ c.pollMax
  pauses : ∀ runtime, 0 < (c.pollInterval runtime).nanos
  monotone : ∀ r r' : Duration, r ≤ r' → c.pollInterval (some r) ≤ c.pollInterval (some r')
  unlimited : ∀ r : Duration, c.pollInterval (some r) ≤ c.pollInterval none

theorem check_eq_ok_iff : c.check = .ok () ↔ c.Pollable := by
  unfold check
  split
  case isTrue hlt =>
    refine ⟨nofun, fun h => absurd (Duration.le_def.mp h.ordered) ?_⟩
    rw [Duration.lt_def] at hlt
    omega
  case isFalse hle =>
    rw [Duration.lt_def] at hle
    split
    case isTrue hzero => exact ⟨nofun, fun h => absurd h.positive (by omega)⟩
    case isFalse hpos => exact ⟨fun _ => ⟨by omega, Duration.le_def.mpr (by omega)⟩, fun _ => rfl⟩

theorem pollable_default : ({} : Config).Pollable := ⟨by decide, by decide⟩

/-! ### Between the bounds -/

theorem interval?_eq (h : c.Pollable) (runtime : Option Duration) :
    c.interval? runtime = some (c.pollInterval runtime) := by
  cases runtime with
  | none => rfl
  | some runtime => simp only [interval?, Duration.clamp?, if_pos h.ordered, pollInterval]

theorem nanos_pollInterval (h : c.Pollable) (runtime : Duration) :
    (c.pollInterval (some runtime)).nanos = max c.pollMin.nanos (min c.pollMax.nanos (runtime.nanos / 10)) := by
  have hle := Duration.le_def.mp h.ordered
  simp only [pollInterval, Duration.lt_def]
  split
  case isTrue hlow => omega
  case isFalse hlow =>
    split
    case isTrue hhigh => omega
    case isFalse hhigh => change runtime.nanos / 10 = _; omega

theorem pollMin_le_pollInterval (h : c.Pollable) (runtime : Option Duration) :
    c.pollMin ≤ c.pollInterval runtime := by
  cases runtime with
  | none => exact h.ordered
  | some runtime => rw [Duration.le_def, nanos_pollInterval h]; omega

theorem pollInterval_le_pollMax (h : c.Pollable) (runtime : Option Duration) :
    c.pollInterval runtime ≤ c.pollMax := by
  cases runtime with
  | none => exact Nat.le_refl _
  | some runtime =>
      have hle := Duration.le_def.mp h.ordered
      rw [Duration.le_def, nanos_pollInterval h]
      omega

theorem pollInterval_mono (h : c.Pollable) {r r' : Duration} (hle : r ≤ r') :
    c.pollInterval (some r) ≤ c.pollInterval (some r') := by
  have htenth : r.nanos / 10 ≤ r'.nanos / 10 := Nat.div_le_div_right hle
  rw [Duration.le_def, nanos_pollInterval h, nanos_pollInterval h]
  omega

theorem Pollable.usable (h : c.Pollable) : c.Usable where
  bounds := h
  computed := interval?_eq h
  atLeast := pollMin_le_pollInterval h
  atMost := pollInterval_le_pollMax h
  pauses runtime := Nat.lt_of_lt_of_le h.positive (pollMin_le_pollInterval h runtime)
  monotone _ _ := pollInterval_mono h
  unlimited r := pollInterval_le_pollMax h (some r)

/-! ### Where settings come from -/

theorem check_of_ofToml {text : String} (h : ofToml text = .ok c) : c.check = .ok () := by
  rw [ofToml] at h
  cases hp : parse text with
  | error e => rw [hp] at h; exact nomatch h
  | ok c' =>
      rw [hp] at h
      obtain rfl : c' = c := by injection h
      rw [parse] at hp
      cases hread : ((Toml.Document.parse text).bind (·.decode format)).mapError Refusal.unreadable with
      | error e => rw [hread] at hp; exact nomatch hp
      | ok d =>
          rw [hread] at hp
          cases hcheck : d.check with
          | error e => simp [hcheck, Except.mapError, bind, Except.bind] at hp
          | ok u =>
              simp only [hcheck, Except.mapError, bind, Except.bind, pure, Except.pure] at hp
              obtain rfl : d = c' := by injection hp
              exact hcheck

def overlaid (c : Config) (o : Overrides) : Config :=
  { c with
    endpoint := o.endpoint <|> c.endpoint
    gracePeriod := o.gracePeriod.getD c.gracePeriod
    pollMax := o.pollMax.getD c.pollMax
    pollMin := match o.pollMax with
      | some limit => Duration.min c.pollMin limit
      | none => c.pollMin }

theorem override_eq (c : Config) (o : Overrides) :
    c.override o = (c.overlaid o).check.map fun _ => c.overlaid o := by
  obtain ⟨endpoint, grace, limit⟩ := o
  cases endpoint <;> cases grace <;> cases limit <;> rfl

theorem override_eq_ok_iff : c.override o = .ok c' ↔ c' = c.overlaid o ∧ (c.overlaid o).Pollable := by
  rw [override_eq, ← check_eq_ok_iff]
  cases (c.overlaid o).check with
  | error e => simp [Except.map]
  | ok u => simp [Except.map, eq_comm]

/-- Only an upper bound of nothing spoils settings that were good. -/
theorem pollable_overlaid_iff (h : c.Pollable) : (c.overlaid o).Pollable ↔ o.pollMax ≠ some ⟨0⟩ := by
  have hpos := h.positive
  have hle := Duration.le_def.mp h.ordered
  obtain ⟨endpoint, grace, limit⟩ := o
  cases limit with
  | none => exact ⟨fun _ => nofun, fun _ => ⟨hpos, hle⟩⟩
  | some limit =>
      have hmin : (Duration.min c.pollMin limit).nanos = min c.pollMin.nanos limit.nanos := by
        simp only [Duration.min, Duration.lt_def]
        split <;> omega
      have hzero : limit = ⟨0⟩ ↔ limit.nanos = 0 := by cases limit; simp
      constructor
      · rintro ⟨hpositive, -⟩ heq
        change 0 < (Duration.min c.pollMin limit).nanos at hpositive
        have := hzero.mp (Option.some.inj heq)
        omega
      · intro hne
        have : limit.nanos ≠ 0 := fun hlimit => hne (congrArg some (hzero.mpr hlimit))
        refine ⟨?_, ?_⟩
        · change 0 < (Duration.min c.pollMin limit).nanos
          omega
        · change (Duration.min c.pollMin limit).nanos ≤ limit.nanos
          omega

/-- Settings that were accepted, and those that a command makes of them, have a time between polls for every runtime:
within the bounds, never nothing, and no shorter for a longer run. A command is refused only for an upper bound of
nothing. -/
theorem polls_at_usable_intervals :
    (∀ text c, ofToml text = .ok c → c.check = .ok ()) ∧ ({} : Config).check = .ok () ∧
      ∀ c : Config, c.check = .ok () → c.Usable ∧
        ∀ o : Overrides, ((∃ c', c.override o = .ok c') ↔ o.pollMax ≠ some ⟨0⟩) ∧
          ∀ c', c.override o = .ok c' → c' = c.overlaid o ∧ c'.check = .ok () ∧ c'.Usable := by
  refine ⟨fun _ _ => check_of_ofToml, check_eq_ok_iff.mpr pollable_default, fun c hcheck => ?_⟩
  have hc := check_eq_ok_iff.mp hcheck
  refine ⟨hc.usable, fun o => ⟨?_, fun c' hover => ?_⟩⟩
  · rw [← pollable_overlaid_iff hc]
    exact ⟨fun ⟨_, hover⟩ => (override_eq_ok_iff.mp hover).2, fun hover => ⟨_, override_eq_ok_iff.mpr ⟨rfl, hover⟩⟩⟩
  · obtain ⟨rfl, hpollable⟩ := override_eq_ok_iff.mp hover
    exact ⟨rfl, check_eq_ok_iff.mpr hpollable, hpollable.usable⟩

/-- A document with an upper bound of two seconds, over which a command sets one of 200 ms. -/
theorem polls_at_usable_intervals_lowered :
    ∃ c c' : Config, ofToml "poll_max = \"2s\"" = .ok c ∧
      c.override { pollMax := some (.ofMillis 200) } = .ok c' ∧ c'.Usable ∧
        c'.pollInterval none = .ofMillis 200 := by
  obtain ⟨hdocument, -, haccepted⟩ := polls_at_usable_intervals
  obtain ⟨c, hc⟩ : ∃ c, ofToml "poll_max = \"2s\"" = .ok c := by
    have hread : (ofToml "poll_max = \"2s\"").isOk = true := by decide +kernel
    cases h : ofToml "poll_max = \"2s\"" with
    | ok c => exact ⟨c, rfl⟩
    | error e => rw [h] at hread; exact nomatch hread
  obtain ⟨-, hover⟩ := haccepted c (hdocument _ c hc)
  obtain ⟨hiff, hyields⟩ := hover { pollMax := some (.ofMillis 200) }
  obtain ⟨c', hc'⟩ := hiff.mpr (by decide)
  obtain ⟨rfl, -, husable⟩ := hyields c' hc'
  exact ⟨c, _, hc, hc', husable, rfl⟩

end Config

end Pipeworks
