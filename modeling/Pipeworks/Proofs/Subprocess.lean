import Pipeworks.Subprocess
import Mathlib.Order.Lattice
import Mathlib.Tactic.Common

/-!
What time, signals and looking do to a process. How a process ended never changes, whoever looked at it has seen
nothing but how it ended, nobody takes back that it was asked to stop, and a process that was killed has ended. `Later`
says this of a process at one moment and the same process at a later one.
-/

namespace Pipeworks

namespace Child

variable {c : Child} {now now' : Moment} {e : ExitStatus}

theorem status?_eq_some : c.status? now = some e ↔ ∃ m, c.fate = some (m, e) ∧ m ≤ now := by
  rw [status?]
  cases hfate : c.fate with
  | none => simp
  | some f =>
      obtain ⟨m, e'⟩ := f
      by_cases hm : m ≤ now <;> simp [Option.filter, hm, and_comm]

theorem status?_mono (hle : now ≤ now') (h : c.status? now = some e) : c.status? now' = some e := by
  obtain ⟨m, hfate, hm⟩ := status?_eq_some.mp h
  exact status?_eq_some.mpr ⟨m, hfate, le_trans hm hle⟩

theorem status?_receive (signal : Nat) (h : c.status? now = some e) : (c.receive now signal).status? now = some e := by
  rw [receive, if_neg (by simp [h])]
  exact h

/-- A signal that a living process heeds ends it at once. -/
theorem status?_receive_of_heeds {signal : Nat} (hheeds : c.heeds signal = true) (h : c.status? now = none) :
    (c.receive now signal).status? now = some (.signal signal) := by
  rw [receive, if_pos ⟨by simp [h], hheeds⟩]
  exact status?_eq_some.mpr ⟨now, rfl, le_refl _⟩

theorem heeds_kill : c.heeds Signal.kill = true := by
  have hharmful : Signal.kill ∉ Signal.harmless := by decide
  have hother : Signal.kill ≠ Signal.term := by decide
  simp [heeds, hharmful, hother]

end Child

namespace Subprocess

variable {now now' now'' : Moment} {p q r : Subprocess}

/-- What was seen of the end of a process is how it ended. -/
def Honest (now : Moment) (p : Subprocess) : Prop := ∀ e, p.exit = some e → p.child.status? now = some e

structure Later (now now' : Moment) (p q : Subprocess) : Prop where
  ended : ∀ e, p.child.status? now = some e → q.child.status? now' = some e
  honest : p.Honest now → q.Honest now'
  asked : p.stopRequested = true → q.stopRequested = true

namespace Later

theorem refl (now : Moment) (p : Subprocess) : Later now now p p := ⟨fun _ h => h, fun h => h, fun h => h⟩

theorem trans (h : Later now now' p q) (h' : Later now' now'' q r) : Later now now'' p r :=
  ⟨fun e he => h'.ended e (h.ended e he), fun hp => h'.honest (h.honest hp), fun hp => h'.asked (h.asked hp)⟩

theorem alive (h : Later now now' p q) (hq : q.child.status? now' = none) : p.child.status? now = none := by
  cases hp : p.child.status? now with
  | none => rfl
  | some e => rw [h.ended e hp] at hq; exact absurd hq (by simp)

theorem pass (hle : now ≤ now') (p : Subprocess) : Later now now' p p :=
  ⟨fun _ he => Child.status?_mono hle he, fun h e he => Child.status?_mono hle (h e he), fun h => h⟩

theorem poll (now : Moment) (p : Subprocess) : Later now now p (p.poll now).2 := by
  refine ⟨fun _ h => h, fun h e he => ?_, fun h => h⟩
  rcases Option.or_eq_some_iff.mp he with he | ⟨-, he⟩
  · exact h e he
  · exact he

theorem receive (now : Moment) (signal : Nat) (p : Subprocess) : Later now now p (p.receive now signal) :=
  ⟨fun _ he => Child.status?_receive signal he, fun h e he => Child.status?_receive signal (h e he), fun h => h⟩

theorem isAlive (now : Moment) (p : Subprocess) : Later now now p (p.isAlive now).2 := poll now p

theorem exitedUnexpectedly (now : Moment) (p : Subprocess) : Later now now p (p.exitedUnexpectedly now).2 := by
  rw [Subprocess.exitedUnexpectedly]
  split_ifs
  · exact refl now p
  · exact poll now p

theorem failed (now : Moment) (p : Subprocess) : Later now now p (p.failed now).2 := exitedUnexpectedly now p

theorem requestStop (now : Moment) (p : Subprocess) : Later now now p (p.requestStop now) := by
  have hpoll := poll now p
  rw [Subprocess.requestStop]
  split
  rename_i status p' heq
  rw [heq] at hpoll
  split_ifs
  · exact ⟨hpoll.ended, hpoll.honest, fun _ => rfl⟩
  · exact hpoll

theorem terminate (now : Moment) (p : Subprocess) : Later now now p (p.terminate now) :=
  (requestStop now p).trans (receive now _ _)

theorem kill (now : Moment) (p : Subprocess) : Later now now p (p.kill now) :=
  (requestStop now p).trans (receive now _ _)

end Later

theorem exit_launch {label : String} {r : Except FileError Program} (h : launch label now r = .ok p) :
    p.exit = none := by
  cases r with
  | error e => exact absurd h (by simp [launch])
  | ok program =>
      obtain rfl := Except.ok.inj h
      rfl

theorem Honest.poll_eq_none (h : p.Honest now) : (p.poll now).1 = none ↔ p.child.status? now = none := by
  change p.exit.or (p.child.status? now) = none ↔ _
  rw [Option.or_eq_none_iff]
  refine and_iff_right_of_imp fun hnone => ?_
  cases hexit : p.exit with
  | none => rfl
  | some e => rw [h e hexit] at hnone; exact absurd hnone (by simp)

theorem isAlive_iff (h : p.Honest now) : (p.isAlive now).1 = true ↔ p.child.status? now = none := by
  rw [← h.poll_eq_none]
  exact Option.isNone_iff_eq_none

theorem status?_kill_ne_none (now : Moment) (p : Subprocess) : (p.kill now).child.status? now ≠ none := by
  have hlater := Later.receive now Signal.kill (p.requestStop now)
  cases hstatus : (p.requestStop now).child.status? now with
  | none =>
      have hended := Child.status?_receive_of_heeds Child.heeds_kill hstatus
      intro hnone
      exact absurd (hended.symm.trans hnone) (by simp)
  | some e =>
      intro hnone
      exact absurd ((hlater.ended e hstatus).symm.trans hnone) (by simp)

end Subprocess

namespace Shutdown

variable {grace : Duration} {now : Moment} {stage stage' : Shutdown} {p q : Subprocess}

theorem later_start (grace : Duration) (now : Moment) (p : Subprocess) :
    Subprocess.Later now now p (Shutdown.start grace now p).2 := Subprocess.Later.terminate now p

/-- A shutdown goes on from asking to killing, and what was killed is gone. -/
theorem next_later (h : stage.next grace now p = .later stage' q) :
    Subprocess.Later now now p q ∧ q.child.status? now ≠ none := by
  unfold next at h
  split at h
  · exact absurd h (by simp)
  · split_ifs at h
    cases stage with
    | asked limit =>
        obtain ⟨-, rfl⟩ := Shutdown.Next.later.inj h
        exact ⟨.kill now p, Subprocess.status?_kill_ne_none now p⟩
    | killed limit => exact absurd h (by simp)

/-- A shutdown is over when the process was seen to have ended, unless the process was killed. -/
theorem next_done {status : Option ExitStatus} (h : stage.next grace now p = .done status q) :
    Subprocess.Later now now p q ∧
      (p.Honest now → (∃ limit, stage = .killed limit) ∨ p.child.status? now ≠ none) := by
  have hpoll := Subprocess.Later.poll now p
  have hseen (hp : p.Honest now) := hp.poll_eq_none
  unfold next at h
  split at h
  · rename_i e p' heq
    rw [heq] at hpoll hseen
    obtain ⟨-, rfl⟩ := Shutdown.Next.done.inj h
    refine ⟨hpoll, fun hp => .inr fun hnone => ?_⟩
    exact absurd ((hseen hp).mpr hnone) (by simp)
  · split_ifs at h
    cases stage with
    | asked limit => exact absurd h (by simp)
    | killed limit =>
        obtain ⟨-, rfl⟩ := Shutdown.Next.done.inj h
        exact ⟨.refl now p, fun _ => .inl ⟨limit, rfl⟩⟩

end Shutdown

end Pipeworks
