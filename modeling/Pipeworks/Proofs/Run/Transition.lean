import Pipeworks.Run.Transition
import Mathlib.Order.Lattice
import Mathlib.Tactic.Common

/-!
What may be asked of a run. A transition changes the state of one run, or leaves it as it is, and tells whether it
moved the run; in the registry it changes the state that is kept under the number of the run and nothing else. A run
that has ended is not changed by any transition.
-/

namespace Pipeworks

namespace Transition

variable {t : Transition} {s : RunState}

/-! ### One run -/

section

open Registry.Entry (of)

theorem any_finish (s : RunState) (status : RunStatus) (message : String) (hstatus : status ≠ .completed) :
    (((of s).finish status message hstatus).any (·.2),
      (((of s).finish status message hstatus).map (·.1.state)).getD s) =
    if s.status.isTerminal then (false, s) else (true, { s with status, message }) := by
  cases h : s.status.isTerminal <;> simp [Registry.Entry.finish, of, Registry.Entry.move, h]

theorem act_markRunning (s : RunState) : markRunning.act s =
    if s.status = .starting then (true, { s with status := .running, message := "Pipeline running" })
    else (false, s) := by
  by_cases h : s.status = .starting <;>
    simp [act, change, Registry.Entry.markRunning, of, Registry.Entry.move, h]

theorem act_countSegment (s : RunState) : countSegment.act s =
    if s.status.isTerminal then (false, s)
    else if s.totalSegments ≤ s.completedSegments + 1 then
      (true, { s with
        status := .completed, message := "Pipeline completed", completedSegments := s.completedSegments + 1 })
    else (false, { s with completedSegments := s.completedSegments + 1 }) := by
  cases hterminal : s.status.isTerminal with
  | true => simp [act, change, Registry.Entry.countSegment, of, hterminal]
  | false =>
      have hstatus : s.status ≠ .completed := fun h => by simp [h, RunStatus.isTerminal] at hterminal
      by_cases hlast : s.totalSegments ≤ s.completedSegments + 1 <;>
        simp [act, change, Registry.Entry.countSegment, of, hterminal, hstatus, hlast]

theorem act_fail (message : String) (s : RunState) : (fail message).act s =
    if s.status.isTerminal then (false, s) else (true, { s with status := .failed, message }) :=
  any_finish s .failed message (by decide)

theorem act_abort (message : String) (s : RunState) : (abort message).act s =
    if s.status.isTerminal then (false, s) else (true, { s with status := .aborted, message }) :=
  any_finish s .aborted message (by decide)

end

/-- All that a transition may do to a run: nothing, when the run has ended or was running already; let it run; count
a segment that is not the last one; or end it. -/
theorem act_cases (t : Transition) (s : RunState) :
    ((s.status.isTerminal = true ∨ t = markRunning ∧ s.status ≠ .starting) ∧ t.act s = (false, s)) ∨
    (t = markRunning ∧ s.status = .starting ∧
      t.act s = (true, { s with status := .running, message := "Pipeline running" })) ∨
    (t = countSegment ∧ s.status.isTerminal = false ∧ s.completedSegments + 1 < s.totalSegments ∧
      t.act s = (false, { s with completedSegments := s.completedSegments + 1 })) ∨
    (t = countSegment ∧ s.status.isTerminal = false ∧ s.totalSegments ≤ s.completedSegments + 1 ∧
      t.act s = (true, { s with
        status := t.outcome.1, message := t.outcome.2, completedSegments := s.completedSegments + 1 })) ∨
    (t.ends = true ∧ t ≠ countSegment ∧ s.status.isTerminal = false ∧
      t.act s = (true, { s with status := t.outcome.1, message := t.outcome.2 })) := by
  cases hterminal : s.status.isTerminal with
  | true =>
      refine .inl ⟨.inl rfl, ?_⟩
      have hstarting : s.status ≠ .starting := by
        intro h
        rw [h] at hterminal
        exact absurd hterminal (by decide)
      cases t <;> simp [act_markRunning, act_countSegment, act_fail, act_abort, hterminal, hstarting]
  | false =>
      cases t with
      | markRunning =>
          by_cases hstarting : s.status = .starting
          · exact .inr (.inl ⟨rfl, hstarting, by rw [act_markRunning, if_pos hstarting]⟩)
          · exact .inl ⟨.inr ⟨rfl, hstarting⟩, by rw [act_markRunning, if_neg hstarting]⟩
      | countSegment =>
          by_cases hlast : s.totalSegments ≤ s.completedSegments + 1
          · exact .inr (.inr (.inr (.inl ⟨rfl, rfl, hlast, by simp [act_countSegment, hterminal, hlast, outcome]⟩)))
          · exact .inr (.inr (.inl ⟨rfl, rfl, not_le.mp hlast, by simp [act_countSegment, hterminal, hlast]⟩))
      | fail message => exact .inr (.inr (.inr (.inr ⟨rfl, by simp, rfl, by simp [act_fail, hterminal, outcome]⟩)))
      | abort message => exact .inr (.inr (.inr (.inr ⟨rfl, by simp, rfl, by simp [act_abort, hterminal, outcome]⟩)))

theorem act_of_terminal (h : s.status.isTerminal = true) (t : Transition) : t.act s = (false, s) := by
  obtain ⟨-, hact⟩ | ⟨-, hstarting, -⟩ | ⟨-, hopen, -⟩ | ⟨-, hopen, -⟩ | ⟨-, -, hopen, -⟩ := act_cases t s
  · exact hact
  · rw [hstarting] at h
    exact absurd h (by decide)
  all_goals exact absurd (hopen.symm.trans h) (by simp)

theorem isTerminal_outcome (h : t.ends = true) : t.outcome.1.isTerminal = true := by
  cases t with
  | markRunning => exact absurd h (by decide)
  | _ => rfl

theorem totalSegments_act (t : Transition) (s : RunState) : (t.act s).2.totalSegments = s.totalSegments := by
  obtain ⟨-, hact⟩ | ⟨-, -, hact⟩ | ⟨-, -, -, hact⟩ | ⟨-, -, -, hact⟩ | ⟨-, -, -, hact⟩ := act_cases t s <;> rw [hact]

theorem pipeline_act (t : Transition) (s : RunState) : (t.act s).2.pipeline = s.pipeline := by
  obtain ⟨-, hact⟩ | ⟨-, -, hact⟩ | ⟨-, -, -, hact⟩ | ⟨-, -, -, hact⟩ | ⟨-, -, -, hact⟩ := act_cases t s <;> rw [hact]

theorem completedSegments_act (t : Transition) (s : RunState) :
    (t.act s).2.completedSegments =
      s.completedSegments + if t = countSegment ∧ s.status.isTerminal = false then 1 else 0 := by
  obtain ⟨hidle, hact⟩ | ⟨rfl, -, hact⟩ | ⟨rfl, hopen, -, hact⟩ | ⟨rfl, hopen, -, hact⟩ | ⟨-, hne, -, hact⟩ :=
    act_cases t s <;> rw [hact]
  · have hnot : ¬(t = countSegment ∧ s.status.isTerminal = false) := by
      rintro ⟨rfl, hopen⟩
      simp [hopen] at hidle
    rw [if_neg hnot, Nat.add_zero]
  · rw [if_neg (by simp), Nat.add_zero]
  · rw [if_pos ⟨rfl, hopen⟩]
  · rw [if_pos ⟨rfl, hopen⟩]
  · rw [if_neg fun h => hne h.1, Nat.add_zero]

theorem isTerminal_act (t : Transition) (s : RunState) :
    (t.act s).2.status.isTerminal = (s.status.isTerminal || t.ends && (t.act s).1) := by
  obtain ⟨-, hact⟩ | ⟨rfl, hstarting, hact⟩ | ⟨-, -, -, hact⟩ | ⟨rfl, -, -, hact⟩ | ⟨hends, -, -, hact⟩ :=
    act_cases t s <;> rw [hact]
  · simp
  · rw [hstarting]
    rfl
  · simp
  · simp [ends, outcome, RunStatus.isTerminal]
  · simp [hends, isTerminal_outcome hends]

theorem outcome_act (hends : t.ends = true) (hmoved : (t.act s).1 = true) :
    ((t.act s).2.status, (t.act s).2.message) = t.outcome := by
  obtain ⟨-, hact⟩ | ⟨rfl, -, hact⟩ | ⟨-, -, -, hact⟩ | ⟨-, -, -, hact⟩ | ⟨-, -, -, hact⟩ := act_cases t s
  · exact absurd (hact ▸ hmoved) (by simp)
  · exact absurd hends (by decide)
  · exact absurd (hact ▸ hmoved) (by simp)
  · rw [hact]
  · rw [hact]

theorem countSegment_moves_iff :
    (countSegment.act s).1 = true ↔
      s.status.isTerminal = false ∧ s.totalSegments ≤ s.completedSegments + 1 := by
  obtain ⟨hterminal | ⟨h, -⟩, hact⟩ | ⟨h, -⟩ | ⟨-, hopen, hmore, hact⟩ | ⟨-, hopen, hlast, hact⟩ | ⟨-, h, -⟩ :=
    act_cases countSegment s
  · simp [hact, hterminal]
  · cases h
  · cases h
  · simp [hact, hopen, hmore]
  · simp [hact, hopen, hlast]
  · exact absurd rfl h

end Transition

inductive RunStatus.Moves : RunStatus → RunStatus → Prop where
  | runs : Moves .starting .running
  | ends {before after : RunStatus} (hbefore : before.isTerminal = false) (hafter : after.isTerminal = true) :
      Moves before after

theorem Transition.status_act (t : Transition) (s : RunState) :
    (t.act s).2.status = s.status ∨ s.status.Moves (t.act s).2.status := by
  obtain ⟨-, hact⟩ | ⟨-, hstarting, hact⟩ | ⟨-, -, -, hact⟩ | ⟨rfl, hopen, -, hact⟩ | ⟨hends, -, hopen, hact⟩ :=
    act_cases t s <;> rw [hact]
  · exact .inl rfl
  · exact .inr (hstarting ▸ .runs)
  · exact .inl rfl
  · exact .inr (.ends hopen rfl)
  · exact .inr (.ends hopen (isTerminal_outcome hends))

/-- Only a segment that is counted completes a run. -/
theorem Transition.eq_countSegment {t : Transition} {s : RunState} (hs : s.status ≠ .completed)
    (h : (t.act s).2.status = .completed) : t = .countSegment := by
  obtain ⟨-, hact⟩ | ⟨-, -, hact⟩ | ⟨rfl, -⟩ | ⟨rfl, -⟩ | ⟨-, hne, -, hact⟩ := act_cases t s
  · rw [hact] at h
    exact absurd h hs
  · rw [hact] at h
    cases h
  · rfl
  · rfl
  · rw [hact] at h
    cases t with
    | countSegment => exact absurd rfl hne
    | _ => cases h

/-! ### The registry -/

namespace Registry

variable {r : Registry} {id id' : PipelineId}

theorem kept?_set (r : Registry) (id id' : PipelineId) (e : Entry) :
    (r.set id e).kept? id' = if id' = id then some e else r.kept? id' :=
  Keyed.lookup_put id id' e r.runs

theorem get?_set (r : Registry) (id id' : PipelineId) (e : Entry) :
    (r.set id e).get? id' = if id' = id then some e.state else r.get? id' := by
  rw [get?, kept?_set, get?]
  split <;> rfl

/-- What is given for a run that is made known is its state from then on. -/
theorem enter_fst (r : Registry) (id : PipelineId) (segments : Nat) :
    (r.enter id segments).1 = (r.get? id).getD (RunState.initial id segments) := by
  rw [enter, get?]
  cases r.kept? id <;> rfl

theorem get?_init (r : Registry) (id id' : PipelineId) (segments : Nat) :
    (r.init id segments).get? id' =
      if id' = id then some ((r.get? id).getD (RunState.initial id segments)) else r.get? id' := by
  rw [init, enter]
  cases hkept : r.kept? id with
  | some e =>
      have hget : r.get? id = some e.state := by rw [get?, hkept, Option.map_some]
      split_ifs with hid
      · rw [hid, hget, Option.getD_some]
      · rfl
  | none =>
      have hget : r.get? id = none := by rw [get?, hkept, Option.map_none]
      rw [get?_set, hget]
      rfl

theorem get?_reset (r : Registry) (id id' : PipelineId) :
    (r.reset id).get? id' = if id' = id then none else r.get? id' := by
  rw [get?, kept?, reset, Keyed.lookup_filter_ne, get?, kept?]
  split <;> rfl

end Registry

namespace Transition

open Registry.Entry (of_state)

variable {r : Registry} {id : PipelineId}

theorem call_eq_update (t : Transition) (r : Registry) (id : PipelineId) : t.call r id = r.update id t.change := by
  cases t <;> rfl

/-- A transition in the registry tells whether it moved the run that is known under the number. -/
theorem call_fst (t : Transition) (r : Registry) (id : PipelineId) :
    (t.call r id).1 = (r.get? id).any fun s => (t.act s).1 := by
  rw [call_eq_update, Registry.update, Registry.get?]
  cases hkept : r.kept? id with
  | none => rfl
  | some e =>
      rw [Option.bind_some, Option.map_some, Option.any_some, act, of_state]
      cases t.change e <;> rfl

theorem get?_call (t : Transition) (r : Registry) (id id' : PipelineId) :
    (t.call r id).2.get? id' = if id' = id then (r.get? id).map fun s => (t.act s).2 else r.get? id' := by
  rw [call_eq_update, Registry.update]
  cases hkept : r.kept? id with
  | none =>
      have hget : r.get? id = none := by rw [Registry.get?, hkept, Option.map_none]
      rw [Option.bind_none, hget]
      split_ifs with hid
      · exact hid ▸ hget
      · rfl
  | some e =>
      have hget : r.get? id = some e.state := by rw [Registry.get?, hkept, Option.map_some]
      rw [Option.bind_some, hget, Option.map_some, act, of_state]
      cases t.change e with
      | none =>
          split_ifs with hid
          · exact hid ▸ hget
          · rfl
      | some changed => exact Registry.get?_set r id id' changed.1

end Transition

end Pipeworks
