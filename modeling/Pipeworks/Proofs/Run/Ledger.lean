import Pipeworks.Run.Ledger
import Pipeworks.Proofs.Run.Transition
import Mathlib.Data.List.Induction
import Mathlib.Order.MinMax

/-!
Calls on the registry that overlap. Whatever the calls are and however their steps are mixed, the first call that ends
a run decides how it ended, and one call at most does. The registry is the part of the ledger that is known.
-/

namespace Pipeworks

/-! ### The calls on one record -/

namespace RunRecord

/-- The first call that ended the run is the only one, and its outcome is the one of the run; segments are counted up
to the goal, and the call that reaches it is told so. -/
structure Orderly (r : RunRecord) : Prop where
  counted_eq : r.verdicts.countP Verdict.counted = r.state.completedSegments
  completed_le : r.state.completedSegments ≤ r.goal
  completed_lt : r.state.status.isTerminal = false → r.state.completedSegments < r.goal
  decisive_eq : r.verdicts.countP Verdict.decisive = if r.state.status.isTerminal then 1 else 0
  outcome_eq : ∀ v ∈ r.verdicts, v.decisive = true → (r.state.status, r.state.message) = v.transition.outcome
  last_segment : ∀ i v, r.verdicts[i]? = some v → v.transition = .countSegment →
    (v.moved = true ↔ v.counted = true ∧ (r.verdicts.take i).countP Verdict.counted + 1 = r.goal)

variable {r : RunRecord}

theorem orderly_new (id : PipelineId) (segments : Nat) : (new id segments).Orderly where
  counted_eq := rfl
  completed_le := Nat.zero_le _
  completed_lt _ := lt_of_lt_of_le Nat.one_pos (le_max_right _ _)
  decisive_eq := rfl
  outcome_eq v hv := absurd hv List.not_mem_nil
  last_segment i v hv := by simp [new] at hv

theorem goal_ask (r : RunRecord) (t : Transition) : (r.ask t).goal = r.goal := by
  rw [goal, goal, ask, Transition.totalSegments_act]

theorem Orderly.ended (h : r.Orderly) {v : Verdict} (hv : v ∈ r.verdicts) (hdecisive : v.decisive = true) :
    r.state.status.isTerminal = true := by
  have hpos : 0 < r.verdicts.countP Verdict.decisive := List.countP_pos_iff.mpr ⟨v, hv, hdecisive⟩
  rw [h.decisive_eq] at hpos
  by_contra hopen
  simp [hopen] at hpos

theorem counted_verdict (r : RunRecord) (t : Transition) :
    (r.verdict t).counted = decide (t = .countSegment ∧ r.state.status.isTerminal = false) := rfl

theorem verdicts_ask (r : RunRecord) (t : Transition) : (r.ask t).verdicts = r.verdicts ++ [r.verdict t] := rfl

theorem Orderly.ask (h : r.Orderly) (t : Transition) : (r.ask t).Orderly where
  counted_eq := by
    rw [verdicts_ask, List.countP_append, h.counted_eq, List.countP_singleton]
    show _ = (t.act r.state).2.completedSegments
    rw [Transition.completedSegments_act]
    simp only [counted_verdict, decide_eq_true_eq]
  completed_le := by
    rw [goal_ask]
    show (t.act r.state).2.completedSegments ≤ r.goal
    rw [Transition.completedSegments_act]
    split_ifs with hcount
    · exact h.completed_lt hcount.2
    · exact h.completed_le
  completed_lt hopen := by
    rw [goal_ask]
    replace hopen : (t.act r.state).2.status.isTerminal = false := hopen
    show (t.act r.state).2.completedSegments < r.goal
    rw [Transition.isTerminal_act, Bool.or_eq_false_iff] at hopen
    rw [Transition.completedSegments_act]
    split_ifs with hcount
    · obtain ⟨rfl, hbefore⟩ := hcount
      have hmore : ¬r.state.totalSegments ≤ r.state.completedSegments + 1 := by
        intro hlast
        have hmoved := Transition.countSegment_moves_iff.mpr ⟨hbefore, hlast⟩
        simp [hmoved, Transition.ends] at hopen
      exact lt_max_iff.mpr <| .inl (not_le.mp hmore)
    · exact h.completed_lt hopen.1
  decisive_eq := by
    rw [verdicts_ask, List.countP_append, h.decisive_eq, List.countP_singleton]
    show _ = if (t.act r.state).2.status.isTerminal then 1 else 0
    rw [Transition.isTerminal_act]
    cases hterminal : r.state.status.isTerminal with
    | true => simp [verdict, Verdict.decisive, Transition.act_of_terminal hterminal]
    | false => simp [verdict, Verdict.decisive]
  outcome_eq v hv hdecisive := by
    show ((t.act r.state).2.status, (t.act r.state).2.message) = v.transition.outcome
    rw [verdicts_ask, List.mem_append, List.mem_singleton] at hv
    obtain hearlier | rfl := hv
    · -- the run had ended, so the new call leaves it as it is
      rw [Transition.act_of_terminal (h.ended hearlier hdecisive)]
      exact h.outcome_eq v hearlier hdecisive
    · rw [Verdict.decisive, Bool.and_eq_true] at hdecisive
      exact Transition.outcome_act hdecisive.1 hdecisive.2
  last_segment i v hv hcount := by
    rw [goal_ask]
    rw [verdicts_ask] at hv ⊢
    -- an earlier call decided before this one, and of the last call the count tells
    obtain hi | hi := lt_or_ge i r.verdicts.length
    · rw [List.getElem?_append_left hi] at hv
      rw [List.take_append_of_le_length hi.le]
      exact h.last_segment i v hv hcount
    · have hlast : i = r.verdicts.length ∧ v = r.verdict t := by
        rw [List.getElem?_append_right hi, List.getElem?_singleton] at hv
        split_ifs at hv with hzero
        · exact ⟨by omega, (Option.some.inj hv).symm⟩
      obtain ⟨rfl, rfl⟩ := hlast
      obtain rfl : t = .countSegment := hcount
      show (Transition.countSegment.act r.state).1 = true ↔ _
      rw [Transition.countSegment_moves_iff, counted_verdict, decide_eq_true_eq, List.take_left' rfl, h.counted_eq]
      constructor
      · rintro ⟨hopen, hreached⟩
        have hbelow := h.completed_lt hopen
        exact ⟨⟨rfl, hopen⟩, by rw [goal] at *; omega⟩
      · rintro ⟨⟨-, hopen⟩, hgoal⟩
        exact ⟨hopen, by rw [goal] at hgoal; omega⟩

/-- What a record may become: its run stays the same one, the calls on it stay in their order, and nothing of the state
changes once the run has ended. -/
structure Becomes (r r' : RunRecord) : Prop where
  pipeline_eq : r'.state.pipeline = r.state.pipeline
  total_eq : r'.state.totalSegments = r.state.totalSegments
  calls_kept : r.verdicts <+: r'.verdicts
  ended_stays : r.state.status.isTerminal = true → r'.state = r.state

theorem Becomes.refl (r : RunRecord) : r.Becomes r := ⟨rfl, rfl, List.prefix_rfl, fun _ => rfl⟩

theorem Becomes.trans {r₁ r₂ r₃ : RunRecord} (h₁ : r₁.Becomes r₂) (h₂ : r₂.Becomes r₃) : r₁.Becomes r₃ where
  pipeline_eq := h₂.pipeline_eq.trans h₁.pipeline_eq
  total_eq := h₂.total_eq.trans h₁.total_eq
  calls_kept := h₁.calls_kept.trans h₂.calls_kept
  ended_stays h := by
    have heq := h₁.ended_stays h
    rw [h₂.ended_stays (heq ▸ h), heq]

theorem becomes_ask (r : RunRecord) (t : Transition) : r.Becomes (r.ask t) where
  pipeline_eq := Transition.pipeline_act t r.state
  total_eq := Transition.totalSegments_act t r.state
  calls_kept := List.prefix_append _ _
  ended_stays h := congrArg Prod.snd (Transition.act_of_terminal h t)

end RunRecord

/-! ### All records -/

namespace Ledger

variable {l : Ledger} {id id' : PipelineId} {k : Nat} {r : RunRecord}

theorem after_concat (steps : List Act) (a : Act) : after (steps ++ [a]) = (after steps).act a := by
  rw [after, acts, List.foldl_append]
  rfl

/-! ### What a step does to the records -/

theorem act_init_of_known (h : l.known id = some k) (segments : Nat) : l.act (.init id segments) = l := by
  rw [act, h]

theorem act_init_of_new (h : l.known id = none) (segments : Nat) :
    l.act (.init id segments) =
      { l with
        records := l.records ++ [.new id segments]
        known := Function.update l.known id (some l.records.length) } := by
  rw [act, h]

theorem act_settle {i : Nat} {t : Transition} (h : l.waiting[i]? = some (k, t)) :
    l.act (.settle i) = { l with records := l.records.modify k (·.ask t), waiting := l.waiting.eraseIdx i } := by
  rw [act, h]

theorem records_act (l : Ledger) (a : Act) :
    (l.act a).records = l.records ∨ (∃ id segments, (l.act a).records = l.records ++ [.new id segments]) ∨
      ∃ k t, (l.act a).records = l.records.modify k (·.ask t) := by
  cases a with
  | init id segments =>
      cases hknown : l.known id with
      | some k => exact .inl (by rw [act_init_of_known hknown])
      | none => exact .inr (.inl ⟨id, segments, by rw [act_init_of_new hknown]⟩)
  | reset id => exact .inl rfl
  | look id t =>
      rw [act]
      cases l.known id with
      | some k => exact .inl rfl
      | none => exact .inl rfl
  | settle i =>
      cases hwaiting : l.waiting[i]? with
      | some call => exact .inr (.inr ⟨call.1, call.2, by rw [act_settle hwaiting]⟩)
      | none => exact .inl (by rw [act, hwaiting])

theorem record_act (h : l.records[k]? = some r) (a : Act) :
    (l.act a).records[k]? = some r ∨ ∃ t, (l.act a).records[k]? = some (r.ask t) := by
  obtain heq | ⟨id, segments, heq⟩ | ⟨k', t, heq⟩ := l.records_act a <;> rw [heq]
  · exact .inl h
  · exact .inl (List.getElem?_append_left (List.getElem?_eq_some_iff.mp h).1 ▸ h)
  · rw [List.getElem?_modify, h]
    by_cases hk : k' = k
    · exact .inr ⟨t, by simp [hk]⟩
    · exact .inl (by simp [hk])

theorem becomes_act (h : l.records[k]? = some r) (a : Act) : ∃ r', (l.act a).records[k]? = some r' ∧ r.Becomes r' := by
  obtain hsame | ⟨t, hask⟩ := record_act h a
  · exact ⟨r, hsame, .refl r⟩
  · exact ⟨r.ask t, hask, r.becomes_ask t⟩

theorem becomes_acts (h : l.records[k]? = some r) (later : List Act) :
    ∃ r', (l.acts later).records[k]? = some r' ∧ r.Becomes r' := by
  induction later generalizing l r with
  | nil => exact ⟨r, h, .refl r⟩
  | cons a later ih =>
      obtain ⟨r₁, h₁, hbecomes₁⟩ := becomes_act h a
      obtain ⟨r₂, h₂, hbecomes₂⟩ := ih h₁
      exact ⟨r₂, h₂, hbecomes₁.trans hbecomes₂⟩

/-- What holds of a new record, and still after every call, holds of all records. -/
theorem records_induction {P : RunRecord → Prop} (hnew : ∀ id segments, P (.new id segments))
    (hask : ∀ r t, P r → P (r.ask t)) (steps : List Act) : ∀ r ∈ (after steps).records, P r := by
  induction steps using List.reverseRecOn with
  | nil => exact fun r hr => absurd hr List.not_mem_nil
  | append_singleton steps a ih =>
      intro r hr
      rw [after_concat] at hr
      obtain heq | ⟨id, segments, heq⟩ | ⟨k, t, heq⟩ := (after steps).records_act a <;> rw [heq] at hr
      · exact ih r hr
      · obtain hold | hold := List.mem_append.mp hr
        · exact ih r hold
        · exact List.mem_singleton.mp hold ▸ hnew id segments
      · obtain ⟨i, hi⟩ := List.mem_iff_getElem?.mp hr
        rw [List.getElem?_modify, Option.map_eq_map, Option.map_eq_some_iff] at hi
        obtain ⟨old, hold, rfl⟩ := hi
        have hP := ih old (List.mem_of_getElem? hold)
        split_ifs
        · exact hask old t hP
        · exact hP

theorem orderly_after (steps : List Act) : ∀ r ∈ (after steps).records, r.Orderly :=
  records_induction RunRecord.orderly_new (fun _ t h => h.ask t) steps

/-! ### What is known -/

/-- A number that is known stays with its record until it is forgotten. -/
theorem known_act (h : l.known id = some k) {a : Act} (ha : a ≠ .reset id) : (l.act a).known id = some k := by
  cases a with
  | init id' segments =>
      cases hknown : l.known id' with
      | some k' => rwa [act_init_of_known hknown]
      | none =>
          have hne : id ≠ id' := by
            rintro rfl
            simp [hknown] at h
          rw [act_init_of_new hknown]
          exact (Function.update_of_ne hne _ _).trans h
  | reset id' =>
      have hne : id ≠ id' := fun heq => ha (heq ▸ rfl)
      exact (Function.update_of_ne hne _ _).trans h
  | look id' t =>
      rw [act]
      cases l.known id' <;> exact h
  | settle i =>
      rw [act]
      cases l.waiting[i]? <;> exact h

theorem known_acts (h : l.known id = some k) {later : List Act} (hlater : .reset id ∉ later) :
    (l.acts later).known id = some k := by
  induction later generalizing l with
  | nil => exact h
  | cons a later ih =>
      rw [List.mem_cons, not_or] at hlater
      exact ih (known_act h (Ne.symm hlater.1)) hlater.2

/-- What is known after a step was known before, or was made in it. -/
theorem known_before {a : Act} (h : (l.act a).known id = some k) :
    l.known id = some k ∨ ∃ segments, a = .init id segments ∧ l.known id = none ∧ k = l.records.length := by
  cases a with
  | init id' segments =>
      cases hknown : l.known id' with
      | some k' => exact .inl (act_init_of_known hknown segments ▸ h)
      | none =>
          rw [act_init_of_new hknown] at h
          by_cases hid : id = id'
          · subst hid
            exact .inr ⟨segments, rfl, hknown, by simpa [eq_comm] using h⟩
          · exact .inl (by simpa [hid] using h)
  | reset id' =>
      by_cases hid : id = id'
      · simp [act, hid] at h
      · exact .inl (by simpa [act, hid] using h)
  | look id' t =>
      rw [act] at h
      cases hlook : l.known id' <;> exact .inl (by simpa [hlook] using h)
  | settle i =>
      rw [act] at h
      cases hwaiting : l.waiting[i]? <;> exact .inl (by simpa [hwaiting] using h)

def Placed (l : Ledger) : Prop :=
  ∀ id k, l.known id = some k → ∃ r, l.records[k]? = some r ∧ r.state.pipeline = id

theorem Placed.act (h : l.Placed) (a : Act) : (l.act a).Placed := by
  intro id k hknown
  obtain hbefore | ⟨segments, rfl, hnew, rfl⟩ := known_before hknown
  · obtain ⟨r, hr, hpipeline⟩ := h id k hbefore
    obtain ⟨r', hr', hbecomes⟩ := becomes_act hr a
    exact ⟨r', hr', hbecomes.pipeline_eq.trans hpipeline⟩
  · rw [act_init_of_new hnew]
    exact ⟨.new id segments, by simp, rfl⟩

theorem placed_after (steps : List Act) : (after steps).Placed := by
  induction steps using List.reverseRecOn with
  | nil => exact fun id k h => absurd h (by simp [after, acts])
  | append_singleton steps a ih =>
      rw [after_concat]
      exact ih.act a

/-! ### The registry -/

def state? (l : Ledger) (id : PipelineId) : Option RunState :=
  (l.known id).bind fun k => l.records[k]?.map (·.state)

def Mirrors (l : Ledger) (r : Registry) : Prop := ∀ id, r.get? id = l.state? id

theorem state?_of_known (h : l.known id = some k) (hr : l.records[k]? = some r) : l.state? id = some r.state := by
  rw [state?, h, Option.bind_some, hr, Option.map_some]

theorem state?_of_unknown (h : l.known id = none) : l.state? id = none := by rw [state?, h, Option.bind_none]

theorem state?_congr {l' : Ledger} (hknown : l'.known id = l.known id)
    (hrecords : ∀ k, l.known id = some k → l'.records[k]? = l.records[k]?) : l.state? id = l'.state? id := by
  rw [state?, state?, hknown]
  cases h : l.known id with
  | none => rfl
  | some k => rw [Option.bind_some, Option.bind_some, hrecords k h]

variable {registry : Registry}

theorem Mirrors.init (h : l.Mirrors registry) (hplaced : l.Placed) (id : PipelineId) (segments : Nat) :
    (l.act (.init id segments)).Mirrors (registry.init id segments) := by
  intro id'
  rw [Registry.get?_init, h id, h id']
  cases hknown : l.known id with
  | some k =>
      obtain ⟨r, hr, -⟩ := hplaced id k hknown
      rw [act_init_of_known hknown, state?_of_known hknown hr, Option.getD_some]
      split_ifs with hid
      · rw [hid, state?_of_known hknown hr]
      · rfl
  | none =>
      rw [act_init_of_new hknown, state?_of_unknown hknown, Option.getD_none]
      split_ifs with hid
      · rw [hid]
        exact (state?_of_known (r := .new id segments) (Function.update_self _ _ _) (by simp)).symm
      · refine state?_congr (Function.update_of_ne hid _ _) fun k hk => ?_
        obtain ⟨r, hr, -⟩ := hplaced id' k hk
        exact List.getElem?_append_left (List.getElem?_eq_some_iff.mp hr).1

theorem Mirrors.reset (h : l.Mirrors registry) (id : PipelineId) :
    (l.act (.reset id)).Mirrors (registry.reset id) := by
  intro id'
  rw [Registry.get?_reset, h id']
  split_ifs with hid
  · rw [hid]
    exact (state?_of_unknown (Function.update_self _ _ _)).symm
  · exact state?_congr (Function.update_of_ne hid _ _) fun _ _ => rfl

theorem Mirrors.look (h : l.Mirrors registry) (id : PipelineId) (t : Transition) :
    (l.act (.look id t)).Mirrors registry := by
  rw [act]
  cases l.known id <;> exact h

variable {i : Nat} {t : Transition}

theorem Mirrors.settle (h : l.Mirrors registry) (hplaced : l.Placed) (hwaiting : l.waiting[i]? = some (k, t))
    (hknown : l.known id = some k) : (l.act (.settle i)).Mirrors (t.call registry id).2 := by
  intro id'
  obtain ⟨r, hr, hpipeline⟩ := hplaced id k hknown
  rw [Transition.get?_call, h id, h id', act_settle hwaiting, state?_of_known hknown hr]
  split_ifs with hid
  · exact (state?_of_known (r := r.ask t) (hid ▸ hknown) (by simp [hr])).symm
  · refine state?_congr rfl fun k' hk' => ?_
    have hne : k ≠ k' := by
      rintro rfl
      obtain ⟨r', hr', hpipeline'⟩ := hplaced id' k hk'
      obtain rfl := Option.some.inj (hr.symm.trans hr')
      exact hid (hpipeline'.symm.trans hpipeline)
    exact List.getElem?_modify_ne _ _ hne

/-- A call whose record was forgotten meanwhile changes nothing that is known. -/
theorem Mirrors.settle_forgotten (h : l.Mirrors registry) (hwaiting : l.waiting[i]? = some (k, t))
    (hforgotten : ∀ id, l.known id ≠ some k) : (l.act (.settle i)).Mirrors registry := by
  intro id
  rw [h id, act_settle hwaiting]
  refine state?_congr rfl fun k' hk' => ?_
  have hne : k ≠ k' := by
    rintro rfl
    exact hforgotten id hk'
  exact List.getElem?_modify_ne _ _ hne

/-- The answer of a call whose record is still known is the one of the call on the registry. -/
theorem Mirrors.answer (h : l.Mirrors registry) (hknown : l.known id = some k) (hr : l.records[k]? = some r) :
    (r.verdict t).moved = (t.call registry id).1 := by
  rw [Transition.call_fst, h id, state?_of_known hknown hr]
  rfl

theorem exists_mirror (steps : List Act) : ∃ registry, (after steps).Mirrors registry := by
  induction steps using List.reverseRecOn with
  | nil => exact ⟨{}, fun id => rfl⟩
  | append_singleton steps a ih =>
      obtain ⟨registry, h⟩ := ih
      rw [after_concat]
      have hplaced := placed_after steps
      cases a with
      | init id segments => exact ⟨_, h.init hplaced id segments⟩
      | reset id => exact ⟨_, h.reset id⟩
      | look id t => exact ⟨_, h.look id t⟩
      | settle i =>
          cases hwaiting : (after steps).waiting[i]? with
          | none => exact ⟨registry, by rwa [act, hwaiting]⟩
          | some call =>
              by_cases hknown : ∃ id, (after steps).known id = some call.1
              · obtain ⟨id, hid⟩ := hknown
                exact ⟨_, h.settle hplaced hwaiting hid⟩
              · exact ⟨registry, h.settle_forgotten hwaiting (not_exists.mp hknown)⟩

/-- The registry makes at once what the ledger makes in steps: its operations keep it the mirror of the ledger, and a
call that changes a record which is still known gives the answer of the registry. -/
structure Follows (l : Ledger) (registry : Registry) : Prop where
  init : ∀ id segments, (l.act (.init id segments)).Mirrors (registry.init id segments)
  reset : ∀ id, (l.act (.reset id)).Mirrors (registry.reset id)
  look : ∀ id t, (l.act (.look id t)).Mirrors registry
  settle : ∀ i k t id, l.waiting[i]? = some (k, t) → l.known id = some k →
    (l.act (.settle i)).Mirrors (t.call registry id).2 ∧
      ∃ r, l.records[k]? = some r ∧ (r.verdict t).moved = (t.call registry id).1
  settle_forgotten : ∀ i k t, l.waiting[i]? = some (k, t) → (∀ id, l.known id ≠ some k) →
    (l.act (.settle i)).Mirrors registry

theorem Mirrors.follows (h : l.Mirrors registry) (hplaced : l.Placed) : l.Follows registry where
  init := h.init hplaced
  reset := h.reset
  look := h.look
  settle i k t id hwaiting hknown := by
    obtain ⟨r, hr, -⟩ := hplaced id k hknown
    exact ⟨h.settle hplaced hwaiting hknown, r, hr, h.answer hknown hr⟩
  settle_forgotten i k t := h.settle_forgotten

/-- Whatever the calls are and however their steps are mixed, of every record that was ever made: the answers to the
calls on it are those of an orderly record, so that one call at most ends the run and decides its status and its
message, and the segments are counted up to the goal; each step leaves its status or moves it on; and nothing changes
once the run has ended. An unknown number gets a new record; a known one keeps its record until it is forgotten, and
to make it known again changes nothing. The registry is the part of this that is known. -/
theorem first_end_decides (steps : List Act) :
    (∀ r ∈ (after steps).records, r.Orderly ∧ r.verdicts.countP Verdict.decisive ≤ 1) ∧
    (∀ (k : Nat) (r : RunRecord), (after steps).records[k]? = some r →
      (∀ a, ∃ r' : RunRecord, ((after steps).act a).records[k]? = some r' ∧
        (r'.state.status = r.state.status ∨ r.state.status.Moves r'.state.status)) ∧
      ∀ later, ∃ r' : RunRecord, ((after steps).acts later).records[k]? = some r' ∧ r.Becomes r') ∧
    (∀ id segments, (after steps).known id = none →
      ((after steps).act (.init id segments)).records = (after steps).records ++ [.new id segments]) ∧
    (∀ id k later segments, (after steps).known id = some k → .reset id ∉ later →
      ((after steps).acts later).known id = some k ∧
        ((after steps).acts later).act (.init id segments) = (after steps).acts later) ∧
    (∃ registry, (after steps).Mirrors registry) ∧
    ∀ registry, (after steps).Mirrors registry → (after steps).Follows registry := by
  refine ⟨fun r hr => ?_, fun k r hr => ⟨fun a => ?_, becomes_acts hr⟩, fun id segments hnew => ?_,
    fun id k later segments hknown hlater => ?_, exists_mirror steps, fun registry h => h.follows (placed_after steps)⟩
  · have horderly := orderly_after steps r hr
    exact ⟨horderly, by rw [horderly.decisive_eq]; split_ifs <;> decide⟩
  · obtain hsame | ⟨t, hask⟩ := record_act hr a
    · exact ⟨r, hsame, .inl rfl⟩
    · exact ⟨r.ask t, hask, t.status_act r.state⟩
  · rw [act_init_of_new hnew]
  · have hstill := known_acts hknown hlater
    exact ⟨hstill, act_init_of_known hstill segments⟩

/-- A call that found the record of a run which was forgotten meanwhile ends that run, and not the new one. -/
theorem first_end_decides_forgotten :
    let l := after [.init 1 2, .look 1 .countSegment, .look 1 .countSegment, .look 1 (.fail "late"), .reset 1,
      .init 1 1, .settle 0, .settle 0, .settle 0]
    l.records.map (·.state.status) = [.completed, .starting] ∧
      l.records.map (·.verdicts.map (·.moved)) = [[false, true, false], []] ∧
      ∀ r ∈ l.records, r.Orderly ∧ r.verdicts.countP Verdict.decisive ≤ 1 :=
  ⟨by decide, by decide, (first_end_decides _).1⟩

end Ledger

end Pipeworks
