import Pipeworks.Proofs.Supervisor.Records
import Mathlib.Order.MinMax

/-!
The log of the bus. Every call adds to what was sent: nothing, the event that it was given, or that event and the
announcement that its run is complete. A run is announced as complete once at most, by the event that reports its last
segment, and only if no failure and no abort was reported before.
-/

namespace Pipeworks

namespace Bus

def status? (b : Bus) (id : PipelineId) : Option RunStatus := (b.registry.get? id).map (·.status)

/-- The event reports a finished segment, and its run is complete with it and was not before. -/
def Completes (b : Bus) (e : Event) : Prop :=
  e.category = .lifecycle ∧ e.kind = Event.segmentCompleted ∧
    b.status? e.run ≠ some .completed ∧ (b.ingest e).2.status? e.run = some .completed

instance (b : Bus) (e : Event) : Decidable (b.Completes e) :=
  inferInstanceAs (Decidable (_ ∧ _ ∧ _ ∧ _))

def extra (b : Bus) (e : Event) : List Event := if b.Completes e then [completion e.run] else []

def contribution (b : Bus) : Act → List Event
  | .init _ _ => []
  | .reset _ => []
  | .ingest e => if e.category = .unknown then [] else e :: b.extra e
  | .publish e => [e]

def contributions (b : Bus) : List Act → List (List Event)
  | [] => []
  | a :: calls => b.contribution a :: (b.act a).contributions calls

def extras (b : Bus) : List Act → List Event
  | [] => []
  | .ingest e :: calls => b.extra e ++ (b.ingest e).2.extras calls
  | a :: calls => (b.act a).extras calls

end Bus

/-- The kind of an event that counts for how a run ends: a finished segment, a failure or an abort. -/
def Event.ruling (e : Event) : List String :=
  if e.category = .lifecycle ∧ e.kind ∈ [segmentCompleted, failed, aborted] then [e.kind] else []

def Bus.rulings (id : PipelineId) (calls : List Act) : List String :=
  calls.flatMap fun
    | .ingest e => if e.run = id then e.ruling else []
    | _ => []

/-! ### What an event asks for -/

namespace Event

variable {e : Event}

/-- Among what events ask for, a finished segment and an end count for how the run ends, and nothing else does. -/
theorem asks_cases (e : Event) :
    ((e.asks = [] ∨ e.asks = [.markRunning]) ∧ e.ruling = []) ∨
    (e.asks = [.countSegment] ∧ e.ruling = [segmentCompleted]) ∨
    ∃ t kind, e.asks = [t] ∧ t.ends = true ∧ t ≠ .countSegment ∧ e.ruling = [kind] ∧
      kind ≠ segmentCompleted := by
  by_cases hcategory : e.category = .lifecycle
  · rw [asks, ruling, if_neg (not_not.mpr hcategory)]
    by_cases hstarted : e.kind = segmentStarted
    · exact .inl ⟨.inr (if_pos hstarted), if_neg fun h => absurd (hstarted ▸ h.2) (by decide)⟩
    by_cases hcompleted : e.kind = segmentCompleted
    · exact .inr (.inl ⟨by rw [if_neg hstarted, if_pos hcompleted], by simp [hcategory, hcompleted]⟩)
    by_cases hfailed : e.kind = failed
    · refine .inr (.inr ⟨.fail e.message, e.kind, ?_, rfl, by simp, by simp [hcategory, hfailed], hcompleted⟩)
      rw [if_neg hstarted, if_neg hcompleted, if_pos hfailed]
    by_cases haborted : e.kind = aborted
    · refine .inr (.inr ⟨.abort "Pipeline aborted", e.kind, ?_, rfl, by simp, by simp [hcategory, haborted],
        hcompleted⟩)
      rw [if_neg hstarted, if_neg hcompleted, if_neg hfailed, if_pos haborted]
    · refine .inl ⟨.inl ?_, by simp [hcompleted, hfailed, haborted]⟩
      rw [if_neg hstarted, if_neg hcompleted, if_neg hfailed, if_neg haborted]
  · exact .inl ⟨.inl (by rw [asks, if_pos hcategory]), by rw [ruling, if_neg fun h => hcategory h.1]⟩

theorem asks_countSegment_iff :
    e.asks = [.countSegment] ↔ e.category = .lifecycle ∧ e.kind = segmentCompleted := by
  rw [asks]
  split_ifs with hcategory hstarted hcompleted <;> simp_all [segmentStarted, segmentCompleted]

end Event

/-- A run is complete when it was, or when the last of its segments is counted. -/
theorem Transition.status_act_eq_completed (t : Transition) (s : RunState) :
    (t.act s).2.status = .completed ↔ s.status = .completed ∨ t = .countSegment ∧ (t.act s).1 = true := by
  obtain ⟨-, hact⟩ | ⟨rfl, hstarting, hact⟩ | ⟨-, -, -, hact⟩ | ⟨rfl, -, -, hact⟩ | ⟨hends, hne, hopen, hact⟩ :=
    act_cases t s
  · simp [hact]
  · simp [hact, hstarting]
  · simp [hact]
  · simp [hact, outcome]
  · have hbefore : s.status ≠ .completed := fun h => by simp [h, RunStatus.isTerminal] at hopen
    have hafter : t.outcome.1 ≠ .completed := by
      cases t <;> simp_all [outcome]
    simp [hact, hne, hbefore, hafter]

/-- A failure or an abort moves every run that has not ended. -/
theorem Transition.act_fst_of_ends {t : Transition} {s : RunState} (hends : t.ends = true) (hne : t ≠ .countSegment)
    (hopen : s.status.isTerminal = false) : (t.act s).1 = true := by
  cases t with
  | markRunning => exact absurd hends (by decide)
  | countSegment => exact absurd rfl hne
  | fail message => simp [act_fail, hopen]
  | abort message => simp [act_abort, hopen]

theorem RunState.status_after_asks_eq_completed (s : RunState) (e : Event) :
    (s.after e.asks).status = .completed ↔
      s.status = .completed ∨ e.asks = [.countSegment] ∧ (Transition.countSegment.act s).1 = true := by
  obtain ⟨hasks | hasks, -⟩ | ⟨hasks, -⟩ | ⟨t, kind, hasks, -, hne, -⟩ := e.asks_cases <;> rw [hasks]
  · simp [after]
  · simp [after, Transition.status_act_eq_completed]
  · simp [after, Transition.status_act_eq_completed]
  · simp [after, Transition.status_act_eq_completed, hne]

/-! ### How far a run is -/

/-- A run of `n` segments that was told of events of these kinds: up to its goal, which is one segment at least, it
counts finished segments; from there on it is complete, unless another kind of event came first. -/
inductive RunState.Told (n : Nat) (kinds : List String) (s : RunState) : Prop where
  | counting (hopen : s.status.isTerminal = false)
      (hkinds : kinds = List.replicate s.completedSegments Event.segmentCompleted)
      (hgoal : s.completedSegments < max n 1)
  | complete (hstatus : s.status = .completed) (hcounted : s.completedSegments = max n 1)
      (hkinds : kinds.take (max n 1) = List.replicate (max n 1) Event.segmentCompleted)
  | broken (hended : s.status.isTerminal = true) (hstatus : s.status ≠ .completed)
      (hkinds : ∃ kind ∈ kinds.take (max n 1), kind ≠ Event.segmentCompleted)

namespace RunState.Told

variable {n : Nat} {kinds : List String} {s : RunState}

theorem initial (id : PipelineId) (n : Nat) : Told n [] (RunState.initial id n) :=
  .counting rfl rfl (lt_max_iff.mpr (.inr Nat.one_pos))

theorem late (h : Told n kinds s) (hended : s.status.isTerminal = true) (more : List String) :
    Told n (kinds ++ more) s := by
  cases h with
  | counting hopen => exact absurd hended (by simp [hopen])
  | complete hstatus hcounted hkinds =>
      have hlength : max n 1 ≤ kinds.length := by
        have hlength := congrArg List.length hkinds
        rw [List.length_take, List.length_replicate] at hlength
        exact hlength ▸ min_le_right _ _
      exact .complete hstatus hcounted (by rwa [List.take_append_of_le_length hlength])
  | broken _ hstatus hkinds =>
      obtain ⟨kind, hkind, hne⟩ := hkinds
      exact .broken hended hstatus ⟨kind, List.take_append ▸ List.mem_append_left _ hkind, hne⟩

/-- As long as a run has not ended, it was told of finished segments only, and of fewer than it needs. -/
theorem of_open (h : Told n kinds s) (hopen : s.status.isTerminal = false) :
    kinds = List.replicate s.completedSegments Event.segmentCompleted ∧ s.completedSegments < max n 1 := by
  cases h with
  | counting _ hkinds hgoal => exact ⟨hkinds, hgoal⟩
  | complete hstatus => exact absurd hopen (by rw [hstatus]; decide)
  | broken hended => exact absurd hopen (by simp [hended])

theorem markRunning (h : Told n kinds s) : Told n kinds (Transition.markRunning.act s).2 := by
  cases hended : s.status.isTerminal with
  | true =>
      rw [Transition.act_of_terminal hended]
      exact h
  | false =>
      obtain ⟨hkinds, hgoal⟩ := h.of_open hended
      have hcount := Transition.completedSegments_act .markRunning s
      rw [if_neg (by simp), Nat.add_zero] at hcount
      refine .counting ?_ (by rw [hcount, ← hkinds]) (by rwa [hcount])
      rw [Transition.isTerminal_act, hended]
      rfl

theorem countSegment (h : Told n kinds s) (htotal : s.totalSegments = n) :
    Told n (kinds ++ [Event.segmentCompleted]) (Transition.countSegment.act s).2 := by
  cases hended : s.status.isTerminal with
  | true =>
      rw [Transition.act_of_terminal hended]
      exact h.late hended _
  | false =>
      obtain ⟨hkinds, hgoal⟩ := h.of_open hended
      have hcount := Transition.completedSegments_act .countSegment s
      rw [if_pos ⟨rfl, hended⟩] at hcount
      have hkinds' : kinds ++ [Event.segmentCompleted] =
          List.replicate (s.completedSegments + 1) Event.segmentCompleted := by
        rw [List.replicate_succ', ← hkinds]
      cases hmoved : (Transition.countSegment.act s).1 with
      | true =>
          have hlast := (Transition.countSegment_moves_iff.mp hmoved).2
          have hgoal' : s.completedSegments + 1 = max n 1 := by omega
          refine .complete ?_ (hcount.trans hgoal') ?_
          · exact (Transition.status_act_eq_completed _ s).mpr (.inr ⟨rfl, hmoved⟩)
          · rw [hkinds', hgoal', List.take_replicate, Nat.min_self]
      | false =>
          have hmore : ¬s.totalSegments ≤ s.completedSegments + 1 := fun hlast => by
            simp [Transition.countSegment_moves_iff.mpr ⟨hended, hlast⟩] at hmoved
          refine .counting ?_ (by rw [hcount, hkinds']) (by omega)
          rw [Transition.isTerminal_act, hended, hmoved]
          rfl

/-- A failure or an abort before the goal keeps the run from being complete. -/
theorem finish (h : Told n kinds s) {t : Transition} {kind : String} (hends : t.ends = true) (hne : t ≠ .countSegment)
    (hkind : kind ≠ Event.segmentCompleted) : Told n (kinds ++ [kind]) (t.act s).2 := by
  cases hended : s.status.isTerminal with
  | true =>
      rw [Transition.act_of_terminal hended]
      exact h.late hended _
  | false =>
      obtain ⟨hkinds, hgoal⟩ := h.of_open hended
      refine .broken ?_ (fun hstatus => ?_) ⟨kind, ?_, hkind⟩
      · rw [Transition.isTerminal_act, hends, Transition.act_fst_of_ends hends hne hended]
        exact Bool.or_true _
      · obtain hbefore | ⟨hcount, -⟩ := (Transition.status_act_eq_completed t s).mp hstatus
        · simp [hbefore, RunStatus.isTerminal] at hended
        · exact hne hcount
      · have hlength : (kinds ++ [kind]).length ≤ max n 1 := by
          rw [List.length_append, hkinds, List.length_replicate]
          exact hgoal
        rw [List.take_of_length_le hlength]
        exact List.mem_append_right _ (List.mem_singleton_self kind)

theorem step (h : Told n kinds s) (htotal : s.totalSegments = n) (e : Event) :
    Told n (kinds ++ e.ruling) (s.after e.asks) := by
  obtain ⟨hasks | hasks, hruling⟩ | ⟨hasks, hruling⟩ | ⟨t, kind, hasks, hends, hne, hruling, hkind⟩ := e.asks_cases
    <;> rw [hasks, hruling]
  · rwa [List.append_nil]
  · rw [List.append_nil]
    exact h.markRunning
  · exact h.countSegment htotal
  · exact h.finish hends hne hkind

theorem completes_iff (h : Told n kinds s) (htotal : s.totalSegments = n) :
    (Transition.countSegment.act s).1 = true ↔ kinds = List.replicate (max n 1 - 1) Event.segmentCompleted := by
  rw [Transition.countSegment_moves_iff, htotal]
  constructor
  · rintro ⟨hopen, hlast⟩
    obtain ⟨hkinds, hgoal⟩ := h.of_open hopen
    have hcount : s.completedSegments = max n 1 - 1 := by omega
    rw [hkinds, hcount]
  · intro heq
    cases h with
    | counting hopen hkinds hgoal =>
        have hcount := congrArg List.length (hkinds.symm.trans heq)
        rw [List.length_replicate, List.length_replicate] at hcount
        exact ⟨hopen, by omega⟩
    | complete hstatus hcounted hkinds =>
        have hlength := congrArg List.length hkinds
        rw [heq, List.length_take, List.length_replicate, List.length_replicate] at hlength
        omega
    | broken hended hstatus hkinds =>
        obtain ⟨kind, hkind, hne⟩ := hkinds
        exact absurd (List.eq_of_mem_replicate (heq ▸ List.mem_of_mem_take hkind)) hne

theorem status_iff (h : Told n kinds s) : s.status = .completed ↔
    kinds.take (max n 1) = List.replicate (max n 1) Event.segmentCompleted := by
  cases h with
  | counting hopen hkinds hgoal =>
      refine iff_of_false (fun hstatus => by simp [hstatus, RunStatus.isTerminal] at hopen) fun heq => ?_
      have hlength := congrArg List.length heq
      rw [hkinds, List.length_take, List.length_replicate, List.length_replicate] at hlength
      omega
  | complete hstatus _ hkinds => exact iff_of_true hstatus hkinds
  | broken _ hstatus hkinds =>
      obtain ⟨kind, hkind, hne⟩ := hkinds
      exact iff_of_false hstatus fun heq => hne (List.eq_of_mem_replicate (heq ▸ hkind))

end RunState.Told

namespace Bus

variable {b : Bus} {e : Event} {id : PipelineId}

/-! ### One event -/

theorem status?_ingest (b : Bus) (e : Event) :
    (b.ingest e).2.status? e.run = (b.registry.get? e.run).map fun s => (s.after e.asks).status := by
  rw [status?, (b.turns_ingest e).own, Option.map_map]
  rfl

theorem completes_iff_countSegment : b.Completes e ↔ (e.category = .lifecycle ∧ e.kind = Event.segmentCompleted) ∧
    ∃ s, b.registry.get? e.run = some s ∧ (Transition.countSegment.act s).1 = true := by
  rw [Completes, ← and_assoc]
  refine and_congr_right fun hasks => ?_
  rw [status?_ingest, status?]
  cases b.registry.get? e.run with
  | none => simp
  | some s =>
      have hmoves : (Transition.countSegment.act s).1 = true → s.status ≠ .completed := fun hmoved hcompleted => by
        rw [Transition.act_of_terminal (by rw [hcompleted]; rfl)] at hmoved
        exact absurd hmoved (by simp)
      have hafter := s.status_after_asks_eq_completed e
      simp only [Event.asks_countSegment_iff.mpr hasks, true_and] at hafter
      simp only [Option.map_some, ne_eq, Option.some.injEq, exists_eq_left', Event.asks_countSegment_iff.mpr hasks,
        hafter]
      tauto

/-- The registry tells of exactly those events that complete their runs. -/
theorem completes_iff : b.Completes e ↔ e.category = .lifecycle ∧ (apply b.registry e).1 = true := by
  rw [completes_iff_countSegment, and_assoc]
  refine and_congr_right fun _ => ?_
  rw [apply]
  split_ifs with hstarted hcompleted
  · simp [hstarted, Event.segmentStarted, Event.segmentCompleted]
  · have hcall := Transition.call_fst .countSegment b.registry e.run
    rw [Transition.call] at hcall
    simp [hcompleted, hcall, Option.any_eq_true]
  all_goals simp [hcompleted]

theorem toList_sent_act (b : Bus) (a : Act) :
    (b.act a).broadcast.sent.toList = b.broadcast.sent.toList ++ b.contribution a := by
  cases a with
  | init id segments => simp [act, contribution]
  | reset id => simp [act, contribution]
  | publish e => simp [act, contribution, publish, Broadcast.send]
  | ingest e =>
      rw [act, ingest, contribution]
      cases hcategory : e.category with
      | unknown => simp
      | stream => simp [publish, Broadcast.send, extra, Completes, hcategory]
      | lifecycle =>
          simp only [extra, completes_iff, hcategory]
          cases (apply b.registry e).1 <;> simp [publish, Broadcast.send]

/-- What was sent is what the calls added, one after another. -/
theorem toList_sent_acts (b : Bus) (calls : List Act) :
    (b.acts calls).broadcast.sent.toList = b.broadcast.sent.toList ++ (b.contributions calls).flatten := by
  induction calls generalizing b with
  | nil => simp [acts, contributions]
  | cons a calls ih =>
      rw [contributions, List.flatten_cons, ← List.append_assoc, ← toList_sent_act]
      exact ih (b.act a)

theorem ingest_eq_ignored_iff : (b.ingest e).1 = .ignored ↔ e.category = .unknown := by
  rw [ingest]
  cases e.category <;> simp

theorem registry_ingest (h : e.category ≠ .lifecycle ∨
    e.kind ∉ [Event.segmentStarted, Event.segmentCompleted, Event.failed, Event.aborted]) :
    (b.ingest e).2.registry = b.registry := by
  rw [ingest]
  cases hcategory : e.category with
  | unknown => rfl
  | stream => rfl
  | lifecycle =>
      have hkind := h.resolve_left (not_not.mpr hcategory)
      simp only [List.mem_cons, List.not_mem_nil, or_false, not_or] at hkind
      have happly : apply b.registry e = (false, b.registry) := by
        rw [apply, if_neg hkind.1, if_neg hkind.2.1, if_neg hkind.2.2.1, if_neg hkind.2.2.2]
      rw [happly]
      rfl

/-! ### The calls on one run -/

variable {n : Nat} {kinds : List String} {s : RunState} {span : List Act}

theorem rulings_append (id : PipelineId) (calls more : List Act) :
    rulings id (calls ++ more) = rulings id calls ++ rulings id more := List.flatMap_append

theorem told_act {a : Act} (ha : a ≠ .reset id) (hs : b.registry.get? id = some s) (htold : s.Told n kinds)
    (htotal : s.totalSegments = n) :
    ∃ s', (b.act a).registry.get? id = some s' ∧ s'.Told n (kinds ++ rulings id [a]) ∧ s'.totalSegments = n := by
  have hidle : rulings id [a] = [] → (b.act a).registry.get? id = some s →
      ∃ s', (b.act a).registry.get? id = some s' ∧ s'.Told n (kinds ++ rulings id [a]) ∧ s'.totalSegments = n := by
    intro hnone hsame
    exact ⟨s, hsame, by rwa [hnone, List.append_nil], htotal⟩
  cases a with
  | init id' segments =>
      refine hidle rfl ((Registry.get?_init _ _ _ _).trans ?_)
      split_ifs with hid
      · rw [← hid, hs, Option.getD_some]
      · exact hs
  | reset id' =>
      have hid : id ≠ id' := fun heq => ha (heq ▸ rfl)
      exact hidle rfl ((Registry.get?_reset _ _ _).trans ((if_neg hid).trans hs))
  | publish e => exact hidle rfl hs
  | ingest e =>
      by_cases hrun : e.run = id
      · subst hrun
        have hruling : rulings e.run [.ingest e] = e.ruling := by simp [rulings]
        refine ⟨s.after e.asks, ?_, ?_, (s.totalSegments_after _).trans htotal⟩
        · exact (b.turns_ingest e).own.trans (by rw [hs, Option.map_some])
        · rw [hruling]
          exact htold.step htotal e
      · exact hidle (by simp [rulings, hrun]) (((b.turns_ingest e).others id (Ne.symm hrun)).trans hs)

theorem told_acts (hspan : .reset id ∉ span) (hs : b.registry.get? id = some s) (htold : s.Told n kinds)
    (htotal : s.totalSegments = n) : ∃ s', (b.acts span).registry.get? id = some s' ∧
      s'.Told n (kinds ++ rulings id span) ∧ s'.totalSegments = n := by
  induction span generalizing b s kinds with
  | nil => exact ⟨s, hs, by rwa [rulings, List.flatMap_nil, List.append_nil], htotal⟩
  | cons a span ih =>
      rw [List.mem_cons, not_or] at hspan
      obtain ⟨s₁, hs₁, htold₁, htotal₁⟩ := told_act (Ne.symm hspan.1) hs htold htotal
      obtain ⟨s₂, hs₂, htold₂, htotal₂⟩ := ih hspan.2 hs₁ htold₁ htotal₁
      refine ⟨s₂, hs₂, ?_, htotal₂⟩
      rwa [List.append_assoc, ← rulings_append, List.singleton_append] at htold₂

/-- Only an event that completes the run makes it complete, and it stays so until it is forgotten. -/
theorem status?_act_iff {a : Act} (ha : a ≠ .reset id) : (b.act a).status? id = some .completed ↔
    b.status? id = some .completed ∨ ∃ e, a = .ingest e ∧ e.run = id ∧ b.Completes e := by
  cases a with
  | init id' segments =>
      rw [status?, act, Registry.get?_init]
      split_ifs with hid
      · subst hid
        rw [status?]
        cases b.registry.get? id <;> simp [RunState.initial]
      · simp [status?]
  | reset id' =>
      have hid : id ≠ id' := fun heq => ha (heq ▸ rfl)
      rw [status?, act, Registry.get?_reset, if_neg hid]
      simp [status?]
  | publish e => simp [act, publish, status?]
  | ingest e =>
      by_cases hrun : e.run = id
      · subst hrun
        simp only [Act.ingest.injEq, exists_eq_left', true_and, completes_iff_countSegment]
        rw [act, status?_ingest, status?, ← Event.asks_countSegment_iff]
        cases b.registry.get? e.run with
        | none => simp
        | some s => simp [RunState.status_after_asks_eq_completed]
      · have hother := (b.turns_ingest e).others id (Ne.symm hrun)
        simp only [act, status?, hother, Act.ingest.injEq, exists_eq_left', hrun, false_and, or_false]

theorem status?_acts_of_completed (hspan : .reset id ∉ span) (h : b.status? id = some .completed) :
    (b.acts span).status? id = some .completed := by
  induction span generalizing b with
  | nil => exact h
  | cons a span ih =>
      rw [List.mem_cons, not_or] at hspan
      exact ih hspan.2 ((status?_act_iff (Ne.symm hspan.1)).mpr (.inl h))

theorem extras_cons (b : Bus) (a : Act) (span : List Act) :
    b.extras (a :: span) = b.extras [a] ++ (b.act a).extras span := by
  cases a <;> simp [extras, act]

/-- A call announces a run when it makes the run complete. -/
theorem filter_extras_singleton {a : Act} (ha : a ≠ .reset id) : ((b.extras [a]).filter fun e => e.run = id) =
    if b.status? id ≠ some .completed ∧ (b.act a).status? id = some .completed then [completion id] else [] := by
  by_cases hannounces : ∃ e, a = .ingest e ∧ e.run = id ∧ b.Completes e
  · obtain ⟨e, rfl, rfl, hcompletes⟩ := hannounces
    have hmade : b.status? e.run ≠ some .completed ∧ (b.act (.ingest e)).status? e.run = some .completed :=
      hcompletes.2.2
    rw [if_pos hmade]
    simp [extras, extra, hcompletes, completion, Event.announcement, Event.lifecycle]
  · rw [if_neg fun h => ((status?_act_iff ha).mp h.2).elim h.1 hannounces, List.filter_eq_nil_iff]
    intro e' he'
    cases a with
    | ingest e =>
        obtain ⟨hcompletes, rfl⟩ : b.Completes e ∧ e' = completion e.run := by simpa [extras, extra] using he'
        exact fun hrun => hannounces ⟨e, rfl, of_decide_eq_true hrun, hcompletes⟩
    | _ => simp [extras] at he'

theorem filter_extras (hspan : .reset id ∉ span) : ((b.extras span).filter fun e => e.run = id) =
    if b.status? id ≠ some .completed ∧ (b.acts span).status? id = some .completed then [completion id] else [] := by
  induction span generalizing b with
  | nil => simp [extras, acts]
  | cons a span ih =>
      rw [List.mem_cons, not_or] at hspan
      have hstays : b.status? id = some .completed → (b.act a).status? id = some .completed :=
        fun h => (status?_act_iff (Ne.symm hspan.1)).mpr (.inl h)
      have hlasts : (b.act a).status? id = some .completed → (b.acts (a :: span)).status? id = some .completed :=
        status?_acts_of_completed hspan.2
      rw [extras_cons, List.filter_append, filter_extras_singleton (Ne.symm hspan.1), ih hspan.2]
      change _ ++ (if _ ∧ (b.acts (a :: span)).status? id = some .completed then [completion id] else []) = _
      by_cases hbefore : b.status? id = some .completed
      · simp [hbefore, hstays hbefore]
      · by_cases hafter : (b.act a).status? id = some .completed
        · simp [hbefore, hafter, hlasts hafter]
        · simp [hbefore, hafter]

/-- What is said of a run of `n` segments from its first call on, as long as it is not forgotten: it is announced as
complete once at most, if its events began with as many finished segments as complete it, and this by the last of
them. -/
structure Announces (b : Bus) (id : PipelineId) (n : Nat) (span : List Act) : Prop where
  known : ∃ s, (b.acts span).registry.get? id = some s ∧ s.totalSegments = n
  once : ((b.extras span).filter fun e => e.run = id) =
    if (rulings id span).take (max n 1) = List.replicate (max n 1) Event.segmentCompleted then [completion id] else []
  last : ∀ earlier e later, span = earlier ++ .ingest e :: later → e.run = id → ((b.acts earlier).Completes e ↔
    e.category = .lifecycle ∧ e.kind = Event.segmentCompleted ∧
      rulings id earlier = List.replicate (max n 1 - 1) Event.segmentCompleted)

theorem announces (hnew : b.registry.get? id = none) (hspan : .reset id ∉ span) (n : Nat) :
    (b.act (.init id n)).Announces id n span := by
  have hinit : (b.act (.init id n)).registry.get? id = some (RunState.initial id n) := by
    rw [act, Registry.get?_init, if_pos rfl, hnew, Option.getD_none]
  have htold : ∀ calls, .reset id ∉ calls → ∃ s, ((b.act (.init id n)).acts calls).registry.get? id = some s ∧
      s.Told n (rulings id calls) ∧ s.totalSegments = n :=
    fun calls hcalls => told_acts hcalls hinit (.initial id n) rfl
  obtain ⟨s, hs, htolds, htotal⟩ := htold span hspan
  refine ⟨⟨s, hs, htotal⟩, ?_, ?_⟩
  · have hbefore : (b.act (.init id n)).status? id ≠ some .completed := by
      simp [status?, hinit, RunState.initial]
    rw [filter_extras hspan]
    refine if_congr ?_ rfl rfl
    rw [and_iff_right hbefore, ← htolds.status_iff, status?, hs, Option.map_some, Option.some.injEq]
  · rintro earlier e later rfl rfl
    have hearlier : .reset e.run ∉ earlier := fun h => hspan (List.mem_append_left _ h)
    obtain ⟨s, hs, htolds, htotal⟩ := htold earlier hearlier
    rw [completes_iff_countSegment, and_assoc, hs]
    simp only [Option.some.injEq, exists_eq_left', htolds.completes_iff htotal]

/-- Whatever the calls are, what was sent is what each of them added in its turn. An event of unknown category is
ignored, and like stream events and lifecycle events of other types it changes no run. A run that is made known is
announced as complete once at most, by the event that reports its last segment, as long as it is not forgotten. -/
theorem log_of_calls (b : Bus) :
    (∀ calls, (b.acts calls).broadcast.sent.toList = b.broadcast.sent.toList ++ (b.contributions calls).flatten) ∧
    (∀ e, ((b.ingest e).1 = .ignored ↔ e.category = .unknown) ∧
      (e.category ≠ .lifecycle ∨
          e.kind ∉ [Event.segmentStarted, Event.segmentCompleted, Event.failed, Event.aborted] →
        (b.ingest e).2.registry = b.registry)) ∧
    ∀ id n span, b.registry.get? id = none → .reset id ∉ span → (b.act (.init id n)).Announces id n span :=
  ⟨b.toList_sent_acts, fun _ => ⟨ingest_eq_ignored_iff, registry_ingest⟩,
    fun _ n _ hnew hspan => announces hnew hspan n⟩

/-- A run of two segments is announced by the second report of one. Made known again, it fails and is not announced. -/
theorem log_of_calls_again :
    let b : Bus := { broadcast := { capacity := 4 } }
    let finished : Event := .lifecycle 1 (some 0) Event.segmentCompleted .null
    let span : List Act := [.ingest finished, .publish finished, .ingest { finished with category := .unknown },
      .ingest finished, .ingest finished]
    let again : List Act := [.ingest (.lifecycle 1 none Event.failed .null), .ingest finished]
    ((b.acts (.init 1 2 :: span ++ .reset 1 :: .init 1 1 :: again)).broadcast.sent.toList.map (·.kind) =
      [Event.segmentCompleted, Event.segmentCompleted, Event.segmentCompleted, Event.completed, Event.segmentCompleted,
        Event.failed, Event.segmentCompleted]) ∧
    (b.act (.init 1 2)).Announces 1 2 span ∧
    (((b.acts (.init 1 2 :: span)).act (.reset 1)).act (.init 1 1)).Announces 1 1 again :=
  ⟨by decide, (log_of_calls _).2.2 1 2 _ rfl (by simp), (log_of_calls _).2.2 1 1 _ (by decide) (by simp)⟩

end Bus

end Pipeworks
