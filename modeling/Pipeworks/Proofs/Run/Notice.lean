import Pipeworks.Proofs.Run.Log
import Mathlib.Data.List.Perm.Subperm

/-!
Notices that runs have ended. A notice is on account of a record: the one that a pipeline had after its records had been
forgotten so many times. A call or an event gives notice only if it has itself ended the run, and a run ends once; so
no record has two notices, and a record that has one stays ended as the notice says for as long as it is known.
-/

namespace Pipeworks

namespace Registry

variable {r r' : Registry} {id : PipelineId}

def KeepsEnded (r r' : Registry) : Prop :=
  ∀ id s, r.get? id = some s → s.status.isTerminal = true → r'.get? id = some s

theorem KeepsEnded.refl (r : Registry) : r.KeepsEnded r := fun _ _ hs _ => hs

theorem Turns.keepsEnded {ts : List Transition} (h : r.Turns id ts r') : r.KeepsEnded r' := by
  intro id' s hs hended
  by_cases hid : id' = id
  · subst hid
    rw [h.own, hs, Option.map_some, RunState.after_of_terminal hended]
  · exact (h.others id' hid).trans hs

theorem keepsEnded_init (r : Registry) (id : PipelineId) (segments : Nat) : r.KeepsEnded (r.init id segments) := by
  intro id' s hs _
  rw [get?_init]
  split_ifs with hid
  · rw [← hid, hs, Option.getD_some]
  · exact hs

structure Ends (r r' : Registry) (id : PipelineId) (status : RunStatus) : Prop where
  before : ∃ s, r.get? id = some s ∧ s.status.isTerminal = false
  after : ∃ s, r'.get? id = some s ∧ s.status = status
  others : r.KeepsEnded r'

theorem ends_abort {message : String} (hmoved : (r.abort id message).1 = true) :
    r.Ends (r.abort id message).2 id .aborted := by
  have hcall := Transition.call_fst (.abort message) r id
  rw [Transition.call, hmoved, eq_comm, Option.any_eq_true] at hcall
  obtain ⟨s, hs, hact⟩ := hcall
  have hturns := Turns.call (.abort message) r id
  refine ⟨⟨s, hs, ?_⟩, ⟨_, by rw [← Transition.call, hturns.own, hs]; rfl, ?_⟩, hturns.keepsEnded⟩
  · rw [Bool.eq_false_iff]
    intro hended
    rw [Transition.act_of_terminal hended] at hact
    cases hact
  · exact congrArg Prod.fst (Transition.outcome_act rfl hact)

end Registry

theorem Bus.Completes.ends {b : Bus} {e : Event} (h : b.Completes e) :
    b.registry.Ends (b.ingest e).2.registry e.run .completed := by
  obtain ⟨-, s, hs, hmoved⟩ := completes_iff_countSegment.mp h
  refine ⟨⟨s, hs, (Transition.countSegment_moves_iff.mp hmoved).1⟩, ?_, (b.turns_ingest e).keepsEnded⟩
  exact Option.map_eq_some_iff.mp h.2.2.2

theorem Bus.extra_of_unknown {e : Event} (h : e.category = .unknown) (b : Bus) : b.extra e = [] := by
  refine if_neg fun hcompletes => ?_
  have hcategory := hcompletes.1
  rw [h] at hcategory
  cases hcategory

theorem Bus.tail_contribution (b : Bus) (e : Event) : (b.contribution (.ingest e)).tail = b.extra e := by
  rw [contribution]
  split_ifs with hcategory
  · exact (extra_of_unknown hcategory b).symm
  · rfl

/-- Among what other events add to the log, those that announce a run as complete follow an event. -/
theorem Bus.filter_contributions {b : Bus} {es : List Event} (hes : ∀ e ∈ es, e.kind ≠ Event.completed) :
    (b.contributions (es.map .ingest)).flatten.filter (·.kind = Event.completed) = b.extras (es.map .ingest) := by
  induction es generalizing b with
  | nil => rfl
  | cons e es ih =>
      have hfirst : (b.contribution (.ingest e)).filter (·.kind = Event.completed) = b.extra e := by
        rw [contribution]
        split_ifs with hcategory
        · exact (extra_of_unknown hcategory b).symm
        · rw [List.filter_cons_of_neg (by simpa using hes e List.mem_cons_self), extra]
          split_ifs <;> rfl
      rw [List.map_cons, contributions, List.flatten_cons, List.filter_append, hfirst,
        ih fun e' he' => hes e' (List.mem_cons_of_mem _ he')]
      rfl

/-! ### Notices -/

/-- A notice that a run has ended. -/
structure Notice where
  run : PipelineId
  /-- How many times the record of the pipeline had been forgotten when this one was made. -/
  turn : Nat
  event : Event

namespace Notice

def record (n : Notice) : PipelineId × Nat := (n.run, n.turn)

def outcome (n : Notice) : RunStatus := if n.event.kind = Event.completed then .completed else .aborted

/-- The events by which notice is given: by a stop, by an abort, and by the event that completes the run. -/
def IsProper (n : Notice) : Prop :=
  n.event = Event.announcement n.run Event.stopped "Pipeline stopped" ∨
    n.event = Event.announcement n.run Event.aborted "Pipeline aborted" ∨ n.event = Bus.completion n.run

theorem isTerminal_outcome (n : Notice) : n.outcome.isTerminal = true := by
  rw [outcome]
  split_ifs <;> rfl

end Notice

variable {r r' : Registry} {turn : PipelineId → Nat} {ns ns' : List Notice} {id : PipelineId}

namespace Registry

/-- The registry bears out some notices: no two of them are on account of one record, and a record on account of which
there is one is ended as it says, if it is still known. -/
structure BearsOut (r : Registry) (turn : PipelineId → Nat) (ns : List Notice) : Prop where
  once : (ns.map Notice.record).Nodup
  past : ∀ n ∈ ns, n.turn ≤ turn n.run
  ended : ∀ n ∈ ns, n.turn = turn n.run → ∃ s, r.get? n.run = some s ∧ s.status = n.outcome
  proper : ∀ n ∈ ns, n.IsProper

namespace BearsOut

theorem nil (r : Registry) (turn : PipelineId → Nat) : r.BearsOut turn [] :=
  ⟨.nil, List.forall_mem_nil _, List.forall_mem_nil _, List.forall_mem_nil _⟩

theorem subperm (h : r.BearsOut turn ns) (hsub : ns'.Subperm ns) : r.BearsOut turn ns' where
  once := by
    obtain ⟨l, hperm, hl⟩ := hsub
    exact (hperm.map Notice.record).nodup_iff.mp (h.once.sublist (hl.map Notice.record))
  past n hn := h.past n (hsub.subset hn)
  ended n hn := h.ended n (hsub.subset hn)
  proper n hn := h.proper n (hsub.subset hn)

theorem keep (h : r.BearsOut turn ns) (hkeeps : r.KeepsEnded r') : r'.BearsOut turn ns where
  once := h.once
  past := h.past
  ended n hn hnow := by
    obtain ⟨s, hs, hstatus⟩ := h.ended n hn hnow
    exact ⟨s, hkeeps n.run s hs (hstatus ▸ n.isTerminal_outcome), hstatus⟩
  proper := h.proper

theorem reset (h : r.BearsOut turn ns) (id : PipelineId) :
    (r.reset id).BearsOut (Function.update turn id (turn id + 1)) ns where
  once := h.once
  past n hn := (h.past n hn).trans (le_update_self_iff.mpr (Nat.le_succ _) n.run)
  ended n hn hnow := by
    have hpast := h.past n hn
    by_cases hid : n.run = id
    · rw [hid, Function.update_self] at hnow
      rw [hid] at hpast
      omega
    · rw [Function.update_of_ne hid] at hnow
      rw [get?_reset, if_neg hid]
      exact h.ended n hn hnow
  proper := h.proper

theorem end_run (h : r.BearsOut turn ns) {n : Notice} (hends : r.Ends r' n.run n.outcome) (hturn : n.turn = turn n.run)
    (hproper : n.IsProper) : r'.BearsOut turn (n :: ns) := by
  have hlater := h.keep hends.others
  refine ⟨List.nodup_cons.mpr ⟨fun hmem => ?_, h.once⟩, ?_, ?_, ?_⟩
  -- another notice on account of the record would say that the run had ended before
  · obtain ⟨n', hn', hrecord⟩ := List.mem_map.mp hmem
    obtain ⟨hrun, hsame⟩ := Prod.mk.inj hrecord
    obtain ⟨s', hs', hstatus⟩ := h.ended n' hn' (hsame.trans (hturn.trans (hrun ▸ rfl)))
    obtain ⟨s, hs, hopen⟩ := hends.before
    obtain rfl := Option.some.inj ((hrun ▸ hs').symm.trans hs)
    rw [hstatus, n'.isTerminal_outcome] at hopen
    cases hopen
  · exact List.forall_mem_cons.mpr ⟨hturn.le, h.past⟩
  · exact List.forall_mem_cons.mpr ⟨fun _ => hends.after, hlater.ended⟩
  · exact List.forall_mem_cons.mpr ⟨hproper, h.proper⟩

theorem ingest {b : Bus} (h : b.registry.BearsOut turn ns) (e : Event) :
    (b.ingest e).2.registry.BearsOut turn ((b.extra e).map (⟨e.run, turn e.run, ·⟩) ++ ns) := by
  rw [Bus.extra]
  split_ifs with hcompletes
  · exact h.end_run hcompletes.ends rfl (.inr (.inr rfl))
  · exact h.keep (b.turns_ingest e).keepsEnded

theorem acts {b : Bus} (h : b.registry.BearsOut turn ns) {es : List Event} (hes : ∀ e ∈ es, e.run = id) :
    (b.acts (es.map .ingest)).registry.BearsOut turn
      ((b.extras (es.map .ingest)).map (⟨id, turn id, ·⟩) ++ ns) := by
  induction es generalizing b ns with
  | nil => exact h
  | cons e es ih =>
      have hrun : e.run = id := hes e List.mem_cons_self
      have hrest := ih (hrun ▸ h.ingest e) fun e' he' => hes e' (List.mem_cons_of_mem _ he')
      refine hrest.subperm (List.Perm.subperm ?_)
      rw [List.map_cons, Bus.extras, List.map_append, ← List.append_assoc]
      exact List.perm_append_comm.append_right ns

end BearsOut

end Registry

end Pipeworks
