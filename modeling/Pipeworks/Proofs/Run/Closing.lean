import Pipeworks.Proofs.Run.Notice

/-!
The moment at which a run ends, as the registry shows it, and the events that tell how it has ended. Whoever ends a run
through the bus makes sure that all observers hear of it: the event that fails or aborts the run is passed on, and the
event that completes it is followed by an announcement.
-/

namespace Pipeworks

namespace Event

def verdict? (e : Event) : Option RunStatus :=
  if e.category ≠ .lifecycle then none
  else if e.kind = completed then some .completed
  else if e.kind = failed then some .failed
  else if e.kind = stopped ∨ e.kind = aborted then some .aborted
  else none

def Announces (e : Event) (id : PipelineId) (status : RunStatus) : Prop := e.run = id ∧ e.verdict? = some status

instance (e : Event) (id : PipelineId) (status : RunStatus) : Decidable (e.Announces id status) :=
  inferInstanceAs (Decidable (_ ∧ _))

/-- An event that asks to fail or to abort a run tells that it has ended in this way. -/
theorem verdict?_of_asks {e : Event} {t : Transition} (h : e.asks = [t]) (hends : t.ends = true)
    (hne : t ≠ .countSegment) : e.category = .lifecycle ∧ e.verdict? = some t.outcome.1 := by
  rw [asks] at h
  split_ifs at h with hcategory hstarted hcompleted hfailed haborted
  · obtain rfl := List.singleton_inj.mp h
    cases hends
  · exact absurd (List.singleton_inj.mp h).symm hne
  · obtain rfl := List.singleton_inj.mp h
    refine ⟨not_not.mp hcategory, ?_⟩
    rw [verdict?, if_neg hcategory, hfailed]
    rfl
  · obtain rfl := List.singleton_inj.mp h
    refine ⟨not_not.mp hcategory, ?_⟩
    rw [verdict?, if_neg hcategory, haborted]
    rfl

end Event

/-- A transition after which a run has ended has moved it, if the run had not ended before, and decides how. -/
theorem Transition.eq_outcome_of_ended {t : Transition} {s : RunState} (hopen : s.status.isTerminal = false)
    (hended : (t.act s).2.status.isTerminal = true) :
    t.ends = true ∧ (t.act s).1 = true ∧ (t.act s).2.status = t.outcome.1 := by
  rw [isTerminal_act, hopen, Bool.false_or, Bool.and_eq_true] at hended
  exact ⟨hended.1, hended.2, congrArg Prod.fst (outcome_act hended.1 hended.2)⟩

namespace Registry

structure Closes (r r' : Registry) (id : PipelineId) (status : RunStatus) : Prop where
  before : ∃ s, r.get? id = some s ∧ s.status.isTerminal = false
  after : ∃ s, r'.get? id = some s ∧ s.status = status
  terminal : status.isTerminal = true

namespace Closes

variable {r r' r'' : Registry} {id id' : PipelineId} {status : RunStatus} {ts : List Transition} {t : Transition}

theorem ne (h : r.Closes r' id status) : r'.get? id ≠ r.get? id := by
  obtain ⟨s, hs, hopen⟩ := h.before
  obtain ⟨s', hs', rfl⟩ := h.after
  rw [hs, hs']
  intro hsame
  obtain rfl := Option.some.inj hsame
  exact absurd (hopen.symm.trans h.terminal) Bool.false_ne_true

theorem turns (h : r.Closes r' id status) (hturns : r.Turns id' ts r') :
    id = id' ∧ ∃ s, r.get? id' = some s ∧ s.status.isTerminal = false ∧ (s.after ts).status = status := by
  obtain ⟨rfl, s, hs, hopen, hafter⟩ := hturns.of_ne h.ne
  obtain ⟨s', hs', hstatus⟩ := h.after
  obtain rfl := Option.some.inj (hafter.symm.trans hs')
  exact ⟨rfl, s, hs, hopen, hstatus⟩

theorem call (h : r.Closes (t.call r id').2 id status) :
    id = id' ∧ t.outcome.1 = status ∧ (t.call r id').1 = true := by
  obtain ⟨rfl, s, hs, hopen, hstatus⟩ := h.turns (.call t r id')
  have hstatus : (t.act s).2.status = status := hstatus
  obtain ⟨-, hmoved, houtcome⟩ := Transition.eq_outcome_of_ended hopen (hstatus ▸ h.terminal)
  refine ⟨rfl, houtcome.symm.trans hstatus, ?_⟩
  rw [Transition.call_fst, hs, Option.any_some, hmoved]

theorem split (h : r.Closes r'' id status) (hfirst : r.Turns id' ts r') (hrest : r'.KeepsEnded r'') :
    r.Closes r' id status ∨ r'.Closes r'' id status := by
  obtain ⟨s, hs, hopen⟩ := h.before
  obtain ⟨s₁, hs₁⟩ : ∃ s₁, r'.get? id = some s₁ := by
    by_cases hid : id = id'
    · subst hid
      exact ⟨_, hfirst.own.trans (by rw [hs, Option.map_some])⟩
    · exact ⟨s, (hfirst.others id hid).trans hs⟩
  cases hended : s₁.status.isTerminal with
  | false => exact .inr ⟨⟨s₁, hs₁, hended⟩, h.after, h.terminal⟩
  | true =>
      obtain ⟨s₂, hs₂, hstatus⟩ := h.after
      obtain rfl := Option.some.inj ((hrest id s₁ hs₁ hended).symm.trans hs₂)
      exact .inl ⟨⟨s, hs, hopen⟩, ⟨s₁, hs₁, hstatus⟩, h.terminal⟩

theorem of_status? {b b' : Bus} {old : RunStatus} (hbefore : b.status? id = some old) (hopen : old.isTerminal = false)
    (hafter : b'.status? id = some status) (hended : status.isTerminal = true) :
    b.registry.Closes b'.registry id status where
  before := by
    obtain ⟨s, hs, rfl⟩ := Option.map_eq_some_iff.mp hbefore
    exact ⟨s, hs, hopen⟩
  after := Option.map_eq_some_iff.mp hafter
  terminal := hended

end Closes

end Registry

namespace Bus

variable {b : Bus} {e : Event} {id : PipelineId} {status : RunStatus}

theorem announces_completion (id : PipelineId) : (completion id).Announces id .completed := ⟨rfl, rfl⟩

theorem mem_contribution (h : e.category = .lifecycle) (b : Bus) : e ∈ b.contribution (.ingest e) := by
  rw [contribution, if_neg (by simp [h])]
  exact List.mem_cons_self

/-- An event that ends a run is passed on and announces the end itself, or the announcement follows it. -/
theorem announces_ingest (h : b.registry.Closes (b.ingest e).2.registry id status) :
    ∃ e' ∈ b.contribution (.ingest e), e'.Announces id status := by
  obtain ⟨rfl, s, hs, hopen, hstatus⟩ := h.turns (b.turns_ingest e)
  have hended : (s.after e.asks).status.isTerminal = true := hstatus ▸ h.terminal
  obtain ⟨hasks | hasks, -⟩ | ⟨hasks, -⟩ | ⟨t, kind, hasks, -, hne, -⟩ := e.asks_cases <;> rw [hasks] at hstatus hended
  · exact absurd (hopen.symm.trans hended) Bool.false_ne_true
  · obtain ⟨hends, -⟩ := Transition.eq_outcome_of_ended (t := .markRunning) hopen hended
    cases hends
  · obtain ⟨-, hmoved, houtcome⟩ := Transition.eq_outcome_of_ended (t := .countSegment) hopen hended
    obtain rfl : .completed = status := houtcome.symm.trans hstatus
    obtain ⟨hcategory, hkind⟩ := Event.asks_countSegment_iff.mp hasks
    refine ⟨completion e.run, ?_, announces_completion e.run⟩
    rw [contribution, if_neg (by simp [hcategory]), extra,
      if_pos (completes_iff_countSegment.mpr ⟨⟨hcategory, hkind⟩, s, hs, hmoved⟩)]
    exact List.mem_cons_of_mem _ (List.mem_singleton_self _)
  · obtain ⟨hends, -, houtcome⟩ := Transition.eq_outcome_of_ended (t := t) hopen hended
    obtain ⟨hcategory, hverdict⟩ := Event.verdict?_of_asks hasks hends hne
    exact ⟨e, mem_contribution hcategory b, rfl, hverdict.trans (congrArg some (houtcome.symm.trans hstatus))⟩

theorem keepsEnded_acts (b : Bus) (es : List Event) : b.registry.KeepsEnded (b.acts (es.map .ingest)).registry := by
  induction es generalizing b with
  | nil => exact .refl _
  | cons e es ih =>
      intro id s hs hended
      exact ih (b.ingest e).2 id s ((b.turns_ingest e).keepsEnded id s hs hended) hended

theorem announces_acts {es : List Event} (h : b.registry.Closes (b.acts (es.map .ingest)).registry id status) :
    ∃ e' ∈ (b.contributions (es.map .ingest)).flatten, e'.Announces id status := by
  induction es generalizing b with
  | nil => exact absurd rfl h.ne
  | cons e es ih =>
      rw [List.map_cons, contributions, List.flatten_cons]
      rcases h.split (b.turns_ingest e) (keepsEnded_acts _ es) with hfirst | hrest
      · obtain ⟨e', he', hannounces⟩ := announces_ingest hfirst
        exact ⟨e', List.mem_append_left _ he', hannounces⟩
      · obtain ⟨e', he', hannounces⟩ := ih hrest
        exact ⟨e', List.mem_append_right _ he', hannounces⟩

end Bus

end Pipeworks
