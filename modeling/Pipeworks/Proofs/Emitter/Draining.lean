import Pipeworks.Proofs.Emitter.Account

/-!
What a shutdown makes sure of. A delivery task that finds the queue empty looks once more whether the emitter is closed
before it ends, and in between events may be added. So the shutdown that closes the emitter drains the queue, unless the
task is just between these two looks: then it ends without having taken what was added since the first one.
-/

namespace Pipeworks.Emitter.Traffic

variable {capacity n k : Nat} {t t' t'' : Traffic} {acts : List Act} {out : List Event}

/-! ### One act -/

def gone (t : Traffic) : Nat := t.handed.length + t.emitter.dropped

theorem Settled.length_fates {fates : List (Event × Bool)} (h : t.Settled fates) : fates.length = t.gone := by
  have hlength := h.length_eq
  rw [h.added, List.length_append, List.length_map] at hlength
  rw [gone]
  omega

theorem Balanced.length_added (h : t.Balanced capacity) : t.added.length = t.gone + t.emitter.queue.length := by
  obtain ⟨fates, hfates⟩ := h.settled
  rw [hfates.added, List.length_append, List.length_map, hfates.length_fates]

structure Grows (t t' : Traffic) : Prop where
  added : t.added <+: t'.added
  gone : t.gone ≤ t'.gone
  closed : t.emitter.closed = true → t'.emitter.closed = true
  doomed : t.doomed = true → t'.doomed = true
  claimed : t.claimed = true → t'.claimed = true
  closings : t.closings.length ≤ t'.closings.length

namespace Grows

theorem refl (t : Traffic) : t.Grows t := ⟨List.prefix_rfl, le_rfl, id, id, id, le_rfl⟩

theorem trans (h : t.Grows t') (h' : t'.Grows t'') : t.Grows t'' :=
  ⟨h.added.trans h'.added, h.gone.trans h'.gone, h'.closed ∘ h.closed, h'.doomed ∘ h.doomed, h'.claimed ∘ h.claimed,
    h.closings.trans h'.closings⟩

theorem not_doomed (h : t.Grows t') (hspared : t'.doomed = false) : t.doomed = false := by
  by_contra hdoomed
  rw [h.doomed (by simpa using hdoomed)] at hspared
  cases hspared

end Grows

/-- What an act does to the task. It only ends after it was closed or doomed, and before it doubts it has found the
queue empty. -/
inductive Moves (t t' : Traffic) : Prop where
  | stays : t'.task = t.task → t'.handed = t.handed → Moves t t'
  | takes : t.task = .taking → t'.task = .delivering → Moves t t'
  | misses : t.task = .taking → t.emitter.queue = [] → t'.task = .doubting → t'.handed = t.handed → Moves t t'
  | waits : t.task = .doubting → t.emitter.closed = false → t'.task = .waiting → Moves t t'
  | ends : t.task = .doubting → t.emitter.closed = true → t'.task = .ended → t'.handed = t.handed → Moves t t'
  | resumes : t.task = .waiting ∨ t.task = .delivering → t'.task = .taking → Moves t t'
  | stops : t.doomed = true → t'.task = .ended → Moves t t'

theorem dropped_le_add (q : Emitter) (e : Event) : q.dropped ≤ (q.add e).dropped := by
  obtain ⟨-, hadd⟩ | ⟨d, ds, -, hadd⟩ := add_cases q e
  · rw [hadd]
  · rw [hadd]
    exact Nat.le_succ _

theorem closed_add (q : Emitter) (e : Event) : (q.add e).closed = q.closed := by
  obtain ⟨-, hadd⟩ | ⟨d, ds, -, hadd⟩ := add_cases q e <;> rw [hadd]

theorem task_handOn (t : Traffic) (k : Nat) : (t.handOn k).task = t.task ∧ (t.handOn k).handed = t.handed := by
  unfold handOn
  split
  · split <;> exact ⟨rfl, rfl⟩
  all_goals exact ⟨rfl, rfl⟩

theorem task_closeOn (t : Traffic) (k : Nat) (inTime : Bool) :
    (t.closeOn k inTime).task = t.task ∧ (t.closeOn k inTime).handed = t.handed := by
  unfold closeOn
  split
  · exact ⟨rfl, rfl⟩
  · exact ⟨rfl, rfl⟩
  · split <;> exact ⟨rfl, rfl⟩
  · split_ifs <;> exact ⟨rfl, rfl⟩
  · exact ⟨rfl, rfl⟩

theorem moves_deliverOn (h : t.Balanced capacity) : t.Moves t.deliverOn := by
  unfold deliverOn
  cases htask : t.task with
  | taking =>
      have hrun : t.task ≠ .ended := by simp [htask]
      have hfree := h.free hrun (by simp [htask])
      obtain ⟨hempty, htake⟩ | ⟨d, ds, -, htake⟩ := take_cases hfree (h.running hrun)
      · simp only [htake, hfree]
        exact .misses htask hempty rfl rfl
      · simp only [htake]
        exact .takes htask rfl
  | doubting =>
      cases hclosed : t.emitter.closed with
      | true => exact .ends htask hclosed rfl rfl
      | false => exact .waits htask hclosed rfl
  | waiting =>
      dsimp only
      split
      · exact .resumes (.inl htask) rfl
      · exact .stays rfl rfl
  | delivering => exact .stays rfl rfl
  | ended => exact .stays rfl rfl

theorem moves_play (h : t.Balanced capacity) (act : Act) : t.Moves (t.play act) := by
  cases act with
  | call e => exact .stays rfl rfl
  | hand k => exact .stays (t.task_handOn k).1 (t.task_handOn k).2
  | shutDown => exact .stays rfl rfl
  | close k inTime => exact .stays (t.task_closeOn k inTime).1 (t.task_closeOn k inTime).2
  | deliver => exact moves_deliverOn h
  | answer success =>
      change t.Moves t.answered
      rw [answered]
      split_ifs with htask
      · exact .resumes (.inr htask) rfl
      · exact .stays rfl rfl
  | stop =>
      change t.Moves t.stopped
      rw [stopped]
      split_ifs with hdoomed
      · exact .stops hdoomed.1 rfl
      · exact .stays rfl rfl

theorem grows_handOn (t : Traffic) (k : Nat) : t.Grows (t.handOn k) := by
  unfold handOn
  split
  · split <;> exact ⟨List.prefix_rfl, le_rfl, id, id, id, le_rfl⟩
  · next e _ =>
      refine ⟨List.prefix_append _ _, Nat.add_le_add_left (dropped_le_add _ e) _, fun hclosed => ?_, id, id, le_rfl⟩
      exact (closed_add _ e).trans hclosed
  · exact ⟨List.prefix_rfl, le_rfl, id, id, id, le_rfl⟩
  · exact .refl t

theorem grows_closeOn (t : Traffic) (k : Nat) (inTime : Bool) : t.Grows (t.closeOn k inTime) := by
  have hset (c : Closing) : t.closings.length ≤ (t.closings.set k c).length := (List.length_set ..).ge
  unfold closeOn
  split
  · exact ⟨List.prefix_rfl, le_rfl, fun _ => rfl, id, id, hset _⟩
  · exact ⟨List.prefix_rfl, le_rfl, id, id, id, hset _⟩
  · split
    · exact ⟨List.prefix_rfl, le_rfl, id, id, id, hset _⟩
    · exact ⟨List.prefix_rfl, le_rfl, id, id, fun _ => rfl, hset _⟩
  · split_ifs
    · exact ⟨List.prefix_rfl, le_rfl, id, id, id, hset _⟩
    · exact .refl t
    · exact ⟨List.prefix_rfl, le_rfl, id, fun _ => rfl, id, hset _⟩
  · exact .refl t

theorem grows_deliverOn (h : t.Balanced capacity) : t.Grows t.deliverOn := by
  unfold deliverOn
  cases htask : t.task with
  | taking =>
      have hrun : t.task ≠ .ended := by simp [htask]
      have hfree := h.free hrun (by simp [htask])
      obtain ⟨-, htake⟩ | ⟨d, ds, -, htake⟩ := take_cases hfree (h.running hrun)
      · simp only [htake, hfree]
        exact ⟨List.prefix_rfl, le_rfl, id, id, id, le_rfl⟩
      · simp only [htake]
        refine ⟨List.prefix_rfl, ?_, id, id, id, le_rfl⟩
        simp only [gone, List.length_append]
        omega
  | doubting => exact ⟨List.prefix_rfl, le_rfl, id, id, id, le_rfl⟩
  | waiting =>
      dsimp only
      split
      · exact ⟨List.prefix_rfl, le_rfl, id, id, id, le_rfl⟩
      · exact .refl t
  | delivering => exact .refl t
  | ended => exact .refl t

theorem grows_play (h : t.Balanced capacity) (act : Act) : t.Grows (t.play act) := by
  cases act with
  | call e => exact ⟨List.prefix_rfl, le_rfl, id, id, id, le_rfl⟩
  | hand k => exact grows_handOn t k
  | shutDown => exact ⟨List.prefix_rfl, le_rfl, id, id, id, by simp [play]⟩
  | close k inTime => exact grows_closeOn t k inTime
  | deliver => exact grows_deliverOn h
  | answer success =>
      change t.Grows t.answered
      rw [answered]
      split_ifs with htask
      · have hrelease : t.emitter.release.2 = { t.emitter with inHand := none } := by
          simp [release, h.running (by simp [htask])]
        rw [hrelease]
        exact ⟨List.prefix_rfl, le_rfl, id, id, id, le_rfl⟩
      · exact .refl t
  | stop =>
      change t.Grows t.stopped
      rw [stopped]
      split_ifs
      · exact ⟨List.prefix_rfl, le_rfl, id, id, id, le_rfl⟩
      · exact .refl t

theorem grows_plays (h : t.Balanced capacity) (acts : List Act) : t.Grows (t.plays acts) := by
  induction acts generalizing t with
  | nil => exact .refl t
  | cons act acts ih => exact (grows_play h act).trans (ih (h.play act))

/-! ### Shutdowns -/

theorem mem_set_of_ne {α : Type} {l : List α} {a b : α} (ha : a ∈ l) (hb : l[k]? = some b) (hne : a ≠ b) (c : α) :
    a ∈ l.set k c := by
  obtain ⟨j, hj⟩ := List.mem_iff_getElem?.mp ha
  have hjk : k ≠ j := by
    rintro rfl
    exact hne (Option.some.inj (hj.symm.trans hb))
  exact List.mem_iff_getElem?.mpr ⟨j, (List.getElem?_set_ne hjk).trans hj⟩

theorem closings_play (t : Traffic) (act : Act) (hshutDown : act ≠ .shutDown)
    (hclose : ∀ k inTime, act ≠ .close k inTime) :
    (t.play act).closings = t.closings ∧ (t.play act).claimed = t.claimed := by
  cases act with
  | call e => exact ⟨rfl, rfl⟩
  | hand k =>
      change (t.handOn k).closings = _ ∧ (t.handOn k).claimed = _
      unfold handOn
      split
      · split <;> exact ⟨rfl, rfl⟩
      all_goals exact ⟨rfl, rfl⟩
  | shutDown => exact absurd rfl hshutDown
  | close k inTime => exact absurd rfl (hclose k inTime)
  | deliver =>
      change t.deliverOn.closings = _ ∧ t.deliverOn.claimed = _
      unfold deliverOn
      split
      · dsimp only
        split <;> exact ⟨rfl, rfl⟩
      · exact ⟨rfl, rfl⟩
      · split <;> exact ⟨rfl, rfl⟩
      · exact ⟨rfl, rfl⟩
  | answer success =>
      change t.answered.closings = _ ∧ t.answered.claimed = _
      rw [answered]
      split_ifs <;> exact ⟨rfl, rfl⟩
  | stop =>
      change t.stopped.closings = _ ∧ t.stopped.claimed = _
      rw [stopped]
      split_ifs <;> exact ⟨rfl, rfl⟩

structure Attended (t : Traffic) : Prop where
  /-- Nobody is done before somebody has taken hold of the task. -/
  claimed : .waiting ∈ t.closings ∨ .over ∈ t.closings → t.claimed = true
  waited : t.claimed = true → .waiting ∈ t.closings ∨ t.doomed = true ∨ t.task = .ended
  ended : t.task = .ended → t.emitter.closed = true ∨ t.doomed = true

namespace Attended

theorem start (capacity : Nat) : Attended { emitter := { capacity } } :=
  ⟨by simp, by simp, by simp⟩

/-- What takes nobody to the waiting, and nobody from there. -/
theorem keep (h : t.Attended) (hgrows : t.Grows t') (hmoves : t.Moves t')
    (hwaiting : .waiting ∈ t'.closings ↔ .waiting ∈ t.closings) (hover : .over ∈ t'.closings ↔ .over ∈ t.closings)
    (hclaimed : t'.claimed = t.claimed) : t'.Attended := by
  have hends : t.task = .ended → t'.task = .ended := by
    intro hended
    cases hmoves with
    | stays hsame => exact hsame.trans hended
    | takes htask | misses htask | waits htask | ends htask => exact absurd (htask.symm.trans hended) (by decide)
    | resumes htask => simp [hended] at htask
    | stops _ hended' => exact hended'
  refine ⟨?_, ?_, fun hended => ?_⟩
  · rw [hwaiting, hover, hclaimed]
    exact h.claimed
  · rw [hwaiting, hclaimed]
    exact fun hclaimed => (h.waited hclaimed).imp_right (Or.imp hgrows.doomed hends)
  · cases hmoves with
    | stays hsame => exact (h.ended (hsame.symm.trans hended)).imp hgrows.closed hgrows.doomed
    | takes _ htask | misses _ _ htask | waits _ _ htask | resumes _ htask =>
        exact absurd (htask.symm.trans hended) (by decide)
    | ends _ hclosed => exact .inl (hgrows.closed hclosed)
    | stops hdoomed => exact .inr (hgrows.doomed hdoomed)

theorem closeOn (h : t.Attended) (k : Nat) (inTime : Bool) : (t.closeOn k inTime).Attended := by
  have hgrows := grows_closeOn t k inTime
  have hmoves : t.Moves (t.closeOn k inTime) := .stays (t.task_closeOn k inTime).1 (t.task_closeOn k inTime).2
  revert hgrows hmoves
  unfold Traffic.closeOn
  split
  · next hk =>
      intro hgrows hmoves
      have hmem (c : Closing) (hne : c ≠ .asked) (hne' : c ≠ .closed) :
          c ∈ t.closings.set k .closed ↔ c ∈ t.closings :=
        ⟨fun hc => (List.mem_or_eq_of_mem_set hc).resolve_right hne', fun hc => mem_set_of_ne hc hk hne _⟩
      exact h.keep hgrows hmoves (hmem _ (by decide) (by decide)) (hmem _ (by decide) (by decide)) rfl
  · next hk =>
      intro hgrows hmoves
      have hmem (c : Closing) (hne : c ≠ .closed) (hne' : c ≠ .woken) :
          c ∈ t.closings.set k .woken ↔ c ∈ t.closings :=
        ⟨fun hc => (List.mem_or_eq_of_mem_set hc).resolve_right hne', fun hc => mem_set_of_ne hc hk hne _⟩
      exact h.keep hgrows hmoves (hmem _ (by decide) (by decide)) (hmem _ (by decide) (by decide)) rfl
  · next hk =>
      rintro - -
      split_ifs with hclaimed
      · refine ⟨fun _ => hclaimed, fun _ => ?_, h.ended⟩
        exact (h.waited hclaimed).imp_left fun hwaiting => mem_set_of_ne hwaiting hk (by decide) _
      · refine ⟨fun _ => rfl, fun _ => .inl ?_, h.ended⟩
        exact List.mem_set (List.getElem?_eq_some_iff.mp hk).1 _
  · next hk =>
      rintro - -
      have hclaimed := h.claimed (.inl (List.mem_of_getElem? hk))
      split_ifs with hended
      · exact ⟨fun _ => hclaimed, fun _ => .inr (.inr hended), h.ended⟩
      · exact h
      · exact ⟨fun _ => hclaimed, fun _ => .inr (.inl rfl), fun hended' => absurd hended' hended⟩
  · rintro - -
    exact h

theorem play (h : t.Attended) (hbalanced : t.Balanced capacity) (act : Act) : (t.play act).Attended := by
  have hgrows := grows_play hbalanced act
  have hmoves := moves_play hbalanced act
  have hkeep := closings_play t act
  cases act with
  | shutDown => exact h.keep hgrows hmoves (by simp [Traffic.play]) (by simp [Traffic.play]) rfl
  | close k inTime => exact h.closeOn k inTime
  | call | hand | deliver | answer | stop =>
      obtain ⟨hclosings, hclaimed⟩ := hkeep (by simp) (by simp)
      exact h.keep hgrows hmoves (by rw [hclosings]) (by rw [hclosings]) hclaimed

theorem plays (h : t.Attended) (hbalanced : t.Balanced capacity) (acts : List Act) : (t.plays acts).Attended := by
  induction acts generalizing t with
  | nil => exact h
  | cons act acts ih => exact ih (h.play hbalanced act) (hbalanced.play act)

theorem after (capacity : Nat) (acts : List Act) : (after capacity acts).Attended :=
  (start capacity).plays (.start capacity) acts

theorem task_eq_ended (h : t.Attended) (hsome : t.closings ≠ []) (hover : ∀ c ∈ t.closings, c = .over)
    (hspared : t.doomed = false) : t.task = .ended := by
  obtain ⟨c, hc⟩ := List.exists_mem_of_ne_nil _ hsome
  obtain rfl := hover c hc
  obtain hwaiting | hdoomed | hended := h.waited (h.claimed (.inr hc))
  · cases hover _ hwaiting
  · rw [hspared] at hdoomed
    cases hdoomed
  · exact hended

end Attended

/-! ### After the emitter was closed -/

/-- What every act keeps while the task is not to be stopped. -/
theorem plays_spared {P : Traffic → Prop}
    (hplay : ∀ t act, P t → t.Balanced capacity → (t.play act).doomed = false → P (t.play act)) (h : P t)
    (hbalanced : t.Balanced capacity) (acts : List Act) (hspared : (t.plays acts).doomed = false) :
    P (t.plays acts) := by
  induction acts generalizing t with
  | nil => exact h
  | cons act acts ih =>
      have hbalanced' := hbalanced.play act
      exact ih (hplay t act h hbalanced ((grows_plays hbalanced' acts).not_doomed hspared)) hbalanced' hspared

/-- The first `n` events are not out of sight of the task: before it ends, it looks into the queue again, unless they do
not wait any more. -/
structure Pursued (n : Nat) (t : Traffic) : Prop where
  closed : t.emitter.closed = true
  added : n ≤ t.added.length
  gone : t.task = .doubting ∨ t.task = .ended → n ≤ t.gone

theorem Pursued.play (h : t.Pursued n) (hbalanced : t.Balanced capacity) (act : Act)
    (hspared : (t.play act).doomed = false) : (t.play act).Pursued n := by
  have hgrows := grows_play hbalanced act
  refine ⟨hgrows.closed h.closed, h.added.trans hgrows.added.length_le, fun htask => ?_⟩
  cases moves_play hbalanced act with
  | stays hsame => exact (h.gone (hsame ▸ htask)).trans hgrows.gone
  | takes _ htask' | waits _ _ htask' | resumes _ htask' => simp [htask'] at htask
  | misses _ hempty =>
      have hlength := hbalanced.length_added
      rw [hempty, List.length_nil, Nat.add_zero] at hlength
      exact (hlength ▸ h.added).trans hgrows.gone
  | ends hdoubting => exact (h.gone (.inl hdoubting)).trans hgrows.gone
  | stops hdoomed =>
      rw [hgrows.not_doomed hspared] at hdoomed
      cases hdoomed

structure Resigned (out : List Event) (t : Traffic) : Prop where
  closed : t.emitter.closed = true
  task : t.task = .doubting ∨ t.task = .ended
  handed : t.handed = out

theorem Resigned.play (h : t.Resigned out) (hbalanced : t.Balanced capacity) (act : Act)
    (hspared : (t.play act).doomed = false) : (t.play act).Resigned out := by
  have hgrows := grows_play hbalanced act
  cases moves_play hbalanced act with
  | stays hsame hhanded => exact ⟨hgrows.closed h.closed, hsame ▸ h.task, hhanded.trans h.handed⟩
  | takes htask | misses htask => simpa [htask] using h.task
  | waits _ hopen => simpa [hopen] using h.closed
  | ends _ _ hended hhanded => exact ⟨hgrows.closed h.closed, .inr hended, hhanded.trans h.handed⟩
  | resumes htask =>
      obtain htask | htask := htask <;> simpa [htask] using h.task
  | stops hdoomed =>
      rw [hgrows.not_doomed hspared] at hdoomed
      cases hdoomed

/-! ### What a shutdown drains -/

theorem play_close (hasked : t.closings[k]? = some .asked) (inTime : Bool) :
    t.play (.close k inTime) = { t with emitter := t.emitter.close }.setClosing k .closed := by
  change t.closeOn k inTime = _
  rw [closeOn, hasked]

/-- Who closes the emitter leaves nothing behind, unless the task stands between its two looks and something waits. -/
theorem pursued_close (hbalanced : t.Balanced capacity) (hattended : t.Attended) (hasked : t.closings[k]? = some .asked)
    (hopen : t.emitter.closed = false) (hspared : t.doomed = false) (hsafe : t.task ≠ .doubting ∨ t.emitter.queue = [])
    (inTime : Bool) : (t.play (.close k inTime)).Pursued t.added.length := by
  rw [play_close hasked]
  refine ⟨rfl, le_rfl, fun htask => ?_⟩
  obtain hdoubting | hended : t.task = .doubting ∨ t.task = .ended := htask
  · have hempty := hsafe.resolve_left fun hne => hne hdoubting
    have hlength := hbalanced.length_added
    rw [hempty] at hlength
    exact hlength.le
  · obtain hclosed | hdoomed := hattended.ended hended
    · exact absurd (hclosed.symm.trans hopen) (by decide)
    · exact absurd (hdoomed.symm.trans hspared) (by decide)

theorem resigned_close (hasked : t.closings[k]? = some .asked) (hdoubting : t.task = .doubting) (inTime : Bool) :
    (t.play (.close k inTime)).Resigned t.handed := by
  rw [play_close hasked]
  exact ⟨rfl, .inl hdoubting, rfl⟩

theorem Settled.prefix_of_gone {fates : List (Event × Bool)} {es : List Event} (h : t.Settled fates)
    (hes : es <+: t.added) (hgone : es.length ≤ t.gone) : es <+: fates.map (·.1) := by
  rw [h.added] at hes
  refine List.prefix_of_prefix_length_le hes (List.prefix_append _ _) ?_
  rwa [List.length_map, h.length_fates]

/-- However handing over, shutting down and delivering are interleaved: let a shutdown be the one that closes the
emitter, and all shutdowns be over in the end, none of them cut off. Then the task has ended. Each event that was added
before the emitter was closed has been handed to the receiver, once and in order, or was lost because the queue was
full, unless the task had found the queue empty and was about to look whether the emitter is closed while events were
added. In this case no event at all is handed over after the emitter was closed. -/
theorem shutdown_drains_unless_doubting (capacity : Nat) (before rest : List Act) (k : Nat) (inTime : Bool) :
    let t₁ := after capacity before
    let t := after capacity (before ++ .close k inTime :: rest)
    t₁.closings[k]? = some .asked → t₁.emitter.closed = false → (∀ c ∈ t.closings, c = .over) → t.doomed = false →
      t.task = .ended ∧
      (t₁.task ≠ .doubting ∨ t₁.emitter.queue = [] → ∃ fates, t.Settled fates ∧ t₁.added <+: fates.map (·.1)) ∧
      (t₁.task = .doubting → t.handed = t₁.handed) := by
  intro t₁ t hasked hopen hover hspared
  have hbalanced₁ := Balanced.after capacity before
  have hbalanced₂ := hbalanced₁.play (.close k inTime)
  have hplays : t = (t₁.play (.close k inTime)).plays rest := List.foldl_append
  have hgrows : t₁.Grows t := by
    rw [hplays]
    exact (grows_play hbalanced₁ _).trans (grows_plays hbalanced₂ rest)
  have hspared₁ : t₁.doomed = false := hgrows.not_doomed hspared
  have hended : t.task = .ended := by
    refine (Attended.after capacity _).task_eq_ended (fun hnone => ?_) hover hspared
    have hlength := hgrows.closings
    rw [show t.closings = [] from hnone, List.length_nil] at hlength
    have hk := (List.getElem?_eq_some_iff.mp hasked).1
    omega
  refine ⟨hended, fun hsafe => ?_, fun hdoubting => ?_⟩
  · have hpursued := pursued_close hbalanced₁ (.after capacity before) hasked hopen hspared₁ hsafe inTime
    have hgone : t₁.added.length ≤ t.gone := by
      rw [hplays] at hended hspared ⊢
      exact (plays_spared (P := Pursued _) (fun _ act h hbalanced => h.play hbalanced act) hpursued hbalanced₂ rest
        hspared).gone (.inr hended)
    obtain ⟨fates, hfates⟩ := (Balanced.after capacity (before ++ .close k inTime :: rest)).settled
    exact ⟨fates, hfates, hfates.prefix_of_gone hgrows.added hgone⟩
  · rw [hplays] at hspared ⊢
    exact (plays_spared (P := Resigned _) (fun _ act h hbalanced => h.play hbalanced act)
      (resigned_close hasked hdoubting inTime) hbalanced₂ rest hspared).handed

def busy : List Act := handing 0 ++ [.deliver] ++ handing 1 ++ [.shutDown]

/-- The rest of the shutdown and of the delivery: the receiver answers twice, and the task finds the queue empty and the
emitter closed. -/
def winding : List Act :=
  [.close 0 true, .close 0 true, .answer true, .deliver, .answer false, .deliver, .deliver, .close 0 true]

/-- Both events are handed over. -/
theorem busy_drains :
    let t₁ := after 2 busy
    let t := after 2 (busy ++ .close 0 true :: winding)
    t₁.closings[0]? = some .asked ∧ t₁.emitter.closed = false ∧ (∀ c ∈ t.closings, c = .over) ∧ t.doomed = false ∧
      t.task = .ended ∧ t₁.added = [begun 0, begun 1] ∧ t.handed = [begun 0, begun 1] ∧
      ∃ fates, t.Settled fates ∧ t₁.added <+: fates.map (·.1) := by
  obtain ⟨hended, hdrains, -⟩ := shutdown_drains_unless_doubting 2 busy winding 0 true rfl rfl (by decide) rfl
  exact ⟨rfl, rfl, by decide, rfl, hended, rfl, rfl, hdrains (.inl (by decide))⟩

/-- The task has found the queue empty; then an event is added, and somebody is about to shut down. -/
def belated : List Act := .deliver :: handing 0 ++ [.shutDown]

/-- Not every shutdown that is not cut off drains the queue: an event that was added just before may be left waiting for
ever. -/
theorem not_shutdown_drains :
    ¬∀ (capacity : Nat) (before rest : List Act) (inTime : Bool),
      let t₁ := after capacity before
      let t := after capacity (before ++ .close 0 inTime :: rest)
      t₁.closings = [.asked] → t.closings = [.over] → t.doomed = false →
        ∃ fates, t.Settled fates ∧ t₁.added <+: fates.map (·.1) := by
  intro hall
  -- the emitter is closed, the task woken and taken hold of; it finds the emitter closed and ends
  let rest : List Act := [.close 0 true, .close 0 true, .deliver, .close 0 true]
  obtain ⟨fates, hfates, hprefix⟩ := hall 1 belated rest true rfl rfl rfl
  have hgone : (after 1 (belated ++ .close 0 true :: rest)).gone = 0 := rfl
  have hlength := hprefix.length_le
  rw [List.length_map, hfates.length_fates, hgone] at hlength
  exact absurd hlength (by decide)

end Pipeworks.Emitter.Traffic
