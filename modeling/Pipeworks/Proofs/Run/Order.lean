import Pipeworks.Run.Traffic
import Pipeworks.Proofs.Run.Log
import Mathlib.Data.List.Induction
import Mathlib.Data.List.Nodup

/-!
The order in which observers are told of the segments of a run and of its end, when events are handed in at the same
time. Whoever completes a run has sent its own event before it announces that. Any other call whose segment was counted
has done so too, unless it was on its way from the count to the sending when the run was completed: then its event may
be sent when the end of the run has been announced already.
-/

namespace Pipeworks

/-- A finished segment of a run that has not ended is counted, and nothing else is. -/
theorem RunState.completedSegments_after_asks (s : RunState) (e : Event) :
    (s.after e.asks).completedSegments =
      s.completedSegments + if e.asks = [.countSegment] ∧ s.status.isTerminal = false then 1 else 0 := by
  obtain ⟨hasks | hasks, -⟩ | ⟨hasks, -⟩ | ⟨t, kind, hasks, -, hne, -⟩ := e.asks_cases <;> rw [hasks]
  · simp [after]
  · simp [after, Transition.completedSegments_act]
  · simp [after, Transition.completedSegments_act]
  · simp [after, Transition.completedSegments_act, hne]

/-! ### Counts in the registry -/

namespace Registry

def counted (r : Registry) (id : PipelineId) : Nat := ((r.get? id).map (·.completedSegments)).getD 0

theorem counted_init (r : Registry) (id id' : PipelineId) (segments : Nat) :
    (r.init id' segments).counted id = r.counted id := by
  rw [counted, get?_init, counted]
  split_ifs with hid
  · subst hid
    cases r.get? id <;> rfl
  · rfl

theorem counted_reset (r : Registry) (id id' : PipelineId) :
    (r.reset id').counted id = if id = id' then 0 else r.counted id := by
  rw [counted, get?_reset]
  split_ifs with hid
  · rfl
  · rfl

theorem counted_call {t : Transition} (ht : t ≠ .countSegment) (r : Registry) (id id' : PipelineId) :
    (t.call r id').2.counted id = r.counted id := by
  rw [counted, Transition.get?_call, counted]
  split_ifs with hid
  · subst hid
    cases r.get? id <;> simp [Transition.completedSegments_act, ht]
  · rfl

theorem counted_apply {e : Event} (h : e.category = .lifecycle) (r : Registry) (id : PipelineId) :
    (Bus.apply r e).2.counted id =
      r.counted id + if Bus.Traffic.counts r e = true ∧ e.run = id then 1 else 0 := by
  have hturns := Bus.turns_apply h r
  rw [counted, counted]
  by_cases hid : e.run = id
  · subst hid
    rw [hturns.own, Bus.Traffic.counts]
    have hasks := Event.asks_countSegment_iff (e := e)
    cases r.get? e.run with
    | none => simp
    | some s => simp [RunState.completedSegments_after_asks, hasks, h]
  · rw [hturns.others id (Ne.symm hid), if_neg fun h => hid h.2, Nat.add_zero]

end Registry

namespace Bus

def Call.Passed (c : Call) : Prop := c.leg = .sent ∨ c.leg = .ended ∧ c.event.category ≠ .unknown

namespace Traffic

variable {t t' : Traffic} {k : Nat} {c : Call} {leg : Leg} {id : PipelineId}

/-! ### One act -/

theorem play_advance (h : t.calls[k]? = some c) : t.play (.advance k) = t.carryOn k c := by
  rw [play, h]

theorem play_advance_of_ended (h : t.calls[k]? = some c) (hleg : c.leg = .ended) : t.play (.advance k) = t := by
  rw [play_advance h, carryOn, hleg]

theorem getElem?_setLeg (h : t.calls[k]? = some c) (leg : Leg) (j : Nat) :
    (t.setLeg k c leg).calls[j]? = if j = k then some { c with leg } else t.calls[j]? := by
  obtain ⟨hlt, -⟩ := List.getElem?_eq_some_iff.mp h
  change (t.calls.set k _)[j]? = _
  rw [List.getElem?_set]
  split_ifs with hk hj hj
  · rfl
  · exact absurd hk.symm hj
  · exact absurd hj.symm hk
  · rfl

theorem leg_setLeg (h : t.calls[k]? = some c) (leg : Leg) : (t.setLeg k c leg).calls[k]? = some { c with leg } := by
  rw [getElem?_setLeg h, if_pos rfl]

/-- A call that nobody interrupts is the handing in of the event in one step. -/
theorem bus_plays_alone (t : Traffic) (e : Event) :
    (t.plays [.ingest e, .advance t.calls.length, .advance t.calls.length, .advance t.calls.length]).bus =
      (t.bus.ingest e).2 := by
  have hcall : (t.play (.ingest e)).calls[t.calls.length]? = some { event := e } := by simp [play]
  simp only [plays, List.foldl_cons, List.foldl_nil]
  rw [play_advance hcall, ingest, carryOn]
  cases hcategory : e.category with
  | unknown =>
      have hended := leg_setLeg hcall .ended
      dsimp only
      rw [play_advance_of_ended hended rfl, play_advance_of_ended hended rfl]
      rfl
  | stream =>
      have hended := leg_setLeg (t := (t.play (.ingest e)).post (.handedIn t.calls.length) e) hcall .ended
      dsimp only
      rw [play_advance_of_ended hended rfl, play_advance_of_ended hended rfl]
      rfl
  | lifecycle =>
      dsimp only
      have happlied := leg_setLeg (t := (t.play (.ingest e)).affect t.calls.length e) hcall
        (.applied (Bus.apply t.bus.registry e).1)
      have hbus : (t.play (.ingest e)).bus = t.bus := rfl
      rw [hbus, play_advance happlied, carryOn]
      dsimp only
      have hsent := leg_setLeg (t := (((t.play (.ingest e)).affect t.calls.length e).setLeg t.calls.length _ _).post
        (.handedIn t.calls.length) e) happlied (if (Bus.apply t.bus.registry e).1 then .sent else .ended)
      cases hcompleted : (Bus.apply t.bus.registry e).1 with
      | false =>
          rw [hcompleted] at hsent
          rw [play_advance_of_ended hsent rfl]
          rfl
      | true =>
          rw [hcompleted] at hsent
          rw [play_advance hsent]
          rfl

theorem getElem?_ingest {e : Event} (h : (t.play (.ingest e)).calls[k]? = some c) :
    t.calls[k]? = some c ∨ k = t.calls.length ∧ c = { event := e } := by
  change (t.calls ++ [_])[k]? = _ at h
  obtain hk | hk := Nat.lt_or_ge k t.calls.length
  · exact .inl (by rwa [List.getElem?_append_left hk] at h)
  · rw [List.getElem?_append_right hk, List.getElem?_singleton] at h
    split_ifs at h with hlast
    exact .inr ⟨by omega, (Option.some.inj h).symm⟩

inductive Goes (t : Traffic) (k : Nat) (c : Call) : Traffic → Prop where
  | ignored (hleg : c.leg = .asked) (hcategory : c.event.category = .unknown) : Goes t k c (t.setLeg k c .ended)
  | applied (hleg : c.leg = .asked) (hcategory : c.event.category = .lifecycle) :
      Goes t k c ((t.affect k c.event).setLeg k c (.applied (Bus.apply t.bus.registry c.event).1))
  | sent {next : Leg} (hleg : c.leg = .asked ∧ next = .ended ∨ c.leg = .applied true ∧ next = .sent ∨
      c.leg = .applied false ∧ next = .ended) : Goes t k c ((t.post (.handedIn k) c.event).setLeg k c next)
  | announced (hleg : c.leg = .sent) :
      Goes t k c ((t.setLeg k c .ended).post (.completed k) (completion c.event.run))
  | idle (hleg : c.leg = .ended) : Goes t k c t

theorem goes_carryOn (t : Traffic) (k : Nat) (c : Call) : t.Goes k c (t.carryOn k c) := by
  rw [carryOn]
  cases hleg : c.leg with
  | asked =>
      cases hcategory : c.event.category with
      | unknown => exact .ignored hleg hcategory
      | stream => exact .sent (.inl ⟨hleg, rfl⟩)
      | lifecycle => exact .applied hleg hcategory
  | applied completed =>
      cases completed with
      | true => exact .sent (.inr (.inl ⟨hleg, rfl⟩))
      | false => exact .sent (.inr (.inr ⟨hleg, rfl⟩))
  | sent => exact .announced hleg
  | ended => exact .idle hleg

/-! ### What stays -/

structure Grows (t t' : Traffic) : Prop where
  posts : t.posts <+: t'.posts
  calls : ∀ {k : Nat} {c : Call}, t.calls[k]? = some c →
    ∃ c', t'.calls[k]? = some c' ∧ c'.event = c.event ∧ (c.leg ≠ .asked → c'.leg ≠ .asked) ∧ (c.leg = .ended → c' = c)

namespace Grows

theorem refl (t : Traffic) : t.Grows t := ⟨List.prefix_rfl, fun h => ⟨_, h, rfl, id, fun _ => rfl⟩⟩

theorem trans {t'' : Traffic} (h : t.Grows t') (h' : t'.Grows t'') : t.Grows t'' where
  posts := h.posts.trans h'.posts
  calls hc := by
    obtain ⟨c', hc', hevent, hbegun, hended⟩ := h.calls hc
    obtain ⟨c'', hc'', hevent', hbegun', hended'⟩ := h'.calls hc'
    refine ⟨c'', hc'', hevent'.trans hevent, fun hleg => hbegun' (hbegun hleg), fun hleg => ?_⟩
    obtain rfl := hended hleg
    exact hended' hleg

theorem of_calls_eq (hposts : t.posts <+: t'.posts) (hcalls : t'.calls = t.calls) : t.Grows t' :=
  ⟨hposts, fun h => ⟨_, hcalls ▸ h, rfl, id, fun _ => rfl⟩⟩

theorem setLeg (hk : t.calls[k]? = some c) (hended : c.leg ≠ .ended) (hleg : leg ≠ .asked) :
    t.Grows (t.setLeg k c leg) where
  posts := List.prefix_rfl
  calls {j d} hd := by
    rw [getElem?_setLeg hk]
    split_ifs with hj
    · obtain rfl := Option.some.inj (hk.symm.trans (hj ▸ hd))
      exact ⟨_, rfl, rfl, fun _ => hleg, fun h => absurd h hended⟩
    · exact ⟨d, hd, rfl, id, fun _ => rfl⟩

theorem post (t : Traffic) (o : Occasion) (e : Event) : t.Grows (t.post o e) :=
  .of_calls_eq (List.prefix_append _ _) rfl

end Grows

theorem Goes.grows (h : t.Goes k c t') (hk : t.calls[k]? = some c) : t.Grows t' := by
  cases h with
  | ignored hleg => exact .setLeg hk (by simp [hleg]) (by simp)
  | applied hleg =>
      have haffect : t.Grows (t.affect k c.event) := .of_calls_eq List.prefix_rfl rfl
      exact haffect.trans (.setLeg hk (by simp [hleg]) (by simp))
  | sent hleg =>
      refine (Grows.post t _ _).trans (.setLeg hk ?_ ?_)
      all_goals obtain ⟨hleg, rfl⟩ | ⟨hleg, rfl⟩ | ⟨hleg, rfl⟩ := hleg <;> simp [hleg]
  | announced hleg => exact (Grows.setLeg hk (by simp [hleg]) (by simp)).trans (.post _ _ _)
  | idle => exact .refl t

theorem Goes.getElem?_of_ne (h : t.Goes k c t') (hk : t.calls[k]? = some c) {j : Nat} (hne : j ≠ k) :
    t'.calls[j]? = t.calls[j]? := by
  cases h with
  | idle => rfl
  | sent => exact (getElem?_setLeg (t := t.post _ _) hk _ j).trans (if_neg hne)
  | _ => exact (getElem?_setLeg hk _ j).trans (if_neg hne)

theorem grows_play (t : Traffic) (a : Act) : t.Grows (t.play a) := by
  cases a with
  | advance k =>
      rw [play]
      split
      · exact (t.goes_carryOn k _).grows ‹_›
      · exact .refl t
  | ingest e =>
      refine ⟨List.prefix_rfl, fun h => ⟨_, ?_, rfl, id, fun _ => rfl⟩⟩
      exact (List.getElem?_append_left (List.getElem?_eq_some_iff.mp h).1).trans h
  | publish e => exact .post t .other e
  | _ => exact .of_calls_eq List.prefix_rfl rfl

theorem plays_induction {P : Traffic → Prop} (h : P t) (hplay : ∀ t a, P t → P (t.play a)) (acts : List Act) :
    P (t.plays acts) := by
  induction acts generalizing t with
  | nil => exact h
  | cons a acts ih => exact ih (hplay t a h)

theorem grows_plays (t : Traffic) (acts : List Act) : t.Grows (t.plays acts) :=
  plays_induction (.refl t) (fun t' a h => h.trans (t'.grows_play a)) acts

/-! ### What was sent -/

/-- The posts are what was sent. An event of a known category that has passed is among them, and before the end of a run
is announced the event that completed it was sent. -/
structure Posted (t : Traffic) : Prop where
  sent_eq : t.bus.broadcast.sent.toList = t.posts.map (·.2)
  passed : ∀ (k : Nat) (c : Call), t.calls[k]? = some c → c.Passed → (.handedIn k, c.event) ∈ t.posts
  ordered : ∀ (before : List (Occasion × Event)) (k : Nat) (a : Event) (later : List (Occasion × Event)),
    t.posts = before ++ (.completed k, a) :: later →
      ∃ c, t.calls[k]? = some c ∧ c.leg = .ended ∧ a = completion c.event.run ∧ (.handedIn k, c.event) ∈ before

namespace Posted

theorem start (capacity : Nat) : Posted { bus := { broadcast := { capacity } } } where
  sent_eq := rfl
  passed _ _ h := by simp at h
  ordered _ _ _ _ h := by simp at h

theorem keep (h : t.Posted) (hsent : t'.bus.broadcast = t.bus.broadcast) (hcalls : t'.calls = t.calls)
    (hposts : t'.posts = t.posts) : t'.Posted where
  sent_eq := by rw [hsent, hposts, h.sent_eq]
  passed := by rw [hcalls, hposts]; exact h.passed
  ordered := by rw [hcalls, hposts]; exact h.ordered

theorem ingest (h : t.Posted) (e : Event) : (t.play (.ingest e)).Posted where
  sent_eq := h.sent_eq
  passed k c hc hpassed := by
    obtain hold | ⟨-, rfl⟩ := getElem?_ingest hc
    · exact h.passed k c hold hpassed
    · simp [Call.Passed] at hpassed
  ordered before k a later hposts := by
    obtain ⟨c, hc, hleg, ha, hbefore⟩ := h.ordered before k a later hposts
    obtain ⟨c', hc', -, -, hended⟩ := (t.grows_play (.ingest e)).calls hc
    exact ⟨c, hended hleg ▸ hc', hleg, ha, hbefore⟩

theorem setLeg (h : t.Posted) (hk : t.calls[k]? = some c) (hended : c.leg ≠ .ended)
    (hpassed : Call.Passed { c with leg } → (.handedIn k, c.event) ∈ t.posts) : (t.setLeg k c leg).Posted where
  sent_eq := h.sent_eq
  passed j d hd := by
    rw [getElem?_setLeg hk] at hd
    split_ifs at hd with hj
    · obtain rfl := Option.some.inj hd
      rw [hj]
      exact hpassed
    · exact h.passed j d hd
  ordered before j a later hposts := by
    obtain ⟨d, hd, hleg, ha, hbefore⟩ := h.ordered before j a later hposts
    refine ⟨d, ?_, hleg, ha, hbefore⟩
    rw [getElem?_setLeg hk, if_neg fun hj => ?_]
    · exact hd
    · obtain rfl := Option.some.inj (hk.symm.trans (hj ▸ hd))
      exact hended hleg

theorem post (h : t.Posted) (o : Occasion) (e : Event) (ho : ∀ j, o = .completed j →
    ∃ d, t.calls[j]? = some d ∧ d.leg = .ended ∧ e = completion d.event.run ∧ (.handedIn j, d.event) ∈ t.posts) :
    (t.post o e).Posted where
  sent_eq := by
    change (t.bus.broadcast.sent.push e).toList = (t.posts ++ [(o, e)]).map (·.2)
    rw [Array.toList_push, h.sent_eq, List.map_append]
    rfl
  passed j d hd hpassed := List.mem_append_left _ (h.passed j d hd hpassed)
  ordered before j a later hposts := by
    -- The announcement is what is sent now, or it was sent before and something else is sent now.
    obtain rfl | ⟨later, last, rfl⟩ := later.eq_nil_or_concat'
    · obtain ⟨rfl, hlast⟩ := List.append_inj' hposts rfl
      obtain ⟨rfl, rfl⟩ := Prod.mk.inj (List.singleton_inj.mp hlast)
      exact ho j rfl
    · rw [← List.cons_append, ← List.append_assoc] at hposts
      exact h.ordered before j a later (List.append_inj_left' hposts rfl)

theorem goes (h : t.Posted) (hk : t.calls[k]? = some c) (hgoes : t.Goes k c t') : t'.Posted := by
  cases hgoes with
  | ignored hleg hcategory => exact h.setLeg hk (by simp [hleg]) (by simp [Call.Passed, hcategory])
  | applied hleg =>
      have haffect : (t.affect k c.event).Posted := h.keep rfl rfl rfl
      exact haffect.setLeg hk (by simp [hleg]) (by simp [Call.Passed])
  | sent hleg =>
      have hended : c.leg ≠ .ended := by
        obtain ⟨hleg, -⟩ | ⟨hleg, -⟩ | ⟨hleg, -⟩ := hleg <;> simp [hleg]
      exact (h.post (.handedIn k) c.event (by simp)).setLeg hk hended fun _ => by simp [Traffic.post]
  | announced hleg =>
      have hsent := h.passed k c hk (.inl hleg)
      refine (h.setLeg hk (by simp [hleg]) fun _ => hsent).post _ _ fun j hj => ?_
      obtain rfl := Occasion.completed.inj hj
      exact ⟨_, leg_setLeg hk .ended, rfl, rfl, hsent⟩
  | idle => exact h

theorem play (h : t.Posted) (a : Act) : (t.play a).Posted := by
  cases a with
  | advance k =>
      rw [Traffic.play]
      split
      · exact h.goes ‹_› (t.goes_carryOn k _)
      · exact h
  | ingest e => exact h.ingest e
  | publish e => exact h.post .other e (by simp)
  | _ => exact h.keep rfl rfl rfl

end Posted

theorem posted_after (capacity : Nat) (acts : List Act) : (after capacity acts).Posted :=
  plays_induction (Posted.start capacity) (fun _ a h => h.play a) acts

/-! ### What was counted -/

/-- A run has counted as many segments as there are calls noted for it. They are different ones, and each of them
reports a finished segment of the run and has had its effect. -/
structure Tallied (t : Traffic) : Prop where
  number : ∀ id, (t.counted id).length = t.bus.registry.counted id
  once : (t.tally.map (·.2)).Nodup
  reports : ∀ part ∈ t.tally, ∃ c, t.calls[part.2]? = some c ∧ c.event.run = part.1 ∧ c.event.asks = [.countSegment] ∧
    c.leg ≠ .asked

theorem counted_affect (t : Traffic) (k : Nat) (e : Event) (id : PipelineId) :
    (t.affect k e).counted id = t.counted id ++ if counts t.bus.registry e = true ∧ e.run = id then [k] else [] := by
  change ((if counts t.bus.registry e then t.tally ++ [(e.run, k)] else t.tally).filter _).map _ = _
  by_cases hcounts : counts t.bus.registry e = true
  · by_cases hrun : e.run = id <;> simp [hcounts, hrun, counted]
  · simp [hcounts, counted]

namespace Tallied

theorem start (capacity : Nat) : Tallied { bus := { broadcast := { capacity } } } where
  number _ := rfl
  once := List.nodup_nil
  reports _ h := absurd h List.not_mem_nil

theorem keep (h : t.Tallied) (hgrows : t.Grows t') (htally : t'.tally = t.tally)
    (hnumber : ∀ id, t'.bus.registry.counted id = t.bus.registry.counted id) : t'.Tallied where
  number id := by rw [counted, htally, hnumber]; exact h.number id
  once := htally ▸ h.once
  reports part hpart := by
    obtain ⟨c, hc, hrun, hasks, hleg⟩ := h.reports part (htally ▸ hpart)
    obtain ⟨c', hc', hevent, hbegun, -⟩ := hgrows.calls hc
    exact ⟨c', hc', by rw [hevent, hrun], by rw [hevent, hasks], hbegun hleg⟩

theorem reset (h : t.Tallied) (id : PipelineId) : (t.play (.reset id)).Tallied where
  number id' := by
    change ((t.tally.filter _).filter _ |>.map _).length = (t.bus.registry.reset id).counted id'
    rw [Registry.counted_reset, ← h.number, counted, List.filter_filter]
    split_ifs with hid
    · subst hid
      simp
    · congr 2
      refine List.filter_congr fun part _ => ?_
      have : part.1 = id' → part.1 ≠ id := fun h h' => hid (h.symm.trans h')
      simpa
  once := h.once.sublist (List.filter_sublist.map _)
  reports part hpart := h.reports part (List.mem_of_mem_filter hpart)

theorem affect (h : t.Tallied) (hk : t.calls[k]? = some c) (hleg : c.leg = .asked)
    (hcategory : c.event.category = .lifecycle) (hnext : leg ≠ .asked) :
    ((t.affect k c.event).setLeg k c leg).Tallied := by
  have haffect : t.Grows (t.affect k c.event) := .of_calls_eq List.prefix_rfl rfl
  have hgrows : t.Grows ((t.affect k c.event).setLeg k c leg) := haffect.trans (.setLeg hk (by simp [hleg]) hnext)
  have hnumber : ∀ id, ((t.affect k c.event).counted id).length = (t.affect k c.event).bus.registry.counted id := by
    intro id
    rw [counted_affect, List.length_append, h.number]
    refine Eq.trans ?_ (Registry.counted_apply hcategory t.bus.registry id).symm
    split_ifs <;> rfl
  by_cases hcounts : counts t.bus.registry c.event = true
  · have htally : (t.affect k c.event).tally = t.tally ++ [(c.event.run, k)] := if_pos hcounts
    refine ⟨hnumber, ?_, fun part hpart => ?_⟩
    · change ((t.affect k c.event).tally.map _).Nodup
      rw [htally, List.map_append, List.map_singleton, ← List.concat_eq_append]
      -- A call that is noted has had its effect, and this one has not.
      refine List.Nodup.concat (fun hmem => ?_) h.once
      obtain ⟨part, hpart, rfl⟩ := List.mem_map.mp hmem
      obtain ⟨d, hd, -, -, hbegun⟩ := h.reports part hpart
      obtain rfl := Option.some.inj (hk.symm.trans hd)
      exact hbegun hleg
    · obtain hold | hnew := List.mem_append.mp (htally ▸ hpart : part ∈ t.tally ++ [(c.event.run, k)])
      · obtain ⟨d, hd, hrun, hasks, hbegun⟩ := h.reports part hold
        obtain ⟨d', hd', hevent, hbegun', -⟩ := hgrows.calls hd
        exact ⟨d', hd', by rw [hevent, hrun], by rw [hevent, hasks], hbegun' hbegun⟩
      · obtain rfl := List.mem_singleton.mp hnew
        have hkind : c.event.kind = Event.segmentCompleted := by
          rw [counts, Bool.and_eq_true] at hcounts
          exact of_decide_eq_true hcounts.1
        exact ⟨_, leg_setLeg (t := t.affect k c.event) hk leg, rfl, Event.asks_countSegment_iff.mpr ⟨hcategory, hkind⟩,
          hnext⟩
  · have htally : (t.affect k c.event).tally = t.tally := if_neg hcounts
    refine h.keep hgrows htally fun id => ?_
    refine (Registry.counted_apply hcategory t.bus.registry id).trans ?_
    rw [if_neg fun h => hcounts h.1, Nat.add_zero]

theorem goes (h : t.Tallied) (hk : t.calls[k]? = some c) (hgoes : t.Goes k c t') : t'.Tallied := by
  have hgrows := hgoes.grows hk
  cases hgoes with
  | applied hleg hcategory => exact h.affect hk hleg hcategory (by simp)
  | idle => exact h
  | _ => exact h.keep hgrows rfl fun _ => rfl

theorem play (h : t.Tallied) (a : Act) : (t.play a).Tallied := by
  cases a with
  | advance k =>
      rw [Traffic.play]
      split
      · exact h.goes ‹_› (t.goes_carryOn k _)
      · exact h
  | reset id => exact h.reset id
  | init id segments =>
      exact h.keep (t.grows_play _) rfl fun id' => Registry.counted_init t.bus.registry id' id segments
  | fail id message =>
      exact h.keep (t.grows_play _) rfl fun id' =>
        Registry.counted_call (t := .fail message) (by simp) t.bus.registry id' id
  | abort id message =>
      exact h.keep (t.grows_play _) rfl fun id' =>
        Registry.counted_call (t := .abort message) (by simp) t.bus.registry id' id
  | ingest e => exact h.keep (t.grows_play _) rfl fun _ => rfl
  | publish e => exact h.keep (t.grows_play _) rfl fun _ => rfl

end Tallied

theorem tallied_after (capacity : Nat) (acts : List Act) : (after capacity acts).Tallied :=
  plays_induction (Tallied.start capacity) (fun _ a h => h.play a) acts

/-! ### The end of a run -/

def Announces (t : Traffic) (k : Nat) (e : Event) : Prop :=
  ∃ c, t.calls[k]? = some c ∧ c.event = e ∧
    (c.leg = .applied true ∨ c.leg = .sent ∨ c.leg = .ended ∧ (.completed k, completion e.run) ∈ t.posts)

namespace Announces

variable {e : Event}

theorem of_grows (h : t.Announces k e) (hgrows : t.Grows t') (hsame : t'.calls[k]? = t.calls[k]?) :
    t'.Announces k e := by
  obtain ⟨c, hc, hevent, hleg⟩ := h
  refine ⟨c, hsame.trans hc, hevent, hleg.imp_right (.imp_right fun hended => ?_)⟩
  exact ⟨hended.1, hgrows.posts.subset hended.2⟩

theorem goes (h : t.Announces k e) {j : Nat} (hj : t.calls[j]? = some c) (hgoes : t.Goes j c t') :
    t'.Announces k e := by
  by_cases hne : k = j
  · subst hne
    obtain ⟨d, hd, rfl, hleg⟩ := id h
    obtain rfl := Option.some.inj (hj.symm.trans hd)
    cases hgoes with
    | ignored hasked => simp [hasked] at hleg
    | applied hasked => simp [hasked] at hleg
    | sent hnext =>
        obtain ⟨hbefore, -⟩ | ⟨-, rfl⟩ | ⟨hbefore, -⟩ := hnext
        · simp [hbefore] at hleg
        · exact ⟨_, leg_setLeg (t := t.post _ _) hj .sent, rfl, .inr (.inl rfl)⟩
        · simp [hbefore] at hleg
    | announced =>
        exact ⟨_, leg_setLeg hj .ended, rfl, .inr (.inr ⟨rfl, List.mem_append_right _ (List.mem_singleton_self _)⟩)⟩
    | idle => exact h
  · exact h.of_grows (hgoes.grows hj) (hgoes.getElem?_of_ne hj hne)

theorem play (h : t.Announces k e) (a : Act) : (t.play a).Announces k e := by
  cases a with
  | advance j =>
      rw [Traffic.play]
      split
      · exact h.goes ‹_› (t.goes_carryOn j _)
      · exact h
  | ingest e' =>
      obtain ⟨c, hc, -⟩ := id h
      refine h.of_grows (t.grows_play _) ?_
      exact List.getElem?_append_left (List.getElem?_eq_some_iff.mp hc).1
  | _ => exact h.of_grows (t.grows_play _) rfl

end Announces

theorem mem_counted {j : Nat} : j ∈ t.counted id ↔ (id, j) ∈ t.tally := by
  simp [counted]

theorem Tallied.number_of_get? (h : t.Tallied) {s : RunState} (hs : t.bus.registry.get? id = some s) :
    (t.counted id).length = s.completedSegments := by
  rw [h.number, Registry.counted, hs, Option.map_some, Option.getD_some]

theorem Tallied.nodup_counted (h : t.Tallied) (id : PipelineId) : (t.counted id).Nodup :=
  h.once.sublist (List.filter_sublist.map _)

/-- What was sent up to a time at which a call has not announced anything was sent before it does. -/
theorem Posted.prefix_before (h : t.Posted) (hgrows : t.Grows t') (hk : t.calls[k]? = some c) (hleg : c.leg ≠ .ended)
    {before later : List (Occasion × Event)} {a : Event} (hposts : t'.posts = before ++ (.completed k, a) :: later) :
    t.posts <+: before := by
  have hnot : (.completed k, a) ∉ t.posts := fun hmem => by
    obtain ⟨earlier, rest, hsplit⟩ := List.append_of_mem hmem
    obtain ⟨d, hd, hended, -⟩ := h.ordered earlier k a rest hsplit
    obtain rfl := Option.some.inj (hk.symm.trans hd)
    exact hleg hended
  have hconcat : before ++ [(.completed k, a)] <+: t'.posts := ⟨later, by rw [hposts, List.append_assoc]; rfl⟩
  have hin : (.completed k, a) ∈ before ++ [(.completed k, a)] := List.mem_append_right _ (List.mem_singleton_self _)
  obtain hshort | hlong := List.prefix_or_prefix_of_prefix hgrows.posts hconcat
  · obtain heq | hbefore := List.prefix_concat_iff.mp hshort
    · exact absurd (heq ▸ hin) hnot
    · exact hbefore
  · exact absurd (hlong.subset hin) hnot

/-- A call that was counted has sent its event or is on its way to do so. -/
theorem Tallied.sent_or_applied (h : t.Tallied) (hposted : t.Posted) {j : Nat} (hj : j ∈ t.counted id)
    (hc : t.calls[j]? = some c) : (.handedIn j, c.event) ∈ t.posts ∨ ∃ completed, c.leg = .applied completed := by
  obtain ⟨d, hd, -, hasks, hbegun⟩ := h.reports _ (mem_counted.mp hj)
  obtain rfl := Option.some.inj (hc.symm.trans hd)
  -- The call has begun, and its event is one that is sent in any case.
  cases hleg : c.leg with
  | asked => exact absurd hleg hbegun
  | applied completed => exact .inr ⟨completed, rfl⟩
  | sent => exact .inl (hposted.passed j c hc (.inl hleg))
  | ended =>
      have hcategory := (Event.asks_countSegment_iff.mp hasks).1
      exact .inl (hposted.passed j c hc (.inr ⟨hleg, by simp [hcategory]⟩))

section Completing

variable {e : Event} (hcall : t.calls[k]? = some { event := e }) (hcompletes : t.bus.Completes e)
include hcompletes

theorem counted_affect_of_completes : (t.affect k e).counted e.run = t.counted e.run ++ [k] := by
  obtain ⟨⟨-, hkind⟩, s, hs, hmoved⟩ := completes_iff_countSegment.mp hcompletes
  have hcounts : counts t.bus.registry e = true := by
    simp [counts, hkind, hs, (Transition.countSegment_moves_iff.mp hmoved).1]
  rw [counted_affect, if_pos ⟨hcounts, rfl⟩]

/-- The run is complete then, and not before it has counted all its segments. -/
theorem get?_affect_of_completes : ∃ s, (t.affect k e).bus.registry.get? e.run = some s ∧ s.status = .completed ∧
    s.totalSegments ≤ s.completedSegments := by
  obtain ⟨hasks, s, hs, hmoved⟩ := completes_iff_countSegment.mp hcompletes
  obtain ⟨hopen, hlast⟩ := Transition.countSegment_moves_iff.mp hmoved
  refine ⟨s.after e.asks, (turns_apply hasks.1 t.bus.registry).own.trans (by rw [hs]; rfl), ?_, ?_⟩
  · exact (s.status_after_asks_eq_completed e).mpr (.inr ⟨Event.asks_countSegment_iff.mpr hasks, hmoved⟩)
  · rwa [s.totalSegments_after, s.completedSegments_after_asks, if_pos ⟨Event.asks_countSegment_iff.mpr hasks, hopen⟩]

include hcall

theorem play_advance_of_completes :
    t.play (.advance k) = (t.affect k e).setLeg k { event := e } (.applied true) := by
  obtain ⟨hcategory, hcompleted⟩ := completes_iff.mp hcompletes
  rw [play_advance hcall, carryOn, ← hcompleted]
  dsimp only
  rw [hcategory]

theorem announces_play_advance : (t.play (.advance k)).Announces k e := by
  rw [play_advance_of_completes hcall hcompletes]
  exact ⟨_, leg_setLeg (t := t.affect k e) hcall (.applied true), rfl, .inl rfl⟩

end Completing

/-- What is said of a call that completes a run, as the run is complete and up to a later time. The calls whose segments
the run has counted are as many as it says, this one is the last of them, and there are enough. The end of the run is
announced when the call is over. By then the event of the call was sent, and those of all other calls that were counted,
unless such a call had counted its segment and not sent its event yet when the run was completed. -/
structure Concludes (t : Traffic) (k : Nat) (e : Event) (t' : Traffic) : Prop where
  last : (t.play (.advance k)).counted e.run = t.counted e.run ++ [k]
  each_once : ((t.play (.advance k)).counted e.run).Nodup
  reports : ∀ j ∈ (t.play (.advance k)).counted e.run, ∃ c, t.calls[j]? = some c ∧ c.event.run = e.run ∧
    c.event.category = .lifecycle ∧ c.event.kind = Event.segmentCompleted
  complete : ∃ s, (t.play (.advance k)).bus.registry.get? e.run = some s ∧ s.status = .completed ∧
    s.completedSegments = ((t.play (.advance k)).counted e.run).length ∧ s.totalSegments ≤ s.completedSegments
  sent_eq : t'.bus.broadcast.sent.toList = t'.posts.map (·.2)
  announced : ∀ c, t'.calls[k]? = some c → c.leg = .ended → (.completed k, completion e.run) ∈ t'.posts
  ordered : ∀ before a later, t'.posts = before ++ (.completed k, a) :: later →
    a = completion e.run ∧ (.handedIn k, e) ∈ before ∧ ∀ j ∈ t.counted e.run, ∀ c, t.calls[j]? = some c →
      (.handedIn j, c.event) ∈ before ∨ ∃ completed, c.leg = .applied completed

theorem concludes {e : Event} (htallied : t.Tallied) (hposted : t.Posted)
    (hcall : t.calls[k]? = some { event := e }) (hcompletes : t.bus.Completes e) (more : List Act) :
    t.Concludes k e ((t.play (.advance k)).plays more) := by
  have hcounted : (t.play (.advance k)).counted e.run = t.counted e.run ++ [k] := by
    rw [play_advance_of_completes hcall hcompletes]
    exact counted_affect_of_completes hcompletes
  have hposted' : ((t.play (.advance k)).plays more).Posted :=
    plays_induction (hposted.play (.advance k)) (fun _ a h => h.play a) more
  have hgrows := (t.grows_play (.advance k)).trans ((t.play (.advance k)).grows_plays more)
  obtain ⟨c, hc, hevent, hleg⟩ : ((t.play (.advance k)).plays more).Announces k e :=
    plays_induction (P := (·.Announces k e)) (announces_play_advance hcall hcompletes) (fun _ a h => h.play a) more
  refine ⟨hcounted, (htallied.play _).nodup_counted _, fun j hj => ?_, ?_, hposted'.sent_eq, fun d hd hended => ?_,
    fun before a later hposts => ?_⟩
  · rw [hcounted] at hj
    obtain hj | hj := List.mem_append.mp hj
    · obtain ⟨d, hd, hrun, hasks, -⟩ := htallied.reports _ (mem_counted.mp hj)
      exact ⟨d, hd, hrun, Event.asks_countSegment_iff.mp hasks⟩
    · obtain rfl := List.mem_singleton.mp hj
      exact ⟨_, hcall, rfl, hcompletes.1, hcompletes.2.1⟩
  · obtain ⟨s, hs, hstatus, htotal⟩ := get?_affect_of_completes hcompletes (k := k)
    have hs' : (t.play (.advance k)).bus.registry.get? e.run = some s := by
      rw [play_advance_of_completes hcall hcompletes]
      exact hs
    exact ⟨s, hs', hstatus, ((htallied.play _).number_of_get? hs').symm, htotal⟩
  · obtain rfl := Option.some.inj (hc.symm.trans hd)
    simpa [hended] using hleg
  · obtain ⟨d, hd, -, ha, hbefore⟩ := hposted'.ordered before k a later hposts
    obtain rfl := Option.some.inj (hc.symm.trans hd)
    rw [hevent] at ha hbefore
    refine ⟨ha, hbefore, fun j hj d hd => (htallied.sent_or_applied hposted hj hd).imp_left fun hsent => ?_⟩
    exact (hposted.prefix_before hgrows hcall (by simp) hposts).subset hsent

/-- Whoever goes on with an event that completes its run announces the end of the run after all the events that it was
counted from, except for those that were on their way from the count to the sending. -/
theorem completion_sent_after (capacity : Nat) (acts more : List Act) (k : Nat) (e : Event)
    (hcall : (after capacity acts).calls[k]? = some { event := e })
    (hcompletes : (after capacity acts).bus.Completes e) :
    (after capacity acts).Concludes k e (((after capacity acts).play (.advance k)).plays more) :=
  concludes (tallied_after capacity acts) (posted_after capacity acts) hcall hcompletes more

/-- Of three segments the first was reported to its end, and the second was counted and not sent yet, when the third
completes the run. The second is sent after the end of the run. -/
theorem completion_sent_after_two_of_three :
    let reported (i : Nat) : Event := .lifecycle 1 (some i) Event.segmentCompleted .null
    let t := after 4 [.init 1 3, .ingest (reported 0), .ingest (reported 1), .ingest (reported 2), .advance 0,
      .advance 0, .advance 1]
    let t' := (t.play (.advance 2)).plays [.advance 2, .advance 2, .advance 1]
    t'.posts.map (·.1) = [.handedIn 0, .handedIn 2, .completed 2, .handedIn 1] ∧ t.Concludes 2 (reported 2) t' :=
  ⟨by decide, completion_sent_after 4 _ _ 2 _ rfl (by decide)⟩

/-- The end of a run is not always announced after the events of all segments that were counted for it: of two that are
reported at the same time, the one that was counted first may be sent last. -/
theorem not_completion_sent_last : ¬∀ (capacity : Nat) (acts more : List Act) (k : Nat) (e : Event),
    (after capacity acts).calls[k]? = some { event := e } → (after capacity acts).bus.Completes e →
    ∀ before a later,
      (((after capacity acts).play (.advance k)).plays more).posts = before ++ (.completed k, a) :: later →
      ∀ j ∈ ((after capacity acts).play (.advance k)).counted e.run, ∀ c, (after capacity acts).calls[j]? = some c →
        c.event ∈ before.map (·.2) := by
  intro h
  let reported (i : Nat) : Event := .lifecycle 1 (some i) Event.segmentCompleted .null
  have hmem := h 4 [.init 1 2, .ingest (reported 0), .ingest (reported 1), .advance 0]
    [.advance 1, .advance 1, .advance 0] 1 (reported 1) rfl (by decide) [(.handedIn 1, reported 1)] (completion 1)
    [(.handedIn 0, reported 0)] rfl 0 (by decide) _ rfl
  simp [reported, Event.lifecycle] at hmem

end Traffic

end Bus

end Pipeworks
