import Pipeworks.Emitter.Traffic
import Mathlib.Data.List.Infix
import Mathlib.Tactic.Common

/-!
What becomes of the events that are added to an emitter. Whoever hands over events, shuts down and delivers at the
same time, every event that was added has one fate: it was handed to the receiver, or lost because the queue was full,
or it still waits. Those that wait are the last ones, and the others were handed over in the order in which they were
added.
-/

namespace Pipeworks.Emitter

variable {q : Emitter} {e : Event}

/-! ### The emitter itself -/

theorem emit_eq (q : Emitter) (e : Event) : q.emit e = if q.closed then q else q.add e := by
  by_cases hclosed : q.closed = true <;> by_cases hroom : q.queue.length < max q.capacity 1 <;>
    simp [emit, add, hclosed, hroom]

theorem add_cases (q : Emitter) (e : Event) :
    (q.queue.length < max q.capacity 1 ∧ q.add e = { q with queue := q.queue ++ [e] }) ∨
      ∃ d ds, q.queue = d :: ds ∧ q.add e = { q with queue := ds ++ [e], dropped := q.dropped + 1 } := by
  by_cases hroom : q.queue.length < max q.capacity 1
  · exact .inl ⟨hroom, by simp [add, emit, hroom]⟩
  · cases hqueue : q.queue with
    | nil => simp [hqueue] at hroom
    | cons d ds =>
        refine .inr ⟨d, ds, rfl, ?_⟩
        have hfull : ¬(d :: ds).length < max q.capacity 1 := hqueue ▸ hroom
        simp only [add, emit, hqueue, hfull, Bool.false_eq_true, if_false, List.tail_cons]

/-- A task with nothing in its hands takes the oldest event, if there is one. -/
theorem take_cases (hfree : q.inHand = none) (hstopped : q.stopped = false) :
    (q.queue = [] ∧ q.take = q) ∨ ∃ d ds, q.queue = d :: ds ∧ q.take = { q with inHand := some d, queue := ds } := by
  cases hqueue : q.queue with
  | nil => exact .inl ⟨rfl, by simp [take, hqueue]⟩
  | cons d ds => exact .inr ⟨d, ds, rfl, by simp [take, hfree, hstopped, hqueue]⟩

theorem release_of_none (hfree : q.inHand = none) : q.release = (none, q) := by
  obtain ⟨capacity, queue, dropped, closed, inHand, stopped⟩ := q
  obtain rfl : inHand = none := hfree
  cases stopped <;> rfl

namespace Traffic

variable {capacity : Nat} {t t' : Traffic} {fates : List (Event × Bool)}

/-! ### Fates -/

/-- The fates of the events that do not wait any more, in the order in which they were added; `true` stands for an
event that was handed to the receiver. -/
structure Settled (t : Traffic) (fates : List (Event × Bool)) : Prop where
  added : t.added = fates.map (·.1) ++ t.emitter.queue
  handed : t.handed = (fates.filter (·.2)).map (·.1)
  dropped : t.emitter.dropped = (fates.filter (!·.2)).length

namespace Settled

theorem keep (h : t.Settled fates) (hqueue : t'.emitter.queue = t.emitter.queue)
    (hdropped : t'.emitter.dropped = t.emitter.dropped) (hadded : t'.added = t.added) (hhanded : t'.handed = t.handed) :
    t'.Settled fates :=
  ⟨by rw [hadded, hqueue, h.added], by rw [hhanded, h.handed], by rw [hdropped, h.dropped]⟩

theorem suffix (h : t.Settled fates) : t.emitter.queue <:+ t.added := ⟨_, h.added.symm⟩

/-- What was handed over stands in the order in which it was added, each event at a place of its own. -/
theorem sublist (h : t.Settled fates) : t.handed.Sublist t.added := by
  rw [h.handed, h.added]
  exact (List.filter_sublist.map _).trans (List.sublist_append_left _ _)

theorem length_eq (h : t.Settled fates) :
    t.added.length = t.handed.length + t.emitter.queue.length + t.emitter.dropped := by
  have hparts := List.length_eq_length_filter_add (l := fates) (·.2)
  rw [h.added, h.handed, h.dropped, List.length_append, List.length_map, List.length_map]
  omega

end Settled

/-! ### One act -/

structure Balanced (capacity : Nat) (t : Traffic) : Prop where
  capacity_eq : t.emitter.capacity = capacity
  room : t.emitter.queue.length ≤ max capacity 1
  settled : ∃ fates, t.Settled fates
  running : t.task ≠ .ended → t.emitter.stopped = false
  /-- Only what is being delivered is in hand. -/
  free : t.task ≠ .ended → t.task ≠ .delivering → t.emitter.inHand = none

namespace Balanced

theorem start (capacity : Nat) : Balanced capacity { emitter := { capacity } } :=
  ⟨rfl, Nat.zero_le _, ⟨[], rfl, rfl, rfl⟩, fun _ => rfl, fun _ _ => rfl⟩

/-- Who changes nothing but calls, and whether the emitter is closed, leaves the account as it is. -/
theorem keep (h : t.Balanced capacity) (hemitter : t'.emitter = { t.emitter with closed := t'.emitter.closed })
    (hadded : t'.added = t.added) (hhanded : t'.handed = t.handed)
    (htask : t'.task = t.task ∨ t'.task = .ended ∨ t.task ≠ .ended ∧ t.task ≠ .delivering) : t'.Balanced capacity := by
  have hcapacity : t'.emitter.capacity = t.emitter.capacity := by rw [hemitter]
  have hqueue : t'.emitter.queue = t.emitter.queue := by rw [hemitter]
  have hdropped : t'.emitter.dropped = t.emitter.dropped := by rw [hemitter]
  have hstopped : t'.emitter.stopped = t.emitter.stopped := by rw [hemitter]
  have hhand : t'.emitter.inHand = t.emitter.inHand := by rw [hemitter]
  obtain ⟨fates, hfates⟩ := h.settled
  refine ⟨hcapacity ▸ h.capacity_eq, hqueue ▸ h.room, ⟨fates, hfates.keep hqueue hdropped hadded hhanded⟩,
    fun hrun => ?_, fun hrun hidle => ?_⟩
  · rw [hstopped]
    rcases htask with hsame | hend | ⟨hrun', -⟩
    · exact h.running (hsame ▸ hrun)
    · exact absurd hend hrun
    · exact h.running hrun'
  · rw [hhand]
    rcases htask with hsame | hend | ⟨hrun', hidle'⟩
    · exact h.free (hsame ▸ hrun) (hsame ▸ hidle)
    · exact absurd hend hrun
    · exact h.free hrun' hidle'

/-- An event that is added waits behind the others, and if it takes the place of the oldest one, that one is lost. -/
theorem add (h : t.Balanced capacity) (e : Event) :
    Balanced capacity { t with emitter := t.emitter.add e, added := t.added ++ [e] } := by
  obtain ⟨fates, hfates⟩ := h.settled
  rcases add_cases t.emitter e with ⟨hroom, hadd⟩ | ⟨d, ds, hqueue, hadd⟩
  · rw [h.capacity_eq] at hroom
    refine ⟨by rw [hadd]; exact h.capacity_eq, ?_, ⟨fates, ?_, hfates.handed, by rw [hadd]; exact hfates.dropped⟩,
      fun hrun => by rw [hadd]; exact h.running hrun, fun hrun hidle => by rw [hadd]; exact h.free hrun hidle⟩
    · rw [hadd, List.length_append]
      exact hroom
    · rw [hadd, hfates.added, List.append_assoc]
  · have hroom := h.room
    rw [hqueue] at hroom
    refine ⟨by rw [hadd]; exact h.capacity_eq, ?_, ⟨fates ++ [(d, false)], ?_, ?_, ?_⟩,
      fun hrun => by rw [hadd]; exact h.running hrun, fun hrun hidle => by rw [hadd]; exact h.free hrun hidle⟩
    · rw [hadd, List.length_append]
      exact hroom
    · rw [hadd, hfates.added, hqueue]
      simp
    · simp [hfates.handed]
    · simp [hadd, hfates.dropped]

theorem handOn (h : t.Balanced capacity) (k : Nat) : (t.handOn k).Balanced capacity := by
  unfold Traffic.handOn
  split
  · split
    · exact h.keep rfl rfl rfl (.inl rfl)
    · exact h.keep rfl rfl rfl (.inl rfl)
  · exact (h.add _).keep rfl rfl rfl (.inl rfl)
  · exact h.keep rfl rfl rfl (.inl rfl)
  · exact h

theorem closeOn (h : t.Balanced capacity) (k : Nat) (inTime : Bool) : (t.closeOn k inTime).Balanced capacity := by
  unfold Traffic.closeOn
  split
  · exact h.keep rfl rfl rfl (.inl rfl)
  · exact h.keep rfl rfl rfl (.inl rfl)
  · split
    · exact h.keep rfl rfl rfl (.inl rfl)
    · exact h.keep rfl rfl rfl (.inl rfl)
  · split_ifs
    · exact h.keep rfl rfl rfl (.inl rfl)
    · exact h
    · exact h.keep rfl rfl rfl (.inl rfl)
  · exact h

theorem deliverOn (h : t.Balanced capacity) : t.deliverOn.Balanced capacity := by
  unfold Traffic.deliverOn
  cases htask : t.task with
  | taking =>
      have hrun : t.task ≠ .ended := by simp [htask]
      have hidle : t.task ≠ .delivering := by simp [htask]
      rcases take_cases (h.free hrun hidle) (h.running hrun) with ⟨-, htake⟩ | ⟨d, ds, hqueue, htake⟩
      · simp only [htake, h.free hrun hidle]
        exact h.keep rfl rfl rfl (.inr (.inr ⟨hrun, hidle⟩))
      · obtain ⟨fates, hfates⟩ := h.settled
        have hroom := h.room
        rw [hqueue, List.length_cons] at hroom
        simp only [htake]
        refine ⟨h.capacity_eq, Nat.le_of_succ_le hroom, ⟨fates ++ [(d, true)], ?_, ?_, ?_⟩, fun _ => h.running hrun,
          fun _ hbusy => absurd rfl hbusy⟩
        · simp [hfates.added, hqueue]
        · simp [hfates.handed]
        · simp [hfates.dropped]
  | doubting => exact h.keep rfl rfl rfl (.inr (.inr (by simp [htask])))
  | waiting =>
      dsimp only
      split
      · exact h.keep rfl rfl rfl (.inr (.inr (by simp [htask])))
      · exact h
  | delivering => exact h
  | ended => exact h

theorem answered (h : t.Balanced capacity) : t.answered.Balanced capacity := by
  unfold Traffic.answered
  split_ifs with htask
  · have hrelease : t.emitter.release.2 = { t.emitter with inHand := none } := by
      simp [release, h.running (by simp [htask])]
    obtain ⟨fates, hfates⟩ := h.settled
    rw [hrelease]
    exact ⟨h.capacity_eq, h.room, ⟨fates, hfates.added, hfates.handed, hfates.dropped⟩,
      fun _ => h.running (by simp [htask]), fun _ _ => rfl⟩
  · exact h

theorem stopped (h : t.Balanced capacity) : t.stopped.Balanced capacity := by
  unfold Traffic.stopped
  split_ifs
  · obtain ⟨fates, hfates⟩ := h.settled
    exact ⟨h.capacity_eq, h.room, ⟨fates, hfates.added, hfates.handed, hfates.dropped⟩,
      fun hrun => absurd rfl hrun, fun hrun => absurd rfl hrun⟩
  · exact h

theorem play (h : t.Balanced capacity) (act : Act) : (t.play act).Balanced capacity := by
  cases act with
  | call e => exact h.keep rfl rfl rfl (.inl rfl)
  | hand k => exact h.handOn k
  | shutDown => exact h.keep rfl rfl rfl (.inl rfl)
  | close k inTime => exact h.closeOn k inTime
  | deliver => exact h.deliverOn
  | answer _ => exact h.answered
  | stop => exact h.stopped

theorem plays (h : t.Balanced capacity) (acts : List Act) : (t.plays acts).Balanced capacity := by
  induction acts generalizing t with
  | nil => exact h
  | cons act acts ih => exact ih (h.play act)

theorem after (capacity : Nat) (acts : List Act) : (after capacity acts).Balanced capacity :=
  (start capacity).plays acts

end Balanced

/-! ### Users that nobody disturbs -/

/-- Handing over an event does at once what `emit` does, when nobody comes between. -/
theorem emitter_plays_handover (t : Traffic) (e : Event) :
    let k := t.handovers.length
    (t.plays [.call e, .hand k, .hand k, .hand k]).emitter = t.emitter.emit e := by
  cases hclosed : t.emitter.closed <;>
    simp [plays, play, Traffic.handOn, setHandover, emit_eq, hclosed]

/-- The task takes an event and the receiver answers, `n` times, and the task takes one more. -/
def delivery : Nat → List Act
  | 0 => [.deliver]
  | n + 1 => .deliver :: .answer true :: delivery n

theorem deliverOn_of_empty (hqueue : t.emitter.queue = []) (hhand : t.emitter.inHand = none)
    (htask : t.task ≠ .delivering) :
    t.deliverOn.emitter = t.emitter ∧ t.deliverOn.handed = t.handed ∧ t.deliverOn.task ≠ .delivering := by
  cases htask' : t.task with
  | taking => simp [Traffic.deliverOn, htask', take, hqueue, hhand]
  | doubting => cases hclosed : t.emitter.closed <;> simp [Traffic.deliverOn, htask', hclosed]
  | waiting => cases hwoken : t.woken <;> simp [Traffic.deliverOn, htask', hwoken]
  | delivering => exact absurd htask' htask
  | ended => simp [Traffic.deliverOn, htask']

theorem plays_delivery_of_empty (hqueue : t.emitter.queue = []) (hhand : t.emitter.inHand = none)
    (htask : t.task ≠ .delivering) (n : Nat) :
    (t.plays (delivery n)).emitter = t.emitter ∧ (t.plays (delivery n)).handed = t.handed := by
  obtain ⟨hemitter, hhanded, hidle⟩ := deliverOn_of_empty hqueue hhand htask
  induction n generalizing t with
  | zero => exact ⟨hemitter, hhanded⟩
  | succ n ih =>
      have hanswered : t.deliverOn.answered = t.deliverOn := if_neg hidle
      have hqueue' : t.deliverOn.emitter.queue = [] := hemitter ▸ hqueue
      have hhand' : t.deliverOn.emitter.inHand = none := hemitter ▸ hhand
      obtain ⟨hemitter', hhanded', hidle'⟩ := deliverOn_of_empty hqueue' hhand' hidle
      have hrest := ih hqueue' hhand' hidle hemitter' hhanded' hidle'
      rw [hemitter, hhanded] at hrest
      change (t.deliverOn.answered.plays (delivery n)).emitter = _ ∧
        (t.deliverOn.answered.plays (delivery n)).handed = _
      rwa [hanswered]

/-- The task delivers what `deliver` does, when nobody comes between. -/
theorem plays_delivery (h : t.Balanced capacity) (htask : t.task = .taking) (n : Nat) :
    (t.plays (delivery n)).emitter = (t.emitter.deliver n).2 ∧
      (t.plays (delivery n)).handed =
        t.handed ++ (t.emitter.deliver n).1 ++ (t.emitter.deliver n).2.inHand.toList := by
  induction n generalizing t with
  | zero =>
      have hrun : t.task ≠ .ended := by simp [htask]
      have hfree := h.free hrun (by simp [htask])
      rcases take_cases hfree (h.running hrun) with ⟨-, htake⟩ | ⟨d, ds, -, htake⟩ <;>
        simp [delivery, plays, play, Traffic.deliverOn, htask, deliver, htake, hfree]
  | succ n ih =>
      have hrun : t.task ≠ .ended := by simp [htask]
      have hfree := h.free hrun (by simp [htask])
      have hstopped := h.running hrun
      rcases take_cases hfree hstopped with ⟨hempty, htake⟩ | ⟨d, ds, hqueue, htake⟩
      · have hdeliver : t.emitter.deliver (n + 1) = ([], t.emitter) := by
          simp only [deliver, htake, release_of_none hfree]
        obtain ⟨hemitter, hhanded⟩ := plays_delivery_of_empty hempty hfree (by simp [htask]) (n + 1)
        rw [hdeliver, hemitter, hhanded]
        simp [hfree]
      · have hnext : (t.play .deliver).play (.answer true) =
            { t with emitter := { t.emitter with queue := ds }, handed := t.handed ++ [d] } := by
          simp [play, Traffic.deliverOn, Traffic.answered, htask, htake, release, hstopped, hfree]
        have hdeliver : t.emitter.deliver (n + 1) =
            (d :: (({ t.emitter with queue := ds } : Emitter).deliver n).1,
              (({ t.emitter with queue := ds } : Emitter).deliver n).2) := by
          simp [deliver, htake, release, hstopped, hfree]
        have hbalanced := (h.play .deliver).play (.answer true)
        rw [hnext] at hbalanced
        obtain ⟨hemitter, hhanded⟩ := ih hbalanced htask
        have hplays : t.plays (delivery (n + 1)) = ((t.play .deliver).play (.answer true)).plays (delivery n) := rfl
        rw [hplays, hnext, hdeliver]
        exact ⟨hemitter, hhanded.trans (by simp)⟩

/-! ### The account at any time -/

theorem answered_eq (t : Traffic) : t.answered.emitter.queue = t.emitter.queue ∧
    t.answered.emitter.dropped = t.emitter.dropped ∧ t.answered.added = t.added ∧ t.answered.handed = t.handed := by
  unfold answered
  split_ifs
  · refine ⟨?_, ?_, rfl, rfl⟩ <;> simp only [release] <;> split_ifs <;> rfl
  · exact ⟨rfl, rfl, rfl, rfl⟩

theorem handOn_of_closed {k : Nat} {e : Event} (hk : t.handovers[k]? = some (.asked e))
    (hclosed : t.emitter.closed = true) : t.handOn k = t.setHandover k .over := by
  simp [handOn, hk, hclosed]

/-- However handing over, shutting down and delivering are interleaved, and whatever the receiver answers: no more
events wait than there is room for, and they are the last ones that were added; every other one was either handed to the
receiver, in the order in which they were added, or lost, and the numbers add up. What the receiver answers changes
none of this, and who finds the emitter closed changes nothing at all. -/
theorem accounts_for_every_event (capacity : Nat) (acts : List Act) :
    let t := after capacity acts
    t.emitter.queue.length ≤ max capacity 1 ∧ t.emitter.queue <:+ t.added ∧ t.handed.Sublist t.added ∧
      t.added.length = t.handed.length + t.emitter.queue.length + t.emitter.dropped ∧
      (∃ fates, t.Settled fates) ∧
      (∀ success, (t.play (.answer success)).emitter.queue = t.emitter.queue ∧
        (t.play (.answer success)).emitter.dropped = t.emitter.dropped ∧
        (t.play (.answer success)).added = t.added ∧ (t.play (.answer success)).handed = t.handed) ∧
      ∀ k e, t.handovers[k]? = some (.asked e) → t.emitter.closed = true →
        t.play (.hand k) = t.setHandover k .over := by
  intro t
  have hbalanced := Balanced.after capacity acts
  obtain ⟨fates, hfates⟩ := hbalanced.settled
  exact ⟨hbalanced.room, hfates.suffix, hfates.sublist, hfates.length_eq, ⟨fates, hfates⟩,
    fun _ => answered_eq t, fun _ _ hk hclosed => handOn_of_closed hk hclosed⟩

def begun (n : Nat) : Event := .lifecycle 1 (some n) Event.segmentStarted .null

def handing (k : Nat) : List Act := [.call (begun k), .hand k, .hand k, .hand k]

/-- The first of three events is being delivered and the others are added where there is room for one; then the emitter
is closed, and somebody is about to hand over a fourth one. -/
def overrun : List Act :=
  handing 0 ++ [.deliver] ++ handing 1 ++ handing 2 ++ [.shutDown, .close 0 true, .call (begun 3)]

/-- One of the three is handed over, one waits, and one is lost, and the fourth one is not added. -/
theorem accounts_for_every_event_overrun :
    let t := after 1 overrun
    t.handed = [begun 0] ∧ t.emitter.queue = [begun 2] ∧ t.emitter.dropped = 1 ∧ t.added = [begun 0, begun 1, begun 2] ∧
      t.added.length = t.handed.length + t.emitter.queue.length + t.emitter.dropped ∧
      t.handed.Sublist t.added ∧ t.emitter.queue <:+ t.added ∧ t.emitter.queue.length ≤ max 1 1 ∧
      t.handovers[3]? = some (.asked (begun 3)) ∧ t.emitter.closed = true ∧
      t.play (.hand 3) = t.setHandover 3 .over := by
  obtain ⟨hroom, hsuffix, hsublist, hlength, -, -, hclosed⟩ := accounts_for_every_event 1 overrun
  exact ⟨rfl, rfl, rfl, rfl, hlength, hsublist, hsuffix, hroom, rfl, rfl, hclosed 3 (begun 3) rfl rfl⟩

end Traffic

end Pipeworks.Emitter
