import Pipeworks.Control.Stream
import Pipeworks.Proofs.Run.Broadcast
import Mathlib.Data.List.Infix
import Mathlib.Tactic.Common

/-!
What observers are sent. The texts that go to one observer are those of the events since its subscription, one after
another from the first one on, until its connection is given up. As long as it does not fall behind by more events than
are kept it misses none of them; and whatever becomes of its connection, all others are served as if it were not there.
-/

namespace Pipeworks

/-! ### One connection -/

namespace Connection

def underway (c : Connection) : List String :=
  match c.stage with
  | .sending text => [text]
  | _ => []

def Open (c : Connection) : Prop := ∀ cause, c.stage ≠ .closed cause

/-- A connection over which the events from a position on are sent: all that were read, in their order. -/
structure Follows (b : Broadcast) (since : Nat) (c : Connection) : Prop where
  texts : c.frames ++ c.underway <+: (b.sent.toList.drop since).map Event.text
  position : c.Open → c.observer.position = since + (c.frames ++ c.underway).length

variable {b : Broadcast} {since : Nat} {c : Connection}

theorem follows_subscribe (b : Broadcast) : Follows b b.sent.size ⟨b.subscribe, .opening, []⟩ :=
  ⟨List.nil_prefix, fun _ => rfl⟩

theorem Follows.send (h : c.Follows b since) (e : Event) : c.Follows (b.send e) since := by
  refine ⟨h.texts.trans ?_, h.position⟩
  rw [b.toList_sent_send, List.drop_append, List.map_append]
  exact List.prefix_append _ _

inductive Becomes (b : Broadcast) (c : Connection) : Connection → Prop where
  | same : Becomes b c c
  | opens : c.stage = .opening → Becomes b c { c with stage := .waiting }
  | reads (e : Event) : c.stage = .waiting → b.sent.toList[c.observer.position]? = some e →
      Becomes b c { c with observer := ⟨c.observer.position + 1⟩, stage := .sending e.text }
  | sends (text : String) : c.stage = .sending text →
      Becomes b c { c with stage := .waiting, frames := c.frames ++ [text] }
  | lags : c.stage = .waiting → b.kept < b.sent.size - c.observer.position →
      Becomes b c { c with observer := ⟨b.sent.size - b.kept⟩, stage := .closed .lagged }
  | gives (cause : Cause) : c.Open → cause ≠ .lagged → Becomes b c (c.close cause)

theorem becomes_act (b : Broadcast) (c : Connection) (t : Act) : Becomes b c (c.act b t) := by
  cases t with
  | opened success =>
      rw [act]
      split
      · next hstage =>
        cases success with
        | true => exact .opens hstage
        | false => exact .gives .refused (fun cause => by simp [hstage]) (by simp)
      · exact .same
  | read =>
      rw [act]
      split
      · next hstage =>
        obtain ⟨hlost, hnext⟩ | ⟨-, e, he, hnext⟩ | ⟨-, hnext⟩ := b.next_cases c.observer <;> rw [hnext]
        · exact .lags hstage hlost
        · exact .reads e hstage he
        · exact .same
      · exact .same
  | sent success =>
      rw [act]
      split
      · next text hstage =>
        cases success with
        | true => exact .sends text hstage
        | false => exact .gives .broken (fun cause => by simp [hstage]) (by simp)
      · exact .same
  | hear i =>
      rw [act]
      split
      · next hstage =>
        split
        · exact .gives .left (fun cause => by simp [hstage]) (by simp)
        · exact .same
      · exact .same

theorem prefix_concat {α : Type} {xs ys : List α} {y : α} (h : xs <+: ys) (hy : ys[xs.length]? = some y) :
    xs ++ [y] <+: ys := by
  obtain ⟨rest, rfl⟩ := h
  rw [List.getElem?_append_right le_rfl, Nat.sub_self] at hy
  cases rest with
  | nil => simp at hy
  | cons x rest =>
      obtain rfl : x = y := by simpa using hy
      exact ⟨rest, by simp⟩

theorem Follows.becomes {c' : Connection} (h : c.Follows b since) (hc : Becomes b c c') : c'.Follows b since := by
  have hidle : c.underway = [] → c.frames <+: (b.sent.toList.drop since).map Event.text := fun hunderway => by
    simpa [hunderway] using h.texts
  cases hc with
  | same => exact h
  | opens hstage =>
      have hunderway : c.underway = [] := by simp [underway, hstage]
      refine ⟨by simpa [underway] using hidle hunderway, fun _ => ?_⟩
      simpa [underway, hstage] using h.position fun cause => by simp [hstage]
  | reads e hstage he =>
      have hunderway : c.underway = [] := by simp [underway, hstage]
      have hposition := h.position fun cause => by simp [hstage]
      rw [hunderway, List.append_nil] at hposition
      refine ⟨prefix_concat (hidle hunderway) ?_, fun _ => ?_⟩
      · rw [List.getElem?_map, List.getElem?_drop, ← hposition, he, Option.map_some]
      · simp only [underway, List.length_append, List.length_singleton, hposition]
        omega
  | sends text hstage =>
      have htexts := h.texts
      have hposition := h.position fun cause => by simp [hstage]
      simp only [underway, hstage] at htexts hposition
      exact ⟨by simpa [underway] using htexts, fun _ => by simpa [underway] using hposition⟩
  | lags hstage hlost =>
      have hunderway : c.underway = [] := by simp [underway, hstage]
      exact ⟨by simpa [underway] using hidle hunderway, fun hopen => absurd rfl (hopen .lagged)⟩
  | gives cause hopen hne =>
      refine ⟨?_, fun hopen => absurd rfl (hopen cause)⟩
      simpa [underway, close] using (List.prefix_append _ _).trans h.texts

theorem act_read_of_lost (hstage : c.stage = .waiting) (hlost : b.kept < b.sent.size - c.observer.position) :
    c.act b .read = { c with observer := ⟨b.sent.size - b.kept⟩, stage := .closed .lagged } := by
  obtain ⟨-, hnext⟩ | ⟨hfew, -⟩ | ⟨hnone, -⟩ := b.next_cases c.observer
  · simp [act, hstage, hnext]
  · omega
  · omega

theorem act_of_closed {cause : Cause} (h : c.stage = .closed cause) (t : Act) : c.act b t = c := by
  cases t <;> simp [act, h]

theorem Becomes.frames_grow {c' : Connection} (hc : Becomes b c c') : c.frames <+: c'.frames := by
  cases hc with
  | sends text => exact List.prefix_append _ _
  | _ => exact List.prefix_rfl

theorem Becomes.ne_lagged {c' : Connection} (hc : Becomes b c c') (h : c.stage ≠ .closed .lagged)
    (hfew : b.sent.size - c.observer.position ≤ b.kept) : c'.stage ≠ .closed .lagged := by
  cases hc with
  | same => exact h
  | opens => simp
  | reads => simp
  | sends => simp
  | lags _ hlost => omega
  | gives cause _ hne => simpa [close] using hne

/-- What was sent, what is being sent and what is still to be read are all events since the subscription. -/
theorem Follows.complete (h : c.Follows b since) (hopen : c.Open) :
    c.frames ++ c.underway ++ (b.sent.toList.drop c.observer.position).map Event.text =
      (b.sent.toList.drop since).map Event.text := by
  obtain ⟨rest, hrest⟩ := h.texts
  rw [h.position hopen, ← List.drop_drop, List.map_drop, ← hrest, List.drop_left]

theorem Follows.act (h : c.Follows b since) (t : Act) : (c.act b t).Follows b since := h.becomes (becomes_act b c t)

theorem Follows.exists_catch_up_of_waiting (n : Nat) (h : c.Follows b since) (hstage : c.stage = .waiting)
    (hn : b.sent.size - c.observer.position = n) (hfew : n ≤ b.kept) :
    ∃ turns : List Act, (turns.foldl (Connection.act b) c).stage = .waiting ∧
      (turns.foldl (Connection.act b) c).frames = (b.sent.toList.drop since).map Event.text := by
  induction n generalizing c with
  | zero =>
      refine ⟨[], hstage, ?_⟩
      have hcomplete := h.complete fun cause => by simp [hstage]
      rw [List.drop_of_length_le (by rw [Array.length_toList]; omega)] at hcomplete
      simpa [underway, hstage] using hcomplete
  | succ n ih =>
      obtain ⟨hlost, -⟩ | ⟨-, e, he, hnext⟩ | ⟨hnone, -⟩ := b.next_cases c.observer
      · omega
      · -- one more event is read and sent
        have hread : c.act b .read =
            { c with observer := ⟨c.observer.position + 1⟩, stage := .sending e.text } := by
          simp [Connection.act, hstage, hnext]
        have hsent : (c.act b .read).act b (.sent true) =
            { c with observer := ⟨c.observer.position + 1⟩, stage := .waiting, frames := c.frames ++ [e.text] } := by
          rw [hread]
          rfl
        obtain ⟨turns, hturns⟩ := ih (hsent ▸ (h.act .read).act (.sent true)) rfl (by dsimp only; omega) (by omega)
        refine ⟨.read :: .sent true :: turns, ?_⟩
        rwa [List.foldl_cons, List.foldl_cons, hsent]
      · omega

/-- An observer that is no further behind than events are kept can still be sent all of them. -/
theorem Follows.exists_catch_up (h : c.Follows b since) (hopen : c.Open)
    (hfew : b.sent.size - c.observer.position ≤ b.kept) :
    ∃ turns : List Act, (turns.foldl (Connection.act b) c).stage = .waiting ∧
      (turns.foldl (Connection.act b) c).frames = (b.sent.toList.drop since).map Event.text := by
  have hfirst : ∀ t, (c.act b t).stage = .waiting → (c.act b t).observer = c.observer →
      ∃ turns : List Act, (turns.foldl (Connection.act b) c).stage = .waiting ∧
        (turns.foldl (Connection.act b) c).frames = (b.sent.toList.drop since).map Event.text := by
    intro t hwaiting hsame
    obtain ⟨turns, hturns⟩ := (h.act t).exists_catch_up_of_waiting _ hwaiting rfl (by rwa [hsame])
    exact ⟨t :: turns, hturns⟩
  cases hstage : c.stage with
  | opening => exact hfirst (.opened true) (by simp [Connection.act, hstage]) (by simp [Connection.act, hstage])
  | waiting => exact h.exists_catch_up_of_waiting _ hstage rfl hfew
  | sending text => exact hfirst (.sent true) (by simp [Connection.act, hstage]) (by simp [Connection.act, hstage])
  | closed cause => exact absurd hstage (hopen cause)

end Connection

/-! ### All observers -/

namespace Audience

def Move.event? : Move → Option Event
  | .send e => some e
  | _ => none

def sends (moves : List Move) : List Event := moves.filterMap Move.event?

/-- A move that one observer can notice: an event, or something of its own. -/
def Move.concerns (k : Nat) : Move → Bool
  | .send _ => true
  | .join j => j = k
  | .turn j _ => j = k

def unread (a : Audience) (k : Nat) : Nat :=
  ((a.connection? k).map fun c => a.broadcast.sent.size - c.observer.position).getD 0

variable {a a' : Audience} {k : Nat} {c : Connection} {since : Nat}

theorem unread_of_some (h : a.connection? k = some c) :
    a.unread k = a.broadcast.sent.size - c.observer.position := by
  rw [unread, h, Option.map_some, Option.getD_some]

theorem broadcast_play (a : Audience) (m : Move) :
    (a.play m).broadcast = m.event?.elim a.broadcast a.broadcast.send := by
  cases m with
  | send e => rfl
  | join j =>
      rw [play]
      cases a.connection? j <;> rfl
  | turn j t =>
      rw [play]
      cases a.connection? j <;> rfl

theorem connection?_play (a : Audience) (m : Move) (k : Nat) :
    (a.play m).connection? k =
      match m with
      | .send _ => a.connection? k
      | .join j =>
        if j = k then some ((a.connection? k).getD ⟨a.broadcast.subscribe, .opening, []⟩) else a.connection? k
      | .turn j t => if j = k then (a.connection? k).map (·.act a.broadcast t) else a.connection? k := by
  have hset : ∀ j c, j ≠ k → (a.set j c).connection? k = a.connection? k := fun j c hj => if_neg (Ne.symm hj)
  have hself : ∀ c, (a.set k c).connection? k = some c := fun c => if_pos rfl
  cases m with
  | send e => rfl
  | join j =>
      rw [play]
      by_cases hj : j = k
      · subst hj
        cases hold : a.connection? j with
        | none => simpa using hself _
        | some c => simpa using hold
      · cases a.connection? j with
        | none => simpa [hj] using hset j _ hj
        | some c => simp [hj]
  | turn j t =>
      rw [play]
      by_cases hj : j = k
      · subst hj
        cases hold : a.connection? j with
        | none => simpa using hold
        | some c => simpa using hself _
      · cases a.connection? j with
        | none => simp [hj]
        | some c => simpa [hj] using hset j _ hj

def Agree (k : Nat) (a a' : Audience) : Prop := a.broadcast = a'.broadcast ∧ a.connection? k = a'.connection? k

theorem Agree.play (h : Agree k a a') (m : Move) : Agree k (a.play m) (a'.play m) := by
  obtain ⟨hbroadcast, hconnection⟩ := h
  refine ⟨by rw [broadcast_play, broadcast_play, hbroadcast], ?_⟩
  rw [connection?_play, connection?_play, hbroadcast, hconnection]

theorem agree_play_of_not_concerns {m : Move} (h : m.concerns k = false) : Agree k (a.play m) a := by
  refine ⟨?_, ?_⟩
  · rw [broadcast_play]
    cases m with
    | send e => cases h
    | _ => rfl
  · rw [connection?_play]
    cases m with
    | send e => rfl
    | join j => exact if_neg (of_decide_eq_false h)
    | turn j t => exact if_neg (of_decide_eq_false h)

/-- An observer is served as if no other observer were there. -/
theorem agree_plays_filter (h : Agree k a a') (moves : List Move) :
    Agree k (a.plays moves) (a'.plays (moves.filter (·.concerns k))) := by
  induction moves generalizing a a' with
  | nil => exact h
  | cons m moves ih =>
      cases hm : m.concerns k with
      | true =>
          rw [List.filter_cons_of_pos hm]
          exact ih (h.play m)
      | false =>
          rw [List.filter_cons_of_neg (by simp [hm])]
          have hidle := agree_play_of_not_concerns (a := a) hm
          exact ih ⟨hidle.1.trans h.1, hidle.2.trans h.2⟩

theorem toList_sent_plays (a : Audience) (moves : List Move) :
    (a.plays moves).broadcast.sent.toList = a.broadcast.sent.toList ++ sends moves := by
  induction moves generalizing a with
  | nil => simp [plays, sends]
  | cons m moves ih =>
      refine (ih (a.play m)).trans ?_
      rw [broadcast_play, sends, sends, List.filterMap_cons]
      cases m.event? with
      | none => rfl
      | some e => simp [Broadcast.toList_sent_send]

theorem capacity_plays (a : Audience) (moves : List Move) :
    (a.plays moves).broadcast.capacity = a.broadcast.capacity := by
  induction moves generalizing a with
  | nil => rfl
  | cons m moves ih =>
      refine (ih (a.play m)).trans ?_
      rw [broadcast_play]
      cases m.event? <;> rfl

/-! ### One observer among others -/

/-- What a move leaves of the connection of one observer: it stays as it is, or it has a turn of its own. -/
theorem connection?_play_of_some (h : a.connection? k = some c) (m : Move) :
    (a.play m).connection? k = some c ∨
      (a.play m).broadcast = a.broadcast ∧ ∃ t, (a.play m).connection? k = some (c.act a.broadcast t) := by
  rw [connection?_play, broadcast_play, h]
  cases m with
  | send e => exact .inl rfl
  | join j => exact .inl (by simp)
  | turn j t =>
      by_cases hj : j = k
      · exact .inr ⟨rfl, t, if_pos hj⟩
      · exact .inl (if_neg hj)

theorem follows_play (h : a.connection? k = some c) (hc : c.Follows a.broadcast since) (m : Move) :
    ∃ c', (a.play m).connection? k = some c' ∧ c'.Follows (a.play m).broadcast since := by
  obtain hsame | ⟨hbroadcast, t, hturn⟩ := connection?_play_of_some h m
  · refine ⟨c, hsame, ?_⟩
    rw [broadcast_play]
    cases m.event? with
    | none => exact hc
    | some e => exact hc.send e
  · exact ⟨_, hturn, hbroadcast ▸ hc.act t⟩

theorem follows_plays (h : a.connection? k = some c) (hc : c.Follows a.broadcast since) (moves : List Move) :
    ∃ c', (a.plays moves).connection? k = some c' ∧ c'.Follows (a.plays moves).broadcast since := by
  induction moves generalizing a c with
  | nil => exact ⟨c, h, hc⟩
  | cons m moves ih =>
      obtain ⟨c₁, h₁, hc₁⟩ := follows_play h hc m
      exact ih h₁ hc₁

theorem connection?_plays_of_closed {cause : Connection.Cause} (h : a.connection? k = some c)
    (hclosed : c.stage = .closed cause) (moves : List Move) : (a.plays moves).connection? k = some c := by
  induction moves generalizing a with
  | nil => exact h
  | cons m moves ih =>
      refine ih ?_
      obtain hsame | ⟨-, t, hturn⟩ := connection?_play_of_some h m
      · exact hsame
      · rwa [Connection.act_of_closed hclosed] at hturn

/-- An observer that never has more to read than is kept is not given up as one that fell behind. -/
theorem ne_lagged_plays (h : a.connection? k = some c) (hstage : c.stage ≠ .closed .lagged) (moves : List Move)
    (hfew : ∀ earlier, earlier <+: moves → (a.plays earlier).unread k ≤ a.broadcast.kept) :
    ∃ c', (a.plays moves).connection? k = some c' ∧ c'.stage ≠ .closed .lagged := by
  induction moves generalizing a c with
  | nil => exact ⟨c, h, hstage⟩
  | cons m moves ih =>
      have hkept : (a.play m).broadcast.kept = a.broadcast.kept := by
        rw [broadcast_play]
        cases m.event? <;> rfl
      have hrest : ∀ earlier, earlier <+: moves → ((a.play m).plays earlier).unread k ≤ (a.play m).broadcast.kept :=
        fun earlier hearlier => hkept ▸ hfew (m :: earlier) (List.cons_prefix_cons.mpr ⟨rfl, hearlier⟩)
      obtain hsame | ⟨-, t, hturn⟩ := connection?_play_of_some h m
      · exact ih hsame hstage hrest
      · have hnow : a.broadcast.sent.size - c.observer.position ≤ a.broadcast.kept :=
          unread_of_some h ▸ hfew [] List.nil_prefix
        exact ih hturn ((Connection.becomes_act _ c t).ne_lagged hstage hnow) hrest

theorem plays_append (a : Audience) (moves more : List Move) : a.plays (moves ++ more) = (a.plays moves).plays more :=
  List.foldl_append

theorem connection?_plays_turns (h : a.connection? k = some c) (turns : List Connection.Act) :
    (a.plays (turns.map (.turn k))).connection? k = some (turns.foldl (Connection.act a.broadcast) c) := by
  induction turns generalizing a c with
  | nil => exact h
  | cons t turns ih =>
      have hturn : (a.play (.turn k t)).connection? k = some (c.act a.broadcast t) := by
        rw [connection?_play, h]
        exact if_pos rfl
      have hbroadcast : (a.play (.turn k t)).broadcast = a.broadcast := broadcast_play a _
      refine (ih hturn).trans ?_
      rw [hbroadcast]
      rfl

theorem frames_grow_plays (h : a.connection? k = some c) (moves : List Move) :
    ∃ c', (a.plays moves).connection? k = some c' ∧ c.frames <+: c'.frames := by
  induction moves generalizing a c with
  | nil => exact ⟨c, h, List.prefix_rfl⟩
  | cons m moves ih =>
      obtain hsame | ⟨-, t, hturn⟩ := connection?_play_of_some h m
      · exact ih hsame
      · obtain ⟨c', hc', hgrow⟩ := ih hturn
        exact ⟨c', hc', (Connection.becomes_act _ c t).frames_grow.trans hgrow⟩

/-- What is said of one observer at any time, when certain events were sent since it was subscribed: their texts are
what goes to it, one after another from the first one on, and nothing goes to it any more when it fell behind or a text
could not be sent. -/
structure Serves (a : Audience) (k : Nat) (events : List Event) (c : Connection) : Prop where
  known : a.connection? k = some c
  block : c.frames ++ c.underway <+: events.map Event.text
  grows : ∀ more, ∃ c', (a.plays more).connection? k = some c' ∧ c.frames <+: c'.frames
  final : ∀ cause, c.stage = .closed cause → ∀ more, (a.plays more).connection? k = some c
  lags : c.stage = .waiting → a.broadcast.kept < a.unread k → ∃ c', (a.play (.turn k .read)).connection? k = some c' ∧
    c'.stage = .closed .lagged ∧ c'.frames = c.frames
  breaks : ∀ text, c.stage = .sending text →
    (a.play (.turn k (.sent false))).connection? k = some (c.close .broken)

/-- What is said of one that never had more to read than is kept: it was not given up for that, and as long as it is
not given up at all, nothing is missing between what was sent to it and what it has not read yet, and it can still be
sent all of it. -/
structure KeepsUp (a : Audience) (k : Nat) (events : List Event) (c : Connection) : Prop where
  inTime : c.stage ≠ .closed .lagged
  complete : c.Open → c.frames ++ c.underway ++ (a.broadcast.sent.toList.drop c.observer.position).map Event.text =
    events.map Event.text
  catchesUp : c.Open → ∃ turns : List Connection.Act, ∃ c', (a.plays (turns.map (.turn k))).connection? k = some c' ∧
    c'.stage = .waiting ∧ c'.frames = events.map Event.text

theorem kept_plays (a : Audience) (moves : List Move) : (a.plays moves).broadcast.kept = a.broadcast.kept := by
  rw [Broadcast.kept, capacity_plays, Broadcast.kept]

theorem connection?_play_join (h : a.connection? k = none) :
    (a.play (.join k)).connection? k = some ⟨a.broadcast.subscribe, .opening, []⟩ := by
  rw [connection?_play, h]
  exact if_pos rfl

theorem serves_plays (hnew : a.connection? k = none) (later : List Move) : ∃ c,
    ((a.play (.join k)).plays later).Serves k (sends later) c ∧
      ((∀ earlier, earlier <+: later → ((a.play (.join k)).plays earlier).unread k ≤ a.broadcast.kept) →
        ((a.play (.join k)).plays later).KeepsUp k (sends later) c) := by
  have hbroadcast : (a.play (.join k)).broadcast = a.broadcast := broadcast_play a _
  have hjoined : Connection.Follows (a.play (.join k)).broadcast a.broadcast.sent.size
      ⟨a.broadcast.subscribe, .opening, []⟩ := hbroadcast ▸ Connection.follows_subscribe a.broadcast
  obtain ⟨c, hc, hfollows⟩ := follows_plays (connection?_play_join hnew) hjoined later
  have hsince : ((a.play (.join k)).plays later).broadcast.sent.toList.drop a.broadcast.sent.size = sends later := by
    rw [toList_sent_plays, hbroadcast]
    exact List.drop_left' Array.length_toList
  refine ⟨c, ⟨hc, hsince ▸ hfollows.texts, frames_grow_plays hc, fun _ => connection?_plays_of_closed hc, ?_, ?_⟩,
    fun hfew => ?_⟩
  · intro hstage hmany
    rw [unread_of_some hc] at hmany
    have hturn : (((a.play (.join k)).plays later).play (.turn k .read)).connection? k =
        some (c.act ((a.play (.join k)).plays later).broadcast .read) := by
      rw [connection?_play, hc]
      exact if_pos rfl
    rw [Connection.act_read_of_lost hstage hmany] at hturn
    exact ⟨_, hturn, rfl, rfl⟩
  · intro text hstage
    rw [connection?_play, hc]
    simp [Connection.act, hstage]
  · have hkept : ∀ moves, ((a.play (.join k)).plays moves).broadcast.kept = a.broadcast.kept := fun moves => by
      rw [kept_plays, hbroadcast]
    refine ⟨?_, fun hopen => hsince ▸ hfollows.complete hopen, fun hopen => ?_⟩
    · obtain ⟨c', hc', hstage⟩ := ne_lagged_plays (connection?_play_join hnew) (by simp) later
        fun earlier hearlier => (hfew earlier hearlier).trans_eq (hkept []).symm
      obtain rfl := Option.some.inj (hc'.symm.trans hc)
      exact hstage
    · have hnow := hfew later List.prefix_rfl
      rw [unread_of_some hc, ← hkept later] at hnow
      obtain ⟨turns, hstage, hframes⟩ := hfollows.exists_catch_up hopen hnow
      exact ⟨turns, _, connection?_plays_turns hc turns, hstage, hsince ▸ hframes⟩

/-- However events are sent and observers come, read, fail and leave: every event is sent, whatever the observers do;
each observer is served as if no other one were there; and what goes to it is what was sent since it came. As many
events are kept as the least power of two that is no less than the capacity and than one. -/
theorem serves_each_alone (capacity : Nat) :
    (∀ moves, (after capacity moves).broadcast.sent.toList = sends moves) ∧
    (∀ moves k, (after capacity moves).connection? k =
      (after capacity (moves.filter (·.concerns k))).connection? k) ∧
    (∀ moves, ∃ j, (after capacity moves).broadcast.kept = 2 ^ j ∧ max capacity 1 ≤ 2 ^ j ∧
      ∀ i < j, 2 ^ i < max capacity 1) ∧
    ∀ before k later, (after capacity before).connection? k = none →
      ∃ c, (after capacity (before ++ .join k :: later)).Serves k (sends later) c ∧
        ((∀ earlier, earlier <+: later → (after capacity (before ++ .join k :: earlier)).unread k ≤
            (after capacity before).broadcast.kept) →
          (after capacity (before ++ .join k :: later)).KeepsUp k (sends later) c) := by
  refine ⟨fun moves => toList_sent_plays _ moves, fun moves k => (agree_plays_filter ⟨rfl, rfl⟩ moves).2,
    fun moves => ?_, fun before k later hnew => ?_⟩
  · rw [after, kept_plays]
    exact Broadcast.kept_spec _
  · have hsplit : ∀ moves, after capacity (before ++ .join k :: moves) =
        ((after capacity before).play (.join k)).plays moves := fun moves => plays_append _ before _
    simpa only [hsplit] using serves_plays hnew later

/-- Where one event is kept, one observer reads in time and the other does not, which only the latter notices. -/
theorem serves_each_alone_late :
    let e : Event := .announcement 1 Event.completed "Pipeline completed"
    let before : List Move := [.join 0, .turn 0 (.opened true)]
    let later : List Move := [.turn 1 (.opened true), .send e, .turn 1 .read, .turn 1 (.sent true), .send e,
      .turn 0 .read]
    let a := after 0 (before ++ .join 1 :: later)
    ((a.connection? 0).map (·.stage) = some (.closed .lagged)) ∧
    (after 0 before).connection? 1 = none ∧
    (∀ earlier, earlier <+: later → (after 0 (before ++ .join 1 :: earlier)).unread 1 ≤
      (after 0 before).broadcast.kept) ∧
    ∃ c, a.Serves 1 [e, e] c ∧ a.KeepsUp 1 [e, e] c ∧ c.frames = [e.text] := by
  intro e before later a
  have hnew : (after 0 before).connection? 1 = none := rfl
  have hfew : ∀ earlier, earlier <+: later → (after 0 (before ++ .join 1 :: earlier)).unread 1 ≤
      (after 0 before).broadcast.kept := fun earlier hearlier => by
    have hall : ∀ earlier ∈ later.inits, (after 0 (before ++ .join 1 :: earlier)).unread 1 ≤
      (after 0 before).broadcast.kept := by decide
    exact hall earlier (List.mem_inits _ _ |>.mpr hearlier)
  obtain ⟨c, hserves, hkeeps⟩ := (serves_each_alone 0).2.2.2 before 1 later hnew
  refine ⟨rfl, hnew, hfew, c, hserves, hkeeps hfew, ?_⟩
  exact (congrArg Connection.frames (Option.some.inj hserves.known)).symm

end Audience

end Pipeworks
