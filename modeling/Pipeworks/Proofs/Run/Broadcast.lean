import Pipeworks.Run.Listener
import Mathlib.Algebra.Group.Nat.Defs
import Mathlib.Data.List.Infix
import Mathlib.Tactic.Common

/-!
What one observer reads of a broadcast. The events that it gets are among those sent since its subscription, each at
most once and in their order. It misses none of them until it has fallen behind by more events than are kept; then it is
told so once. If it asks again after that it gets the oldest event that is kept, and what lies between is lost to it. So
its events are an unbroken stretch exactly as long as no event comes after such an answer.
-/

namespace Pipeworks

/-! ### The events that are kept -/

namespace Broadcast

variable {b : Broadcast} {o : Observer}

/-- The search for a power of two finds the least one, if it goes far enough. -/
theorem powerFrom_spec (n k j : Nat) (hbelow : ∀ i < j, 2 ^ i < n) (hfar : n ≤ 2 ^ (j + k)) :
    ∃ j', powerFrom n k (2 ^ j) = 2 ^ j' ∧ n ≤ 2 ^ j' ∧ ∀ i < j', 2 ^ i < n := by
  induction k generalizing j with
  | zero => exact ⟨j, rfl, hfar, hbelow⟩
  | succ k ih =>
      rw [powerFrom]
      split_ifs with hn
      · exact ⟨j, rfl, hn, hbelow⟩
      · rw [← Nat.pow_succ']
        refine ih (j + 1) (fun i hi => ?_) (by rwa [Nat.add_right_comm])
        obtain hi | rfl := Nat.lt_succ_iff_lt_or_eq.mp hi
        · exact hbelow i hi
        · exact Nat.lt_of_not_le hn

theorem kept_spec (b : Broadcast) :
    ∃ j, b.kept = 2 ^ j ∧ max b.capacity 1 ≤ 2 ^ j ∧ ∀ i < j, 2 ^ i < max b.capacity 1 :=
  powerFrom_spec _ _ 0 (fun i hi => absurd hi (Nat.not_lt_zero i)) (by rw [Nat.zero_add]; exact Nat.lt_two_pow_self.le)

theorem next_cases (b : Broadcast) (o : Observer) :
    (b.kept < b.sent.size - o.position ∧ b.next o = (.lagged, ⟨b.sent.size - b.kept⟩)) ∨
    (b.sent.size - o.position ≤ b.kept ∧ ∃ e, b.sent.toList[o.position]? = some e ∧
      b.next o = (.event e, ⟨o.position + 1⟩)) ∨
    (b.sent.size ≤ o.position ∧ b.next o = (.pending, o)) := by
  rw [next]
  by_cases hlost : o.position < b.sent.size - b.kept
  · exact .inl ⟨by omega, if_pos hlost⟩
  · rw [if_neg hlost]
    cases hnext : b.sent[o.position]? with
    | some e => exact .inr (.inl ⟨by omega, e, by rwa [Array.getElem?_toList], rfl⟩)
    | none => exact .inr (.inr ⟨Array.getElem?_eq_none_iff.mp hnext, rfl⟩)

theorem toList_sent_send (b : Broadcast) (e : Event) : (b.send e).sent.toList = b.sent.toList ++ [e] :=
  Array.toList_push

end Broadcast

/-! ### One observer -/

namespace Listener

/-- From a number on, the observer was given one event after another and missed none between them. -/
def Unbroken (since : Nat) (l : Listener) : Prop := l.numbers = List.range' since l.numbers.length

def StopsAtLags (l : Listener) : Prop := l.heard.Pairwise fun a a' => a.isLag = true → a'.read? = none

def Behind (l : Listener) : Prop := l.broadcast.kept < l.broadcast.sent.size - l.observer.position

variable {l : Listener} {since n : Nat} {e : Event}

inductive Becomes (l : Listener) : Listener → Prop where
  | sends (e : Event) : Becomes l { l with broadcast := l.broadcast.send e }
  | lags : l.Behind → Becomes l { l with
      observer := ⟨l.broadcast.sent.size - l.broadcast.kept⟩
      heard := l.heard ++ [⟨l.observer.position, .lagged⟩] }
  | reads (e : Event) : l.broadcast.sent.toList[l.observer.position]? = some e → Becomes l { l with
      observer := ⟨l.observer.position + 1⟩
      heard := l.heard ++ [⟨l.observer.position, .event e⟩] }
  | waits : Becomes l { l with heard := l.heard ++ [⟨l.observer.position, .pending⟩] }

theorem becomes_play (l : Listener) (t : Turn) : l.Becomes (l.play t) := by
  cases t with
  | send e => exact .sends e
  | next =>
      obtain ⟨hlost, hnext⟩ | ⟨-, e, he, hnext⟩ | ⟨-, hnext⟩ := l.broadcast.next_cases l.observer <;>
        rw [play, hnext]
      · exact .lags hlost
      · exact .reads e he
      · exact .waits

structure Tracks (since : Nat) (l : Listener) : Prop where
  sent : ∀ n e, (n, e) ∈ l.reads → l.broadcast.sent.toList[n]? = some e
  ordered : l.numbers.Pairwise (· < ·)
  within : ∀ n ∈ l.numbers, since ≤ n ∧ n < l.observer.position
  reached : since + l.numbers.length ≤ l.observer.position
  unbroken : l.Unbroken since ↔ l.StopsAtLags
  next : l.StopsAtLags → (l.observer.position = since + l.numbers.length ↔ ∀ a ∈ l.heard, a.isLag = false)

theorem tracks_subscribe (b : Broadcast) : Tracks b.sent.size ⟨b, b.subscribe, []⟩ where
  sent _ _ h := absurd h List.not_mem_nil
  ordered := List.Pairwise.nil
  within _ h := absurd h List.not_mem_nil
  reached := Nat.le_refl _
  unbroken := iff_of_true rfl List.Pairwise.nil
  next _ := iff_of_true rfl fun _ h => absurd h List.not_mem_nil

/-! One more answer -/

section Answers

variable {a : Heard} {l' : Listener}

theorem reads_of_silent (hheard : l'.heard = l.heard ++ [a]) (ha : a.read? = none) : l'.reads = l.reads := by
  rw [reads, hheard, List.filterMap_append, List.filterMap_cons_none ha, List.filterMap_nil, List.append_nil, reads]

theorem reads_of_event (hheard : l'.heard = l.heard ++ [⟨n, .event e⟩]) : l'.reads = l.reads ++ [(n, e)] := by
  rw [reads, hheard, List.filterMap_append]
  rfl

theorem stopsAtLags_of_silent (hheard : l'.heard = l.heard ++ [a]) (ha : a.read? = none) :
    l'.StopsAtLags ↔ l.StopsAtLags := by
  rw [StopsAtLags, hheard, List.pairwise_append]
  refine ⟨fun h => h.1, fun h => ⟨h, List.pairwise_singleton _ _, fun _ _ a' ha' _ => ?_⟩⟩
  rw [List.mem_singleton.mp ha', ha]

theorem stopsAtLags_of_event (hheard : l'.heard = l.heard ++ [⟨n, .event e⟩]) :
    l'.StopsAtLags ↔ l.StopsAtLags ∧ ∀ a ∈ l.heard, a.isLag = false := by
  rw [StopsAtLags, hheard, List.pairwise_append]
  constructor
  · rintro ⟨hstops, -, hlast⟩
    refine ⟨hstops, fun a ha => ?_⟩
    cases hlag : a.isLag with
    | false => rfl
    | true => exact absurd (hlast a ha _ (List.mem_singleton_self _) hlag) (by simp [Heard.read?])
  · rintro ⟨hstops, hnone⟩
    exact ⟨hstops, List.pairwise_singleton _ _, fun a ha _ _ hlag => absurd hlag (by simp [hnone a ha])⟩

theorem unbroken_of_silent (hheard : l'.heard = l.heard ++ [a]) (ha : a.read? = none) :
    l'.Unbroken since ↔ l.Unbroken since := by
  rw [Unbroken, numbers, reads_of_silent hheard ha]
  rfl

/-- One more event goes on with an unbroken stretch if it is the very next one. -/
theorem unbroken_of_event (hheard : l'.heard = l.heard ++ [⟨n, .event e⟩]) :
    l'.Unbroken since ↔ l.Unbroken since ∧ n = since + l.numbers.length := by
  rw [Unbroken, numbers, reads_of_event hheard, List.map_append, List.length_append]
  change l.numbers ++ [n] = List.range' since (l.numbers.length + 1) ↔ _
  rw [← List.range'_append_1 (m := l.numbers.length), List.range'_one]
  constructor
  · intro h
    obtain ⟨hnumbers, hn⟩ := List.append_inj' h rfl
    exact ⟨hnumbers, List.singleton_inj.mp hn⟩
  · rintro ⟨hnumbers, rfl⟩
    rw [← hnumbers]

/-- An answer without an event moves the observer on if it is a lag, and only then. -/
theorem Tracks.silent (h : l.Tracks since) (hbroadcast : l'.broadcast = l.broadcast)
    (hheard : l'.heard = l.heard ++ [a]) (ha : a.read? = none) (hle : l.observer.position ≤ l'.observer.position)
    (hlag : l'.observer.position = l.observer.position ↔ a.isLag = false) : l'.Tracks since := by
  have hreads := reads_of_silent hheard ha
  have hnumbers : l'.numbers = l.numbers := congrArg (List.map Prod.fst) hreads
  have hreached := h.reached
  refine ⟨?_, ?_, ?_, ?_, ?_, fun hstops => ?_⟩
  · rw [hreads, hbroadcast]
    exact h.sent
  · rw [hnumbers]
    exact h.ordered
  · rw [hnumbers]
    exact fun n hn => ⟨(h.within n hn).1, Nat.lt_of_lt_of_le (h.within n hn).2 hle⟩
  · rw [hnumbers]
    exact Nat.le_trans hreached hle
  · rw [unbroken_of_silent hheard ha, stopsAtLags_of_silent hheard ha]
    exact h.unbroken
  · have hnext := h.next ((stopsAtLags_of_silent hheard ha).mp hstops)
    rw [hnumbers, hheard]
    constructor
    · intro hposition
      have hold : l.observer.position = since + l.numbers.length := by omega
      intro a' ha'
      obtain ha' | ha' := List.mem_append.mp ha'
      · exact hnext.mp hold a' ha'
      · rw [List.mem_singleton.mp ha']
        exact hlag.mp (by omega)
    · intro hnone
      rw [hlag.mpr (hnone a (List.mem_append_right _ (List.mem_singleton_self a)))]
      exact hnext.mpr fun a' ha' => hnone a' (List.mem_append_left _ ha')

/-- An event that is read is the one that the observer stands at. -/
theorem Tracks.event (h : l.Tracks since) (hbroadcast : l'.broadcast = l.broadcast)
    (hheard : l'.heard = l.heard ++ [⟨l.observer.position, .event e⟩])
    (he : l.broadcast.sent.toList[l.observer.position]? = some e)
    (hposition : l'.observer.position = l.observer.position + 1) : l'.Tracks since := by
  have hreads := reads_of_event hheard
  have hnumbers : l'.numbers = l.numbers ++ [l.observer.position] := by
    rw [numbers, hreads, List.map_append]
    rfl
  have hreached := h.reached
  -- the new number is the position, which is above all earlier ones and below the next position
  refine ⟨fun n e' hmem => ?_, ?_, fun n hn => ?_, ?_, ?_, fun hstops => ?_⟩
  · rw [hbroadcast]
    rw [hreads] at hmem
    obtain hmem | hmem := List.mem_append.mp hmem
    · exact h.sent n e' hmem
    · obtain ⟨rfl, rfl⟩ := Prod.mk.inj (List.mem_singleton.mp hmem)
      exact he
  · rw [hnumbers, List.pairwise_append]
    refine ⟨h.ordered, List.pairwise_singleton _ _, fun n hn n' hn' => ?_⟩
    rw [List.mem_singleton.mp hn']
    exact (h.within n hn).2
  · rw [hnumbers] at hn
    obtain hn | hn := List.mem_append.mp hn
    · have := h.within n hn
      omega
    · rw [List.mem_singleton.mp hn]
      omega
  · rw [hnumbers, List.length_append, List.length_singleton]
    omega
  · rw [unbroken_of_event hheard, stopsAtLags_of_event hheard, h.unbroken]
    exact and_congr_right fun hstops => h.next hstops
  · obtain ⟨hstops, hnone⟩ := (stopsAtLags_of_event hheard).mp hstops
    have hold := (h.next hstops).mpr hnone
    rw [hnumbers, List.length_append, List.length_singleton]
    refine iff_of_true (by omega) fun a ha => ?_
    rw [hheard] at ha
    obtain ha | ha := List.mem_append.mp ha
    · exact hnone a ha
    · rw [List.mem_singleton.mp ha]
      rfl

end Answers

theorem Tracks.becomes {l' : Listener} (h : l.Tracks since) (hl : l.Becomes l') : l'.Tracks since := by
  cases hl with
  | sends e =>
      refine ⟨fun n e' hmem => ?_, h.ordered, h.within, h.reached, h.unbroken, h.next⟩
      obtain ⟨hn, he⟩ := List.getElem?_eq_some_iff.mp (h.sent n e' hmem)
      rw [Broadcast.toList_sent_send, List.getElem?_append_left hn]
      exact h.sent n e' hmem
  | lags hbehind =>
      rw [Behind] at hbehind
      exact h.silent rfl rfl rfl (by dsimp only; omega) ⟨fun heq => by dsimp only at heq; omega, nofun⟩
  | reads e he => exact h.event rfl rfl he rfl
  | waits => exact h.silent rfl rfl rfl (Nat.le_refl _) (iff_of_true rfl rfl)

theorem tracks_after (b : Broadcast) (turns : List Turn) : (after b turns).Tracks b.sent.size := by
  induction turns using List.reverseRecOn with
  | nil => exact tracks_subscribe b
  | append_singleton turns t ih =>
      rw [after, List.foldl_append]
      exact ih.becomes (becomes_play _ t)

theorem Tracks.events_prefix (h : l.Tracks since) (hunbroken : l.Unbroken since) :
    l.events <+: l.broadcast.sent.toList.drop since := by
  rw [List.prefix_iff_getElem?]
  intro i hi
  have hread : i < l.reads.length := by rwa [events, List.length_map] at hi
  have hnumber : (l.reads.get ⟨i, hread⟩).1 = since + i := by
    have hi' : i < l.numbers.length := by rwa [numbers, List.length_map]
    have hat : (l.reads.get ⟨i, hread⟩).1 = l.numbers.get ⟨i, hi'⟩ := (List.getElem_map _).symm
    rw [hat, List.get_eq_getElem, List.getElem_of_eq hunbroken, List.getElem_range', Nat.one_mul]
  have hsent := h.sent _ _ (List.getElem_mem hread)
  rw [List.getElem?_drop, ← hnumber, hsent]
  exact congrArg some (List.getElem_map _).symm

theorem heard_play_of_behind (h : l.Behind) :
    l.play .next = { l with
      observer := ⟨l.broadcast.sent.size - l.broadcast.kept⟩
      heard := l.heard ++ [⟨l.observer.position, .lagged⟩] } := by
  rw [Behind] at h
  obtain ⟨-, hnext⟩ | ⟨hfew, -⟩ | ⟨hnone, -⟩ := l.broadcast.next_cases l.observer
  · rw [play, hnext]
  · omega
  · omega

/-- An observer that fell behind is told so; asking again it gets the oldest event that is kept. -/
theorem heard_play_play_of_behind (h : l.Behind) :
    ∃ e, l.broadcast.sent.toList[l.broadcast.sent.size - l.broadcast.kept]? = some e ∧
      ((l.play .next).play .next).heard = l.heard ++ [⟨l.observer.position, .lagged⟩,
        ⟨l.broadcast.sent.size - l.broadcast.kept, .event e⟩] := by
  have hkept : 0 < l.broadcast.kept := by
    obtain ⟨j, hj, -⟩ := l.broadcast.kept_spec
    rw [hj]
    exact Nat.two_pow_pos j
  rw [heard_play_of_behind h]
  rw [Behind] at h
  obtain ⟨hlost, -⟩ | ⟨-, e, he, hnext⟩ | ⟨hnone, -⟩ :=
    l.broadcast.next_cases ⟨l.broadcast.sent.size - l.broadcast.kept⟩
  · dsimp only at hlost
    omega
  · refine ⟨e, he, ?_⟩
    rw [play, hnext, List.append_assoc]
    rfl
  · dsimp only at hnone
    omega

theorem behind_iff (l : Listener) :
    l.Behind ↔ (l.play .next).heard = l.heard ++ [⟨l.observer.position, .lagged⟩] := by
  refine ⟨fun h => by rw [heard_play_of_behind h], fun h => ?_⟩
  obtain ⟨hlost, -⟩ | ⟨-, e, -, hnext⟩ | ⟨-, hnext⟩ := l.broadcast.next_cases l.observer
  · exact hlost
  · rw [play, hnext] at h
    exact absurd (List.append_cancel_left h) (by simp)
  · rw [play, hnext] at h
    exact absurd (List.append_cancel_left h) (by simp)

structure Served (b : Broadcast) (l : Listener) : Prop where
  sent : ∀ n e, (n, e) ∈ l.reads → b.sent.size ≤ n ∧ l.broadcast.sent.toList[n]? = some e
  ordered : l.numbers.Pairwise (· < ·)
  /-- It misses an event between two others exactly if it goes on asking after it was told that it lags. -/
  unbroken : l.Unbroken b.sent.size ↔ l.StopsAtLags
  stretch : l.StopsAtLags → l.events <+: l.broadcast.sent.toList.drop b.sent.size
  behind : l.Behind ↔ (l.play .next).heard = l.heard ++ [⟨l.observer.position, .lagged⟩]
  resumes : l.Behind → ∃ e, l.broadcast.sent.toList[l.broadcast.sent.size - l.broadcast.kept]? = some e ∧
    ((l.play .next).play .next).heard = l.heard ++ [⟨l.observer.position, .lagged⟩,
      ⟨l.broadcast.sent.size - l.broadcast.kept, .event e⟩] ∧
    ¬ ((l.play .next).play .next).Unbroken b.sent.size

/-- However events and questions alternate, an observer gets an unbroken stretch of the events since its subscription
as long as it stops at the first answer that tells of lost events. If it asks again, there is a gap. -/
theorem served_after (b : Broadcast) (turns : List Turn) : (after b turns).Served b := by
  have h := tracks_after b turns
  refine ⟨fun n e hmem => ⟨?_, h.sent n e hmem⟩, h.ordered, h.unbroken,
    fun hstops => h.events_prefix (h.unbroken.mpr hstops), behind_iff _, fun hbehind => ?_⟩
  · exact (h.within n (List.mem_map_of_mem (f := Prod.fst) hmem)).1
  · obtain ⟨e, he, hheard⟩ := heard_play_play_of_behind hbehind
    refine ⟨e, he, hheard, fun hunbroken => ?_⟩
    have htold := heard_play_of_behind hbehind
    have hlast : (((after b turns).play .next).play .next).heard =
        ((after b turns).play .next).heard ++
          [⟨(after b turns).broadcast.sent.size - (after b turns).broadcast.kept, .event e⟩] := by
      rw [hheard, htold, List.append_assoc]
      rfl
    have htracks := (h.becomes (becomes_play _ .next)).becomes (becomes_play _ .next)
    have hnone := ((stopsAtLags_of_event hlast).mp (htracks.unbroken.mp hunbroken)).2
    rw [htold] at hnone
    exact absurd (hnone _ (List.mem_append_right _ (List.mem_singleton_self _))) (by simp [Heard.isLag])

/-- Of three events two are kept. The observer of them is told that it lags, and then gets the second one, not the
first. -/
theorem gap_after_lag :
    ¬ ∀ (b : Broadcast) (turns : List Turn),
      (after b turns).events <+: (after b turns).broadcast.sent.toList.drop b.sent.size := by
  intro h
  have hprefix := h ⟨2, #[]⟩ [.send (.announcement 1 "tick" "0"), .send (.announcement 1 "tick" "1"),
    .send (.announcement 1 "tick" "2"), .next, .next]
  change [Event.announcement 1 "tick" "1"] <+:
    [.announcement 1 "tick" "0", .announcement 1 "tick" "1", .announcement 1 "tick" "2"] at hprefix
  have hfirst := (List.cons_prefix_cons.mp hprefix).1
  simp [Event.announcement, Event.lifecycle] at hfirst

end Listener

end Pipeworks
