import Pipeworks.Proofs.Subprocess

/-!
What the owner of a process says about its end. Between two calls, and inside the calls that wait, time passes and the
process goes its own way: it may end at any moment, by itself or by a signal of anybody, but what it once reports as its
status it reports for ever. `Answers` tells what each call may answer then, and a `Dialogue` is any sequence of calls.

All that a verdict rests on are the status that was seen and the request to stop. The first never changes, and once
there is one the second never changes either: a request to stop looks first, and is void when it sees an end.
-/

namespace Pipeworks.Subprocess

structure View where
  now : Moment
  process : Subprocess

/-- Time passes, and the process may end, or may have another end before it, in any way. -/
structure Lapse (v w : View) : Prop where
  onward : v.now ≤ w.now
  /-- How it ended stays. -/
  ended : ∀ e, v.process.child.status? v.now = some e → w.process.child.status? w.now = some e
  untouched : ∃ c, w.process = { v.process with child := c }

inductive Call where
  | poll
  | isAlive
  | exitedUnexpectedly
  | failed
  | terminate
  | kill
  | wait
  | shutdown (grace : Duration)
deriving DecidableEq

def Call.asksToStop : Call → Bool
  | .terminate | .kill | .shutdown _ => true
  | _ => false

inductive Reply where
  | status (s : Option ExitStatus)
  | flag (b : Bool)
  | done
deriving DecidableEq

def Asks (signal : Nat) (v w : View) : Prop :=
  ∃ u, Lapse ⟨v.now, v.process.requestStop v.now⟩ u ∧ w = ⟨u.now, u.process.receive u.now signal⟩

/-- What a call answers, and how the process stands after it. A shutdown waits once or twice, and either wait may be
broken off at any moment. -/
inductive Answers : Call → View → Reply → View → Prop where
  | poll {v : View} : Answers .poll v (.status (v.process.poll v.now).1) ⟨v.now, (v.process.poll v.now).2⟩
  | isAlive {v : View} : Answers .isAlive v (.flag (v.process.isAlive v.now).1) ⟨v.now, (v.process.isAlive v.now).2⟩
  | exitedUnexpectedly {v : View} : Answers .exitedUnexpectedly v (.status (v.process.exitedUnexpectedly v.now).1)
      ⟨v.now, (v.process.exitedUnexpectedly v.now).2⟩
  | failed {v : View} : Answers .failed v (.flag (v.process.failed v.now).1) ⟨v.now, (v.process.failed v.now).2⟩
  | terminate {v w : View} : Asks Signal.term v w → Answers .terminate v .done w
  | kill {v w : View} : Asks Signal.kill v w → Answers .kill v .done w
  | wait {v u : View} {e : ExitStatus} {now : Moment} {p : Subprocess} : Lapse v u →
      u.process.wait? u.now = some (e, now, p) → Answers .wait v (.status (some e)) ⟨now, p⟩
  | heeded {grace : Duration} {v u w : View} {e : ExitStatus} : Asks Signal.term v u →
      Answers .wait u (.status (some e)) w → Answers (.shutdown grace) v (.status (some e)) w
  | killed {grace : Duration} {v u u' x w : View} {e : ExitStatus} : Asks Signal.term v u → Lapse u u' →
      Asks Signal.kill u' x → Answers .wait x (.status (some e)) w → Answers (.shutdown grace) v (.status (some e)) w
  | leaked {grace : Duration} {v u u' x w : View} : Asks Signal.term v u → Lapse u u' → Asks Signal.kill u' x →
      Lapse x w → Answers (.shutdown grace) v (.status none) w

structure Turn where
  before : View
  call : Call
  reply : Reply
  after : View

inductive Dialogue (start : View) : List Turn → View → Prop where
  | nil : Dialogue start [] start
  | lapse {log : List Turn} {v w : View} : Dialogue start log v → Lapse v w → Dialogue start log w
  | turn {log : List Turn} {v w : View} {call : Call} {reply : Reply} : Dialogue start log v → Answers call v reply w →
      Dialogue start (log ++ [⟨v, call, reply, w⟩]) w

variable {now m : Moment} {e : ExitStatus} {p q r : Subprocess} {v w u : View} {call : Call} {reply : Reply}

theorem poll_of_exit (h : p.exit = some e) : p.poll now = (some e, p) := by
  obtain ⟨label, child, exit, stopRequested⟩ := p
  obtain rfl : exit = some e := h
  rfl

theorem wait?_of_exit (h : p.exit = some e) : p.wait? now = some (e, now, p) := by
  rw [wait?, h]

theorem wait?_of_poll (h : p.poll now = (some e, q)) : p.wait? now = some (e, now, q) := by
  obtain ⟨hexit, rfl⟩ := Prod.mk.inj h
  rcases Option.or_eq_some_iff.mp hexit with hseen | ⟨hunseen, hended⟩
  · rw [wait?_of_exit hseen, hseen, Option.some_or, ← hseen]
  · obtain ⟨m, hfate, hm⟩ := Child.status?_eq_some.mp hended
    rw [wait?, hunseen, hfate, hended, Option.none_or]
    exact congrArg (fun n => some (e, n, { p with exit := some e })) (max_eq_left hm)

theorem requestStop_eq_ite (now : Moment) (p : Subprocess) : p.requestStop now =
    if (p.poll now).1.isNone then { (p.poll now).2 with stopRequested := true } else (p.poll now).2 := rfl

theorem exitedUnexpectedly_of_asked (h : p.stopRequested = true) : p.exitedUnexpectedly now = (none, p) := if_pos h

theorem exitedUnexpectedly_of_unasked (h : p.stopRequested = false) : p.exitedUnexpectedly now = p.poll now :=
  if_neg (Bool.not_eq_true _ ▸ h)

theorem failed_eq_true : (p.failed now).1 = true ↔
    ∃ e, (p.exitedUnexpectedly now).1 = some e ∧ e.isSuccess = false := by
  change (p.exitedUnexpectedly now).1.any (fun e => !e.isSuccess) = true ↔ _
  cases (p.exitedUnexpectedly now).1 <;> simp

/-- What is settled about the end of a process, when this is all that happened to it in between. -/
structure Keeps (p q : Subprocess) : Prop where
  seen : ∀ e, p.exit = some e → q.exit = some e
  asked : p.stopRequested = true → q.stopRequested = true
  /-- Nothing makes an end that was seen an expected one. -/
  settled : ∀ e, p.exit = some e → q.stopRequested = p.stopRequested

namespace Keeps

theorem trans (h : Keeps p q) (h' : Keeps q r) : Keeps p r :=
  ⟨fun e he => h'.seen e (h.seen e he), fun ha => h'.asked (h.asked ha),
    fun e he => (h'.settled e (h.seen e he)).trans (h.settled e he)⟩

theorem of_same (hexit : q.exit = p.exit) (hasked : q.stopRequested = p.stopRequested) : Keeps p q :=
  ⟨fun _ he => hexit.trans he, fun ha => hasked.trans ha, fun _ _ => hasked⟩

theorem poll (now : Moment) (p : Subprocess) : Keeps p (p.poll now).2 :=
  ⟨fun _ he => by rw [poll_of_exit he]; exact he, fun ha => ha, fun _ _ => rfl⟩

theorem exitedUnexpectedly (now : Moment) (p : Subprocess) : Keeps p (p.exitedUnexpectedly now).2 := by
  cases hasked : p.stopRequested with
  | true => rw [exitedUnexpectedly_of_asked hasked]; exact of_same rfl rfl
  | false => rw [exitedUnexpectedly_of_unasked hasked]; exact poll now p

/-- A request to stop is void once the end was seen. -/
theorem requestStop (now : Moment) (p : Subprocess) : Keeps p (p.requestStop now) := by
  have hvoid {e : ExitStatus} (he : p.exit = some e) : p.requestStop now = p := by
    rw [requestStop_eq_ite, poll_of_exit he]
    rfl
  refine ⟨fun e he => (hvoid he).symm ▸ he, fun ha => ?_, fun e he => congrArg _ (hvoid he)⟩
  rw [requestStop_eq_ite]
  split_ifs
  · rfl
  · exact ha

theorem wait (h : p.wait? now = some (e, m, q)) : Keeps p q ∧ q.exit = some e := by
  cases hexit : p.exit with
  | some e' =>
      rw [wait?_of_exit hexit] at h
      obtain ⟨rfl, -, rfl⟩ := h
      exact ⟨of_same rfl rfl, hexit⟩
  | none =>
      rw [wait?, hexit] at h
      obtain ⟨f, -, hf⟩ := Option.map_eq_some_iff.mp h
      obtain ⟨rfl, -, rfl⟩ := hf
      exact ⟨⟨fun _ he => (Option.some_ne_none _ (he.symm.trans hexit)).elim, fun ha => ha, fun _ _ => rfl⟩, rfl⟩

end Keeps

namespace Lapse

theorem refl (v : View) : Lapse v v := ⟨le_refl _, fun _ h => h, _, rfl⟩

theorem trans (h : Lapse v u) (h' : Lapse u w) : Lapse v w := by
  obtain ⟨c, hc⟩ := h.untouched
  obtain ⟨c', hc'⟩ := h'.untouched
  exact ⟨le_trans h.onward h'.onward, fun e he => h'.ended e (h.ended e he), c', by rw [hc', hc]⟩

theorem keeps (h : Lapse v w) : Keeps v.process w.process := by
  obtain ⟨c, hc⟩ := h.untouched
  rw [hc]
  exact .of_same rfl rfl

/-- A process that nobody touches goes on to its end. -/
theorem pass (hle : now ≤ m) (p : Subprocess) : Lapse ⟨now, p⟩ ⟨m, p⟩ :=
  ⟨hle, fun _ h => Child.status?_mono hle h, _, rfl⟩

theorem receive (now : Moment) (signal : Nat) (p : Subprocess) : Lapse ⟨now, p⟩ ⟨now, p.receive now signal⟩ :=
  ⟨le_refl _, fun _ h => Child.status?_receive signal h, _, rfl⟩

end Lapse

theorem stopRequested_requestStop (h : (p.poll now).1 = none) : (p.requestStop now).stopRequested = true := by
  rw [requestStop_eq_ite, if_pos (Option.isNone_iff_eq_none.mpr h)]

namespace Asks

variable {signal : Nat}

theorem keeps (h : Asks signal v w) : Keeps v.process w.process := by
  obtain ⟨u, hlapse, rfl⟩ := h
  exact ((Keeps.requestStop v.now v.process).trans hlapse.keeps).trans (Lapse.receive u.now signal u.process).keeps

theorem asked (h : Asks signal v w) (halive : (v.process.poll v.now).1 = none) : w.process.stopRequested = true := by
  obtain ⟨u, hlapse, rfl⟩ := h
  exact hlapse.keeps.asked (stopRequested_requestStop halive)

theorem at_once (signal : Nat) (now : Moment) (p : Subprocess) :
    Asks signal ⟨now, p⟩ ⟨now, (p.requestStop now).receive now signal⟩ := ⟨_, .refl _, rfl⟩

end Asks

namespace Answers

theorem keeps (h : Answers call v reply w) : Keeps v.process w.process := by
  induction h with
  | poll => exact .poll _ _
  | isAlive => exact .poll _ _
  | exitedUnexpectedly => exact .exitedUnexpectedly _ _
  | failed => exact .exitedUnexpectedly _ _
  | terminate hasks => exact hasks.keeps
  | kill hasks => exact hasks.keeps
  | wait hlapse hwait => exact hlapse.keeps.trans (Keeps.wait hwait).1
  | heeded hasks _ ih => exact hasks.keeps.trans ih
  | killed hasks hlapse hkill _ ih => exact ((hasks.keeps.trans hlapse.keeps).trans hkill.keeps).trans ih
  | leaked hasks hlapse hkill hlast => exact ((hasks.keeps.trans hlapse.keeps).trans hkill.keeps).trans hlast.keeps

theorem seen_of_wait (h : Answers .wait v (.status (some e)) w) : w.process.exit = some e := by
  cases h with
  | wait hlapse hwait => exact (Keeps.wait hwait).2

/-- The end without a request, as it is told: it was seen, and there was no request. -/
theorem unexpected (h : Answers .exitedUnexpectedly v reply w) (hreply : reply = .status (some e)) :
    w.process.exit = some e ∧ w.process.stopRequested = false := by
  cases h with
  | exitedUnexpectedly =>
      have hstatus := Reply.status.inj hreply
      cases hasked : v.process.stopRequested with
      | true => rw [exitedUnexpectedly_of_asked hasked] at hstatus; cases hstatus
      | false =>
          rw [exitedUnexpectedly_of_unasked hasked] at hstatus ⊢
          exact ⟨hstatus, hasked⟩

theorem seen (h : Answers call v reply w) (hreply : reply = .status (some e)) : w.process.exit = some e := by
  cases h with
  | poll => exact Reply.status.inj hreply
  | exitedUnexpectedly => exact (unexpected .exitedUnexpectedly hreply).1
  | wait _ hwait => exact (Keeps.wait hwait).2.trans (Reply.status.inj hreply)
  | heeded _ hwait => exact hwait.seen_of_wait.trans (Reply.status.inj hreply)
  | killed _ _ _ hwait => exact hwait.seen_of_wait.trans (Reply.status.inj hreply)
  | leaked => cases hreply
  | isAlive => cases hreply
  | failed => cases hreply
  | terminate _ => cases hreply
  | kill _ => cases hreply

/-- A request that finds the process alive is known from then on. -/
theorem asked (h : Answers call v reply w) (hasks : call.asksToStop = true) (halive : (v.process.poll v.now).1 = none) :
    w.process.stopRequested = true := by
  cases h with
  | terminate hterm => exact hterm.asked halive
  | kill hkill => exact hkill.asked halive
  | heeded hterm hwait => exact hwait.keeps.asked (hterm.asked halive)
  | killed hterm hlapse hkill hwait =>
      exact hwait.keeps.asked (hkill.keeps.asked (hlapse.keeps.asked (hterm.asked halive)))
  | leaked hterm hlapse hkill hlast =>
      exact hlast.keeps.asked (hkill.keeps.asked (hlapse.keeps.asked (hterm.asked halive)))
  | poll => cases hasks
  | isAlive => cases hasks
  | exitedUnexpectedly => cases hasks
  | failed => cases hasks
  | wait => cases hasks

theorem told (h : Answers .exitedUnexpectedly v reply w) :
    reply = .status (v.process.exitedUnexpectedly v.now).1 := by
  cases h with
  | exitedUnexpectedly => rfl

theorem failed_iff (h : Answers .failed v reply w) :
    reply = .flag true ↔ ∃ e, Answers .exitedUnexpectedly v (.status (some e)) w ∧ e.isSuccess = false := by
  cases h with
  | failed =>
      rw [Reply.flag.injEq, failed_eq_true]
      refine exists_congr fun e => and_congr_left fun _ => ⟨fun htold => ?_, fun htold => ?_⟩
      · rw [← htold]
        exact .exitedUnexpectedly
      · exact (Reply.status.inj htold.told).symm

/-! ### After a verdict -/

theorem poll_after (h : Answers .poll v reply w) (hseen : v.process.exit = some e) : reply = .status (some e) := by
  cases h with
  | poll => rw [poll_of_exit hseen]

theorem wait_after (h : Answers .wait v reply w) (hseen : v.process.exit = some e) : reply = .status (some e) := by
  cases h with
  | wait hlapse hwait =>
      rw [wait?_of_exit (hlapse.keeps.seen _ hseen)] at hwait
      obtain ⟨rfl, -⟩ := hwait
      rfl

theorem exitedUnexpectedly_after (h : Answers .exitedUnexpectedly v reply w) (hseen : v.process.exit = some e)
    (hunasked : v.process.stopRequested = false) : reply = .status (some e) := by
  rw [h.told, exitedUnexpectedly_of_unasked hunasked, poll_of_exit hseen]

theorem failed_after (h : Answers .failed v reply w) (hseen : v.process.exit = some e)
    (hunasked : v.process.stopRequested = false) : reply = .flag !e.isSuccess := by
  cases h with
  | failed =>
      change Reply.flag ((v.process.exitedUnexpectedly v.now).1.any fun e => !e.isSuccess) = _
      rw [exitedUnexpectedly_of_unasked hunasked, poll_of_exit hseen]
      rfl

theorem exitedUnexpectedly_of_asked (h : Answers .exitedUnexpectedly v reply w)
    (hasked : v.process.stopRequested = true) : reply = .status none := by
  rw [h.told, Subprocess.exitedUnexpectedly_of_asked hasked]

theorem failed_of_asked (h : Answers .failed v reply w) (hasked : v.process.stopRequested = true) :
    reply = .flag false := by
  cases h with
  | failed =>
      change Reply.flag ((v.process.exitedUnexpectedly v.now).1.any fun e => !e.isSuccess) = _
      rw [Subprocess.exitedUnexpectedly_of_asked hasked]
      rfl

end Answers

namespace Turn

def Observes (t : Turn) (e : ExitStatus) : Prop := t.reply = .status (some e) ∨ t.after.process.exit = some e

/-- The call has asked the process to stop, and the look before that showed it alive. -/
def StopsAlive (t : Turn) : Prop :=
  t.call.asksToStop = true ∧ (t.before.process.poll t.before.now).1 = none

/-- What an answer settles about the answers of later calls. -/
structure Binds (t later : Turn) : Prop where
  observed : ∀ e, t.Observes e → later.call = .poll ∨ later.call = .wait → later.reply = .status (some e)
  unexpected : ∀ e, t.call = .exitedUnexpectedly → t.reply = .status (some e) →
    (later.call = .exitedUnexpectedly → later.reply = .status (some e)) ∧
      (later.call = .failed → later.reply = .flag !e.isSuccess)
  failed : t.call = .failed → t.reply = .flag true → ∃ e, e.isSuccess = false ∧
    (later.call = .exitedUnexpectedly → later.reply = .status (some e)) ∧
      (later.call = .failed → later.reply = .flag true)
  stopped : t.StopsAlive → (later.call = .exitedUnexpectedly → later.reply = .status none) ∧
    (later.call = .failed → later.reply = .flag false)

structure Settles (t : Turn) (p : Subprocess) : Prop where
  observed : ∀ e, t.Observes e → p.exit = some e
  unexpected : ∀ e, t.call = .exitedUnexpectedly → t.reply = .status (some e) →
    p.exit = some e ∧ p.stopRequested = false
  failed : t.call = .failed → t.reply = .flag true →
    ∃ e, e.isSuccess = false ∧ p.exit = some e ∧ p.stopRequested = false
  stopped : t.StopsAlive → p.stopRequested = true

namespace Settles

variable {t : Turn}

theorem of_answers (h : Answers call v reply w) : Settles ⟨v, call, reply, w⟩ w.process where
  observed e hobs := hobs.elim h.seen id
  unexpected e hcall hreply := by
    obtain rfl : call = _ := hcall
    exact h.unexpected hreply
  failed hcall hreply := by
    obtain rfl : call = _ := hcall
    obtain ⟨e, hunexpected, hbad⟩ := h.failed_iff.mp hreply
    exact ⟨e, hbad, hunexpected.unexpected rfl⟩
  stopped := fun ⟨hasks, halive⟩ => h.asked hasks halive

theorem keeps (h : t.Settles p) (hkeeps : Keeps p q) : t.Settles q where
  observed e hobs := hkeeps.seen e (h.observed e hobs)
  unexpected e hcall hreply :=
    have ⟨hseen, hunasked⟩ := h.unexpected e hcall hreply
    ⟨hkeeps.seen e hseen, (hkeeps.settled e hseen).trans hunasked⟩
  failed hcall hreply :=
    have ⟨e, hbad, hseen, hunasked⟩ := h.failed hcall hreply
    ⟨e, hbad, hkeeps.seen e hseen, (hkeeps.settled e hseen).trans hunasked⟩
  stopped hstops := hkeeps.asked (h.stopped hstops)

theorem binds (h : t.Settles v.process) (hanswers : Answers call v reply w) : t.Binds ⟨v, call, reply, w⟩ where
  observed e hobs hcall := by
    have hseen := h.observed e hobs
    rcases hcall with hcall | hcall <;> obtain rfl : call = _ := hcall
    · exact hanswers.poll_after hseen
    · exact hanswers.wait_after hseen
  unexpected e hcall hreply := by
    obtain ⟨hseen, hunasked⟩ := h.unexpected e hcall hreply
    constructor <;> intro hcall <;> obtain rfl : call = _ := hcall
    · exact hanswers.exitedUnexpectedly_after hseen hunasked
    · exact hanswers.failed_after hseen hunasked
  failed hcall hreply := by
    obtain ⟨e, hbad, hseen, hunasked⟩ := h.failed hcall hreply
    refine ⟨e, hbad, fun hcall => ?_, fun hcall => ?_⟩ <;> obtain rfl : call = _ := hcall
    · exact hanswers.exitedUnexpectedly_after hseen hunasked
    · exact (hanswers.failed_after hseen hunasked).trans (by rw [hbad]; rfl)
  stopped hstops := by
    have hasked := h.stopped hstops
    constructor <;> intro hcall <;> obtain rfl : call = _ := hcall
    · exact hanswers.exitedUnexpectedly_of_asked hasked
    · exact hanswers.failed_of_asked hasked

end Settles

end Turn

namespace Dialogue

variable {start stop : View} {log : List Turn}

/-- Whatever a call has settled stands at the end of a dialogue. -/
theorem settles (h : Dialogue start log stop) : ∀ t ∈ log, t.Settles stop.process := by
  induction h with
  | nil => exact fun t ht => absurd ht List.not_mem_nil
  | lapse _ hlapse ih => exact fun t ht => (ih t ht).keeps hlapse.keeps
  | turn _ hanswers ih =>
      intro t ht
      rcases List.mem_append.mp ht with ht | ht
      · exact (ih t ht).keeps hanswers.keeps
      · obtain rfl := List.mem_singleton.mp ht
        exact .of_answers hanswers

theorem answers (h : Dialogue start log stop) : ∀ t ∈ log, Answers t.call t.before t.reply t.after := by
  induction h with
  | nil => exact fun t ht => absurd ht List.not_mem_nil
  | lapse _ _ ih => exact ih
  | turn _ hanswers ih =>
      intro t ht
      rcases List.mem_append.mp ht with ht | ht
      · exact ih t ht
      · obtain rfl := List.mem_singleton.mp ht
        exact hanswers

theorem binds (h : Dialogue start log stop) : log.Pairwise Turn.Binds := by
  induction h with
  | nil => exact .nil
  | lapse _ _ ih => exact ih
  | turn hdialogue hanswers ih =>
      refine List.pairwise_append.mpr ⟨ih, List.pairwise_singleton .., fun t ht later hlater => ?_⟩
      obtain rfl := List.mem_singleton.mp hlater
      exact (hdialogue.settles t ht).binds hanswers

end Dialogue

/-! ### Calls that nobody interrupts -/

theorem answers_terminate (now : Moment) (p : Subprocess) :
    Answers .terminate ⟨now, p⟩ .done ⟨now, p.terminate now⟩ := .terminate (.at_once ..)

theorem Answers.wait_of_lapse (hlapse : Lapse v u) (h : Answers .wait u reply w) : Answers .wait v reply w := by
  cases h with
  | wait hlapse' hwait => exact .wait (hlapse.trans hlapse') hwait

theorem answers_wait_of_poll (h : p.poll now = (some e, q)) : Answers .wait ⟨now, p⟩ (.status (some e)) ⟨now, q⟩ :=
  .wait (.refl _) (wait?_of_poll h)

/-- Nothing happens before the end of a process that is alive or the limit of its shutdown. -/
theorem wake_due {s : Shutdown} (halive : (p.poll now).1 = none) (hearly : now < s.limit) :
    now ≤ s.wake now p ∧ (s.limit ≤ s.wake now p ∨ ∃ e q, p.poll (s.wake now p) = (some e, q)) := by
  obtain ⟨hunseen, -⟩ := Option.or_eq_none_iff.mp halive
  have hend : p.end? now = p.child.fate.map fun f => max now f.1 := if_neg (by simp [hunseen])
  rw [Shutdown.wake, hend]
  cases hfate : p.child.fate with
  | none => exact ⟨le_of_lt hearly, .inl (le_refl _)⟩
  | some f =>
      obtain ⟨m, e⟩ := f
      refine ⟨le_min (le_max_left ..) (le_of_lt hearly), ?_⟩
      rcases le_total s.limit (max now m) with hle | hle
      · exact .inl (le_of_eq (min_eq_right hle).symm)
      · refine .inr ⟨e, { p with exit := some e }, ?_⟩
        have hended : p.child.status? (max now m) = some e := Child.status?_eq_some.mpr ⟨m, hfate, le_max_right ..⟩
        change p.poll (min (max now m) s.limit) = _
        rw [min_eq_left hle, poll, hunseen, hended, Option.none_or]

variable {grace : Duration} {status : Option ExitStatus} {limit : Moment}

theorem next_of_seen {s : Shutdown} (h : p.poll now = (some e, q)) : s.next grace now p = .done (some e) q := by
  rw [Shutdown.next.eq_def, h]

theorem next_of_early {s : Shutdown} (halive : (p.poll now).1 = none) (hearly : ¬s.limit ≤ now) :
    s.next grace now p = .wait := by
  rw [Shutdown.next.eq_def, show p.poll now = (none, (p.poll now).2) from Prod.ext halive rfl]
  exact if_neg hearly

theorem next_asked_of_late (halive : (p.poll now).1 = none) (hlate : limit ≤ now) :
    Shutdown.next grace now (.asked limit) p = .later (.killed (now + grace.nanos)) (p.kill now) := by
  rw [Shutdown.next.eq_def, show p.poll now = (none, (p.poll now).2) from Prod.ext halive rfl]
  exact if_pos hlate

theorem next_killed_of_late (halive : (p.poll now).1 = none) (hlate : limit ≤ now) :
    Shutdown.next grace now (.killed limit) p = .done none p := by
  rw [Shutdown.next.eq_def, show p.poll now = (none, (p.poll now).2) from Prod.ext halive rfl]
  exact if_pos hlate

/-- What is left of a shutdown that has killed is a wait, or the end of one that was broken off. -/
theorem finish_killed {n : Nat} (h : finishShutdown grace n now (.killed limit) p = (status, m, q)) :
    (∃ e, status = some e ∧ Answers .wait ⟨now, p⟩ (.status (some e)) ⟨m, q⟩) ∨
      status = none ∧ Lapse ⟨now, p⟩ ⟨m, q⟩ := by
  induction n generalizing now with
  | zero =>
      obtain ⟨rfl, rfl, rfl⟩ := h
      exact .inr ⟨rfl, .refl _⟩
  | succ n ih =>
      rw [finishShutdown] at h
      rcases hpoll : p.poll now with ⟨_ | e, p'⟩
      · have halive := congrArg Prod.fst hpoll
        by_cases hlate : limit ≤ now
        · rw [next_killed_of_late halive hlate] at h
          obtain ⟨rfl, rfl, rfl⟩ := h
          exact .inr ⟨rfl, .refl _⟩
        · rw [next_of_early (s := .killed limit) halive hlate] at h
          have hpass := Lapse.pass (wake_due (s := .killed limit) halive (not_le.mp hlate)).1 p
          refine (ih h).imp (fun ⟨e, hstatus, hwait⟩ => ⟨e, hstatus, hwait.wait_of_lapse hpass⟩) ?_
          exact fun ⟨hstatus, hlapse⟩ => ⟨hstatus, hpass.trans hlapse⟩
      · rw [next_of_seen hpoll] at h
        obtain ⟨rfl, rfl, rfl⟩ := h
        exact .inl ⟨e, rfl, answers_wait_of_poll hpoll⟩

theorem finish_asked_of_due {n : Nat} (hdue : limit ≤ now ∨ ∃ e q, p.poll now = (some e, q))
    (h : finishShutdown grace (n + 1) now (.asked limit) p = (status, m, q)) :
    (∃ e, status = some e ∧ Answers .wait ⟨now, p⟩ (.status (some e)) ⟨m, q⟩) ∨
      finishShutdown grace n now (.killed (now + grace.nanos)) (p.kill now) = (status, m, q) := by
  rw [finishShutdown] at h
  rcases hpoll : p.poll now with ⟨_ | e, p'⟩
  · have hlate : limit ≤ now := hdue.resolve_right fun ⟨e, q, he⟩ => by cases hpoll.symm.trans he
    rw [next_asked_of_late (congrArg Prod.fst hpoll) hlate] at h
    exact .inr h
  · rw [next_of_seen hpoll] at h
    obtain ⟨rfl, rfl, rfl⟩ := h
    exact .inl ⟨e, rfl, answers_wait_of_poll hpoll⟩

theorem finish_asked {n : Nat} (h : finishShutdown grace (n + 2) now (.asked limit) p = (status, m, q)) :
    (∃ e, status = some e ∧ Answers .wait ⟨now, p⟩ (.status (some e)) ⟨m, q⟩) ∨
      ∃ k m', Lapse ⟨now, p⟩ ⟨m', p⟩ ∧
        finishShutdown grace k m' (.killed (m' + grace.nanos)) (p.kill m') = (status, m, q) := by
  by_cases hdue : limit ≤ now ∨ ∃ e q, p.poll now = (some e, q)
  · exact (finish_asked_of_due hdue h).imp_right fun hkilled => ⟨_, now, .refl _, hkilled⟩
  · obtain ⟨hearly, hunended⟩ := not_or.mp hdue
    rcases hpoll : p.poll now with ⟨_ | e, p'⟩
    · have halive := congrArg Prod.fst hpoll
      rw [finishShutdown, next_of_early (s := .asked limit) halive hearly] at h
      obtain ⟨hle, hwake⟩ := wake_due (s := .asked limit) halive (not_le.mp hearly)
      rcases finish_asked_of_due hwake h with ⟨e, hstatus, hwait⟩ | hkilled
      · exact .inl ⟨e, hstatus, hwait.wait_of_lapse (.pass hle p)⟩
      · exact .inr ⟨_, _, .pass hle p, hkilled⟩
    · exact absurd ⟨e, p', hpoll⟩ hunended

/-- A shutdown that is carried through is one of those that a dialogue knows. -/
theorem answers_shutdown (h : p.shutdown grace now = (status, m, q)) :
    Answers (.shutdown grace) ⟨now, p⟩ (.status status) ⟨m, q⟩ := by
  have hterm := Asks.at_once Signal.term now p
  rcases finish_asked h with ⟨e, rfl, hwait⟩ | ⟨k, m', hlapse, hkilled⟩
  · exact .heeded hterm hwait
  · have hkill := Asks.at_once Signal.kill m' (p.terminate now)
    rcases finish_killed hkilled with ⟨e, rfl, hwait⟩ | ⟨rfl, hlast⟩
    · exact .killed hterm hlapse hkill hwait
    · exact .leaked hterm hlapse hkill hlast

/-- The end of a process is judged once. Whenever it falls, and whatever is called before and after: the status that a
call has seen is what every later look and every later wait tells, and a wait tells it at once; an end that was once
found to be without a request is found so for ever, and one after a request that found the process alive never is; and a
process has failed when its end is without a request and no success. -/
theorem exit_is_judged_once {start stop : View} {log : List Turn} (h : Dialogue start log stop) :
    log.Pairwise Turn.Binds ∧
    (∀ t ∈ log, ∀ e, t.Observes e → stop.process.poll stop.now = (some e, stop.process) ∧
      stop.process.wait? stop.now = some (e, stop.now, stop.process)) ∧
    ∀ t ∈ log, t.call = .failed → (t.reply = .flag true ↔
      ∃ e, Answers .exitedUnexpectedly t.before (.status (some e)) t.after ∧ e.isSuccess = false) := by
  refine ⟨h.binds, fun t ht e hobs => ?_, fun t ht hcall => ?_⟩
  · have hseen := (h.settles t ht).observed e hobs
    exact ⟨poll_of_exit hseen, wait?_of_exit hseen⟩
  · exact Answers.failed_iff (hcall ▸ h.answers t ht)

def mortal : Subprocess := { label := "mortal", child := .ofProgram 0 { ends := some (⟨3⟩, .code 3) } }

/-- A process that ends by itself is seen alive before, and ends behind its owner's back. Neither the request to stop
that comes too late nor the shutdown after it changes what its end was. -/
theorem mortal_is_judged_once : ∃ log stop, Dialogue ⟨0, mortal⟩ log stop ∧
    log.map Turn.reply = [.flag true, .done, .status (some (.code 3)), .status (some (.code 3)), .flag true] ∧
    log.Pairwise Turn.Binds := by
  have halive : Dialogue ⟨0, mortal⟩ [_] _ := .turn .nil .isAlive
  have hlate := halive.lapse (Lapse.pass (by decide : 0 ≤ 5) mortal)
  have hterm := hlate.turn (answers_terminate 5 mortal)
  have htold := hterm.turn .exitedUnexpectedly
  have hgone := htold.turn (answers_shutdown (rfl : Subprocess.shutdown ⟨10⟩ 5 _ = _))
  have hfailed := hgone.turn .failed
  exact ⟨_, _, hfailed, rfl, (exit_is_judged_once hfailed).1⟩

end Pipeworks.Subprocess
