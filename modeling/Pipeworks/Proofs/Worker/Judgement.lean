import Pipeworks.Worker.Link
import Mathlib.Data.List.Basic
import Mathlib.Data.List.Induction

/-!
How work at the brokers is reasoned about. All calls at the brokers can be taken down with their answers, which changes
nothing else. The judgement `Does` is about some work from a session on, and the same work at brokers with a transcript:
both come to the same end, there is an account of what was done in between, and something is known of the account and of
the result or the error. It has one rule for each way in which work is put together. What is claimed of a worker is read
off the accounts.
-/

namespace Pipeworks

variable {σ κ α β : Type}

/-! ### Ends of work -/

namespace Work

def last (work : Work σ κ α) (s : Session σ κ) : Session σ κ :=
  match work s with
  | .ok _ s' => s'
  | .error _ s' => s'

def error? (work : Work σ κ α) (s : Session σ κ) : Option Error :=
  match work s with
  | .ok _ _ => none
  | .error e _ => some e

theorem eq_error {work : Work σ κ α} {s : Session σ κ} {e : Error} (h : work.error? s = some e) :
    work s = .error e (work.last s) := by
  rw [error?] at h
  rw [last]
  cases hrun : work s with
  | ok a s' =>
      rw [hrun] at h
      cases h
  | error e' s' =>
      rw [hrun] at h
      rw [Option.some.inj h]

theorem eq_ok {work : Work σ κ α} {s : Session σ κ} (h : work.error? s = none) : ∃ a, work s = .ok a (work.last s) := by
  rw [error?] at h
  rw [last]
  cases hrun : work s with
  | ok a s' => exact ⟨a, rfl⟩
  | error e s' =>
      rw [hrun] at h
      cases h

theorem bind_apply (work : Work σ κ α) (rest : α → Work σ κ β) (s : Session σ κ) :
    (work >>= rest) s =
      match work s with
      | .ok a s' => rest a s'
      | .error e s' => .error e s' := by
  change EStateM.bind work rest s = _
  rw [EStateM.bind]
  cases work s <;> rfl

theorem last_bind_of_ok {work : Work σ κ α} {rest : α → Work σ κ β} {s t : Session σ κ} {a : α} (h : work s = .ok a t) :
    (work >>= rest).last s = (rest a).last t := by
  rw [last, bind_apply, h]
  rfl

theorem error?_bind_of_ok {work : Work σ κ α} {rest : α → Work σ κ β} {s t : Session σ κ} {a : α}
    (h : work s = .ok a t) :
    (work >>= rest).error? s = (rest a).error? t := by
  rw [error?, bind_apply, h]
  rfl

theorem bind_of_error {work : Work σ κ α} {rest : α → Work σ κ β} {s t : Session σ κ} {e : Error}
    (h : work s = .error e t) : (work >>= rest) s = .error e t := by
  rw [bind_apply, h]

theorem forM_append (f : α → Work σ κ PUnit) (xs ys : List α) :
    (xs ++ ys).forM f = xs.forM f >>= fun _ => ys.forM f :=
  List.forM_append

theorem forM_concat (f : α → Work σ κ PUnit) (xs : List α) (x : α) :
    (xs ++ [x]).forM f = xs.forM f >>= fun _ => f x := by
  rw [forM_append]
  exact congrArg _ (funext fun _ => bind_pure_unit)

/-- Work that fails in one of its parts has failed in the first one that fails. -/
theorem forM_eq_error {f : α → Work σ κ PUnit} {xs : List α} {s s' : Session σ κ} {e : Error}
    (h : xs.forM f s = .error e s') :
    ∃ before x after s₁, xs = before ++ x :: after ∧ before.forM f s = .ok () s₁ ∧ f x s₁ = .error e s' := by
  induction xs generalizing s with
  | nil => cases h
  | cons x xs ih =>
      change (f x >>= fun _ => xs.forM f) s = _ at h
      rw [bind_apply] at h
      cases hfirst : f x s with
      | error e' s₁ =>
          rw [hfirst] at h
          obtain ⟨rfl, rfl⟩ := EStateM.Result.error.inj h
          exact ⟨[], x, xs, s, rfl, rfl, hfirst⟩
      | ok u s₁ =>
          rw [hfirst] at h
          obtain ⟨before, y, after, s₂, rfl, hbefore, hlast⟩ := ih h
          refine ⟨x :: before, y, after, s₂, rfl, ?_, hlast⟩
          change (f x >>= fun _ => before.forM f) s = _
          rw [bind_apply, hfirst]
          exact hbefore

end Work

/-! ### Brokers with a transcript -/

namespace Link

inductive Exchange (κ : Type) where
  | connect (broker : String) (answer : Except Error κ)
  | subscribe (client : κ) (topic group : String) (answer : Except Error Unit)
  | publish (client : κ) (topic : String) (record : Record) (answer : Except Error Unit)

abbrev Transcript (κ : Type) := List (Exchange κ)

namespace Exchange

def broker? : Exchange κ → Option String
  | connect broker _ => some broker
  | _ => none

def opened? : Exchange κ → Option (String × κ)
  | connect broker (.ok client) => some (broker, client)
  | _ => none

def Granted : Exchange κ → Prop
  | connect _ answer => answer.isOk
  | subscribe _ _ _ answer => answer.isOk
  | publish _ _ _ answer => answer.isOk

instance : DecidablePred (Granted (κ := κ))
  | connect _ answer => inferInstanceAs (Decidable (answer.isOk = true))
  | subscribe _ _ _ answer => inferInstanceAs (Decidable (answer.isOk = true))
  | publish _ _ _ answer => inferInstanceAs (Decidable (answer.isOk = true))

theorem map_opened?_eq_broker? {call : Exchange κ} (h : call.Granted) : call.opened?.map (·.1) = call.broker? := by
  cases call with
  | connect broker answer =>
      cases answer with
      | error e => cases h
      | ok client => rfl
  | subscribe => rfl
  | publish => rfl

end Exchange

def takeDown (exchange : Except Error α → Exchange κ) (op : σ → Except Error α × σ) (w : σ × Transcript κ) :
    Except Error α × σ × Transcript κ :=
  ((op w.1).1, (op w.1).2, w.2 ++ [exchange (op w.1).1])

/-- The same brokers, with a transcript of all calls. -/
def transcribed (link : Link σ κ) : Link (σ × Transcript κ) κ where
  connect broker := takeDown (.connect broker) (link.connect broker)
  subscribe client topic group := takeDown (.subscribe client topic group) (link.subscribe client topic group)
  publish client topic record := takeDown (.publish client topic record) (link.publish client topic record)

/-- The brokers give a call its answer, and remember `w'` after it. -/
def Answers (link : Link σ κ) (w w' : σ) : Exchange κ → Prop
  | .connect broker answer => link.connect broker w = (answer, w')
  | .subscribe client topic group answer => link.subscribe client topic group w = (answer, w')
  | .publish client topic record answer => link.publish client topic record w = (answer, w')

def Leads (link : Link σ κ) : Transcript κ → σ → σ → Prop
  | [], w, w' => w = w'
  | call :: calls, w, w'' => ∃ w', link.Answers w w' call ∧ link.Leads calls w' w''

variable {link : Link σ κ} {calls calls' : Transcript κ} {w w'' : σ}

theorem leads_append : link.Leads (calls ++ calls') w w'' ↔ ∃ w', link.Leads calls w w' ∧ link.Leads calls' w' w'' := by
  induction calls generalizing w with
  | nil => simp [Leads]
  | cons call calls ih =>
      simp only [List.cons_append, Leads, ih]
      constructor
      · rintro ⟨v, hcall, w', hcalls, hcalls'⟩
        exact ⟨w', ⟨v, hcall, hcalls⟩, hcalls'⟩
      · rintro ⟨w', ⟨v, hcall, hcalls⟩, hcalls'⟩
        exact ⟨v, hcall, w', hcalls, hcalls'⟩

theorem leads_singleton {call : Exchange κ} : link.Leads [call] w w'' ↔ link.Answers w w'' call := by
  simp [Leads]

end Link

open Link (Exchange Transcript)

def Session.withTranscript (t : Transcript κ) (s : Session σ κ) : Session (σ × Transcript κ) κ :=
  { world := (s.world, t), bridges := s.bridges, trace := s.trace }

def Work.withTranscript (t : Transcript κ) :
    EStateM.Result Error (Session σ κ) α → EStateM.Result Error (Session (σ × Transcript κ) κ) α
  | .ok a s => .ok a (s.withTranscript t)
  | .error e s => .error e (s.withTranscript t)

theorem Work.transcript_last {work : Work σ κ α} {recorded : Work (σ × Transcript κ) κ α} {s : Session σ κ}
    {s' : Session (σ × Transcript κ) κ} {t : Transcript κ} (h : recorded s' = Work.withTranscript t (work s)) :
    (recorded.last s').world.2 = t := by
  rw [Work.last, h]
  cases work s <;> rfl

/-! ### Accounts -/

/-- What was done in the course of some work: the calls at the brokers, what was entered in the trace, and the bridges
that were kept. -/
structure Account (κ : Type) where
  calls : Transcript κ := []
  actions : List (Action κ) := []
  bridges : List (String × κ) := []

namespace Account

instance : EmptyCollection (Account κ) := ⟨{}⟩

instance : Append (Account κ) := ⟨fun a b => ⟨a.calls ++ b.calls, a.actions ++ b.actions, a.bridges ++ b.bridges⟩⟩

theorem append_def (a b : Account κ) : a ++ b = ⟨a.calls ++ b.calls, a.actions ++ b.actions, a.bridges ++ b.bridges⟩ :=
  rfl

@[simp] theorem calls_append (a b : Account κ) : (a ++ b).calls = a.calls ++ b.calls := rfl

@[simp] theorem actions_append (a b : Account κ) : (a ++ b).actions = a.actions ++ b.actions := rfl

@[simp] theorem bridges_append (a b : Account κ) : (a ++ b).bridges = a.bridges ++ b.bridges := rfl

@[simp] theorem append_empty (a : Account κ) : a ++ ∅ = a := by
  rw [append_def]
  congr <;> exact List.append_nil _

end Account

structure Session.Goes (link : Link σ κ) (account : Account κ) (s t : Session σ κ) : Prop where
  world : link.Leads account.calls s.world t.world
  bridges : t.bridges = s.bridges ++ account.bridges
  trace : t.trace = s.trace ++ account.actions

namespace Session.Goes

variable {link : Link σ κ} {account account' : Account κ} {s t u : Session σ κ}

theorem refl (s : Session σ κ) : s.Goes link ∅ s := ⟨rfl, (List.append_nil _).symm, (List.append_nil _).symm⟩

theorem trans (h : s.Goes link account t) (h' : t.Goes link account' u) : s.Goes link (account ++ account') u where
  world := Link.leads_append.mpr ⟨t.world, h.world, h'.world⟩
  bridges := by rw [h'.bridges, h.bridges, List.append_assoc, Account.bridges_append]
  trace := by rw [h'.trace, h.trace, List.append_assoc, Account.actions_append]

end Session.Goes

/-! ### The judgement -/

namespace Work

/-- The work on a session comes to the same end over brokers with a transcript, and what was done is accounted for. When
the work ends well, `Q` holds of the result and the account, and otherwise `E` holds of the error and the account. -/
def Does (link : Link σ κ) (work : Work σ κ α) (recorded : Work (σ × Transcript κ) κ α) (s : Session σ κ)
    (Q : α → Account κ → Prop) (E : Error → Account κ → Prop) : Prop :=
  ∃ account : Account κ,
    (∀ t, recorded (s.withTranscript t) = Work.withTranscript (t ++ account.calls) (work s)) ∧
    s.Goes link account (work.last s) ∧
    (∀ a s', work s = .ok a s' → Q a account) ∧ ∀ e s', work s = .error e s' → E e account

namespace Does

variable {link : Link σ κ} {work : Work σ κ α} {recorded : Work (σ × Transcript κ) κ α} {s s' : Session σ κ}
  {Q Q' : α → Account κ → Prop} {R : β → Account κ → Prop} {E E' : Error → Account κ → Prop}

theorem of_ok (h : Does link work recorded s Q E) {a : α} (hrun : work s = .ok a s') :
    ∃ account, (∀ t, recorded (s.withTranscript t) = .ok a (s'.withTranscript (t ++ account.calls))) ∧
      s.Goes link account s' ∧ Q a account := by
  obtain ⟨account, hrecorded, hgoes, hok, -⟩ := h
  rw [last, hrun] at hgoes
  rw [hrun] at hrecorded
  exact ⟨account, hrecorded, hgoes, hok a s' hrun⟩

theorem of_error (h : Does link work recorded s Q E) {e : Error} (hrun : work s = .error e s') :
    ∃ account, (∀ t, recorded (s.withTranscript t) = .error e (s'.withTranscript (t ++ account.calls))) ∧
      s.Goes link account s' ∧ E e account := by
  obtain ⟨account, hrecorded, hgoes, -, herror⟩ := h
  rw [last, hrun] at hgoes
  rw [hrun] at hrecorded
  exact ⟨account, hrecorded, hgoes, herror e s' hrun⟩

theorem mono (h : Does link work recorded s Q E) (hQ : ∀ a account, Q a account → Q' a account)
    (hE : ∀ e account, E e account → E' e account) : Does link work recorded s Q' E' := by
  obtain ⟨account, hrecorded, hgoes, hok, herror⟩ := h
  exact ⟨account, hrecorded, hgoes, fun a s' hrun => hQ a account (hok a s' hrun),
    fun e s' hrun => hE e account (herror e s' hrun)⟩

theorem pure {a : α} (ha : Q a ∅) : Does link (pure a) (pure a) s Q E := by
  refine ⟨∅, fun t => ?_, .refl s, fun b s' hrun => ?_, fun e s' hrun => ?_⟩
  · exact congrArg (fun t => EStateM.Result.ok a (s.withTranscript t)) (List.append_nil t).symm
  · obtain ⟨rfl, -⟩ := EStateM.Result.ok.inj hrun
    exact ha
  · cases hrun

theorem throw {e : Error} (he : E e ∅) : Does link (throw e) (throw e) s Q E := by
  refine ⟨∅, fun t => ?_, .refl s, fun a s' hrun => ?_, fun e' s' hrun => ?_⟩
  · exact congrArg (fun t => EStateM.Result.error e (s.withTranscript t)) (List.append_nil t).symm
  · cases hrun
  · obtain ⟨rfl, -⟩ := EStateM.Result.error.inj hrun
    exact he

/-- The error that is told is the one in which the work ends. -/
theorem with_error? (h : Does link work recorded s Q E) :
    Does link work recorded s (fun a account => work.error? s = none ∧ Q a account)
      fun e account => work.error? s = some e ∧ E e account := by
  obtain ⟨account, hrecorded, hgoes, hok, herror⟩ := h
  refine ⟨account, hrecorded, hgoes, fun a s' hrun => ⟨?_, hok a s' hrun⟩, fun e s' hrun => ⟨?_, herror e s' hrun⟩⟩
  · rw [error?, hrun]
  · rw [error?, hrun]

/-- What holds of the account at either end. -/
theorem of_last {P : Account κ → Prop} (h : Does link work recorded s (fun _ => P) fun _ => P) :
    ∃ account, (∀ t, recorded (s.withTranscript t) = Work.withTranscript (t ++ account.calls) (work s)) ∧
      s.Goes link account (work.last s) ∧ P account := by
  obtain ⟨account, hrecorded, hgoes, hok, herror⟩ := h
  refine ⟨account, hrecorded, hgoes, ?_⟩
  cases hrun : work s with
  | ok a s' => exact hok a s' hrun
  | error e s' => exact herror e s' hrun

/-- The second part starts from whatever the first part may leave. -/
theorem bind {rest : α → Work σ κ β} {rest' : α → Work (σ × Transcript κ) κ β} (h : Does link work recorded s Q E)
    (hrest : ∀ a account t, work s = .ok a t → s.Goes link account t → Q a account →
      Does link (rest a) (rest' a) t (fun b more => R b (account ++ more)) fun e more => E e (account ++ more)) :
    Does link (work >>= rest) (recorded >>= rest') s R E := by
  obtain ⟨account, hrecorded, hgoes, hok, herror⟩ := h
  rw [last] at hgoes
  rw [Does, last]
  simp only [bind_apply, hrecorded]
  cases hfirst : work s with
  | error e t =>
      rw [hfirst] at hgoes
      refine ⟨account, fun _ => rfl, hgoes, fun b s' hrun => ?_, fun e' s' hrun => ?_⟩
      · cases hrun
      · obtain ⟨rfl, -⟩ := EStateM.Result.error.inj hrun
        exact herror e t hfirst
  | ok a t =>
      rw [hfirst] at hgoes
      obtain ⟨more, hrecorded', hgoes', hok', herror'⟩ := hrest a account t hfirst hgoes (hok a t hfirst)
      refine ⟨account ++ more, fun u => ?_, hgoes.trans hgoes', hok', herror'⟩
      rw [Account.calls_append, ← List.append_assoc]
      exact hrecorded' (u ++ account.calls)

theorem congr {work' : Work σ κ α} {recorded' : Work (σ × Transcript κ) κ α} (h : Does link work recorded s Q E)
    (hwork : work' s = work s) (hrecorded : ∀ t, recorded' (s.withTranscript t) = recorded (s.withTranscript t)) :
    Does link work' recorded' s Q E := by
  rw [Does, last, hwork]
  simp only [hrecorded]
  exact h

theorem change {f : Session σ κ → Session σ κ} {f' : Session (σ × Transcript κ) κ → Session (σ × Transcript κ) κ}
    {Q : PUnit → Account κ → Prop} (account : Account κ) (hf : ∀ t, f' (s.withTranscript t) = (f s).withTranscript t)
    (hcalls : account.calls = []) (hgoes : s.Goes link account (f s)) (hQ : Q ⟨⟩ account) :
    Does link (modify f) (modify f') s Q E := by
  refine ⟨account, fun t => ?_, hgoes, fun _ _ _ => hQ, fun e s' hrun => ?_⟩
  · rw [hcalls, List.append_nil]
    exact congrArg (EStateM.Result.ok PUnit.unit) (hf t)
  · cases hrun

theorem note {a : Action κ} {Q : Unit → Account κ → Prop} (hQ : Q () { actions := [a] }) :
    Does link (Work.note a) (Work.note a) s Q E :=
  change { actions := [a] } (fun _ => rfl) rfl ⟨rfl, (List.append_nil _).symm, rfl⟩ hQ

theorem keep {entry : String × κ} {Q : PUnit → Account κ → Prop} (hQ : Q ⟨⟩ { bridges := [entry] }) :
    Does link (modify fun s : Session σ κ => { s with bridges := s.bridges ++ [entry] })
      (modify fun s : Session (σ × Transcript κ) κ => { s with bridges := s.bridges ++ [entry] }) s Q E :=
  change { bridges := [entry] } (fun _ => rfl) rfl ⟨rfl, rfl, (List.append_nil _).symm⟩ hQ

/-- A call is taken down with its answer, and only if it is refused there is an error. -/
theorem ask {exchange : Except Error α → Exchange κ} {op : σ → Except Error α × σ} {explain : Error → Error}
    (hop : ∀ answer w, op s.world = (answer, w) → link.Answers s.world w (exchange answer))
    (hQ : ∀ a, Q a { calls := [exchange (.ok a)] }) (hE : ∀ e, E (explain e) { calls := [exchange (.error e)] }) :
    Does link (Work.ask op explain) (Work.ask (Link.takeDown exchange op) explain) s Q E := by
  rcases hresult : op s.world with ⟨answer, w⟩
  have hgoes : s.Goes link { calls := [exchange answer] } { s with world := w } :=
    ⟨Link.leads_singleton.mpr (hop answer w hresult), (List.append_nil _).symm, (List.append_nil _).symm⟩
  have htaken (t : Transcript κ) :
      Link.takeDown exchange op (s.withTranscript t).world = (answer, w, t ++ [exchange answer]) := by
    rw [Link.takeDown]
    exact hresult ▸ rfl
  refine ⟨{ calls := [exchange answer] }, fun t => ?_, ?_, fun a s' hrun => ?_, fun e s' hrun => ?_⟩
  · rw [Work.ask, Work.ask, htaken, hresult]
    cases answer <;> rfl
  · rw [last, Work.ask, hresult]
    cases answer <;> exact hgoes
  · rw [Work.ask, hresult] at hrun
    cases answer with
    | error e => cases hrun
    | ok b =>
        obtain ⟨rfl, -⟩ := EStateM.Result.ok.inj hrun
        exact hQ b
  · rw [Work.ask, hresult] at hrun
    cases answer with
    | ok b => cases hrun
    | error e' =>
        obtain ⟨rfl, -⟩ := EStateM.Result.error.inj hrun
        exact hE e'

theorem connect {broker : String} {explain : Error → Error} {Q : κ → Account κ → Prop}
    (hQ : ∀ client, Q client { calls := [.connect broker (.ok client)], actions := [.connected broker] })
    (hE : ∀ e, E (explain e) { calls := [.connect broker (.error e)], actions := [.connected broker] }) :
    Does link (Work.connect link broker explain) (Work.connect link.transcribed broker explain) s Q E :=
  (note (Q := fun _ account => account = { actions := [.connected broker] }) rfl).bind fun _ _ _ _ _ haccount =>
    haccount ▸ ask (fun _ _ h => h) hQ hE

/-- A loop with an invariant of what is done and of the account so far. An error comes from the first item that fails. -/
theorem forM (link : Link σ κ) {f : α → Work σ κ PUnit} {g : α → Work (σ × Transcript κ) κ PUnit}
    {I : List α → Account κ → Prop} {F : List α → α → Error → Account κ → Prop} (xs : List α) (hnil : I [] ∅)
    (hstep : ∀ done x rest, xs = done ++ x :: rest → ∀ account t, s.Goes link account t → I done account →
      Does link (f x) (g x) t (fun _ more => I (done ++ [x]) (account ++ more))
        fun e more => F done x e (account ++ more)) :
    Does link (xs.forM f) (xs.forM g) s (fun _ account => I xs account) fun e account =>
      ∃ done x rest t, xs = done ++ x :: rest ∧ done.forM f s = .ok ⟨⟩ t ∧ (f x).error? t = some e ∧
        F done x e account := by
  induction xs using List.reverseRecOn with
  | nil => exact pure hnil
  | append_singleton xs x ih =>
      have hearlier := ih fun done y rest hsplit =>
        hstep done y (rest ++ [x]) (by rw [hsplit, List.append_assoc, List.cons_append])
      rw [forM_concat, forM_concat]
      refine (hearlier.mono (fun _ _ h => h) fun e account hfailed => ?_).bind fun _ account t hrun hgoes hI => ?_
      · obtain ⟨done, y, rest, t, rfl, hdone, hlast, hF⟩ := hfailed
        exact ⟨done, y, rest ++ [x], t, by rw [List.append_assoc, List.cons_append], hdone, hlast, hF⟩
      · refine (hstep xs x [] rfl account t hgoes hI).with_error?.mono (fun _ _ h => h.2) fun e more hfailed => ?_
        exact ⟨xs, x, [], t, rfl, hrun, hfailed.1, hfailed.2⟩

end Does

end Work

end Pipeworks
