import Pipeworks.Proofs.Supervisor.StartStories
import Pipeworks.Proofs.Run.Notice
import Mathlib.Data.List.Induction

/-!
Notices that runs have ended, in every interleaving of calls, monitors and events. A stop aborts the run and gives
notice in one step. An abort aborts the run by its first step and gives notice by its last one; in between it owes the
notice, and the record may be forgotten. An event gives notice as it completes the run. The account of a history puts
down every notice that was given, with the record on account of which it was given.
-/

namespace Pipeworks

def Bus.log (b : Bus) : List Event := b.broadcast.sent.toList

namespace Thread

def owes? : Thread → Option PipelineId
  | calling (.abort id (.marked true)) => some id
  | calling (.abort id (.ending true _ _)) => some id
  | doubting id true => some id
  | concluding id true => some id
  | _ => none

def forgets : Thread → Bool
  | launching _ .forgetting => true
  | _ => false

variable {env : Surroundings} {s s' : Supervisor} {t t' : Thread} {b b' : Bus} {id : PipelineId}

inductive Tells (b : Bus) : Thread → Thread → Bus → Prop where
  /-- No record is forgotten, no notice is given, and nobody owes another one. -/
  | keeps {t t' : Thread} {b' : Bus} : t.forgets = false → b.registry.KeepsEnded b'.registry →
      b'.broadcast = b.broadcast → t'.owes? = none ∨ t'.owes? = t.owes? → Tells b t t' b'
  | forgets {l : Launch} :
      Tells b (launching l .forgetting) (launching l .recording) { b with registry := b.registry.reset l.id }
  | marks {id : PipelineId} {b' : Bus} : b.registry.Ends b'.registry id .aborted → b'.broadcast = b.broadcast →
      Tells b (calling (.abort id .asked)) (calling (.abort id (.marked true))) b'
  | stops {id : PipelineId} {stage : StopStage} {a : Answer} {b' : Bus} : b.registry.Ends b'.registry id .aborted →
      b'.broadcast = b.broadcast.send (Event.announcement id Event.stopped "Pipeline stopped") →
      Tells b (calling (.stop id stage)) (answered a) b'
  | concludes {t : Thread} {id : PipelineId} {a : Answer} : t.owes? = some id →
      Tells b t (answered a) (b.publish (Event.announcement id Event.aborted "Pipeline aborted"))

namespace Tells

theorem of_bus (hbus : b' = b) (ht : t.forgets = false) (howes : t'.owes? = none ∨ t'.owes? = t.owes?) :
    Tells b t t' b' := hbus ▸ .keeps ht (.refl _) rfl howes

theorem of_turns {r : Registry} {ts : List Transition} (hturns : b.registry.Turns id ts r)
    (ht : t.forgets = false) (howes : t'.owes? = none ∨ t'.owes? = t.owes?) :
    Tells b t t' { b with registry := r } := .keeps ht hturns.keepsEnded rfl howes

theorem log (h : Tells b t t' b') : ∃ es, b'.log = b.log ++ es := by
  cases h with
  | keeps _ _ hsame _ => exact ⟨[], by rw [Bus.log, hsame, List.append_nil]; rfl⟩
  | forgets => exact ⟨[], (List.append_nil _).symm⟩
  | marks _ hsame => exact ⟨[], by rw [Bus.log, hsame, List.append_nil]; rfl⟩
  | stops _ hsent => exact ⟨_, by rw [Bus.log, hsent]; exact Array.toList_push⟩
  | concludes => exact ⟨_, Array.toList_push⟩

end Tells

/-! ### Calls other than starts -/

theorem tells_concludeStop (s : Supervisor) (id : PipelineId) (stage : StopStage) :
    Tells s.bus (calling (.stop id stage)) (answered (s.concludeStop id).1) (s.concludeStop id).2.bus := by
  rw [Supervisor.concludeStop]
  dsimp only
  split_ifs with hmoved
  · exact .stops (Registry.ends_abort hmoved) rfl
  · exact .of_turns (.call (.abort "Pipeline stopped") s.registry id) rfl (.inl rfl)

theorem tells_concludeAbort (s : Supervisor) {moved : Bool} (ht : t.forgets = false)
    (howes : moved = true → t.owes? = some id) :
    Tells s.bus t (answered (s.concludeAbort id moved).1) (s.concludeAbort id moved).2.bus := by
  cases moved with
  | false => exact .of_bus rfl ht (.inl rfl)
  | true => exact .concludes (howes rfl)

theorem tells_stepStop (id : PipelineId) (stage : StopStage) :
    Meets (s.stepStop id stage) fun (t', s') => Tells s.bus (calling (.stop id stage)) t' s'.bus := by
  cases stage with
  | asked =>
      rw [Supervisor.stepStop]
      split_ifs
      · trivial
      · cases s.generation? id with
        | none => exact .of_bus rfl rfl (.inl rfl)
        | some g => exact .of_bus rfl rfl (.inl rfl)
  | ending g u =>
      rw [Supervisor.stepStop]
      cases hstep : s.stepTakedown g u with
      | none => trivial
      | some taken =>
          obtain ⟨_ | u', s'⟩ := taken
          · exact Supervisor.bus_stepTakedown hstep ▸ tells_concludeStop s' id _
          · exact .of_bus (Supervisor.bus_stepTakedown hstep) rfl (.inl rfl)

theorem tells_stepAbort (id : PipelineId) (stage : AbortStage) :
    Meets (s.stepAbort id stage) fun (t', s') => Tells s.bus (calling (.abort id stage)) t' s'.bus := by
  cases stage with
  | asked =>
      change Tells s.bus _ (calling (.abort id (.marked (s.registry.abort id).1))) _
      cases hmoved : (s.registry.abort id).1 with
      | true => exact .marks (Registry.ends_abort hmoved) rfl
      | false => exact .of_turns (.call (.abort "Pipeline aborted") s.registry id) rfl (.inl rfl)
  | marked moved =>
      have howes : moved = true → (calling (.abort id (.marked moved))).owes? = some id := by
        rintro rfl
        rfl
      rw [Supervisor.stepAbort]
      split_ifs
      · trivial
      · cases s.generation? id with
        | some g => exact .of_bus rfl rfl (.inr (by cases moved <;> rfl))
        | none =>
            dsimp only
            split
            · exact .of_bus rfl rfl (.inl rfl)
            · exact tells_concludeAbort s rfl howes
  | ending moved g u =>
      have howes : moved = true → (calling (.abort id (.ending moved g u))).owes? = some id := by
        rintro rfl
        rfl
      rw [Supervisor.stepAbort]
      cases hstep : s.stepTakedown g u with
      | none => trivial
      | some taken =>
          obtain ⟨_ | u', s'⟩ := taken
          · exact Supervisor.bus_stepTakedown hstep ▸ tells_concludeAbort s' rfl howes
          · exact .of_bus (Supervisor.bus_stepTakedown hstep) rfl (.inr (by cases moved <;> rfl))

theorem tells_stepShutdownAll (stage : ShutdownStage) :
    Meets (s.stepShutdownAll stage) fun (t', s') => Tells s.bus (calling (.shutdownAll stage)) t' s'.bus := by
  cases stage with
  | asked =>
      rw [Supervisor.stepShutdownAll]
      split_ifs
      · trivial
      · cases s.active with
        | nil => exact .of_bus rfl rfl (.inl rfl)
        | cons run rest => exact .of_bus rfl rfl (.inl rfl)
  | ending runs u =>
      cases runs with
      | nil => exact .of_bus rfl rfl (.inl rfl)
      | cons run rest =>
          obtain ⟨id, g⟩ := run
          rw [Supervisor.stepShutdownAll]
          cases hstep : s.stepTakedown g u with
          | none => trivial
          | some taken =>
              obtain ⟨_ | u', s'⟩ := taken
              · have hturns := Registry.Turns.call (.abort "Supervisor shut down") s'.registry id
                have hbus := Supervisor.bus_stepTakedown hstep
                cases rest with
                | nil => exact hbus ▸ .of_turns hturns rfl (.inl rfl)
                | cons run rest => exact hbus ▸ .of_turns hturns rfl (.inl rfl)
              · exact .of_bus (Supervisor.bus_stepTakedown hstep) rfl (.inl rfl)

theorem tells_step (env : Surroundings) {c : Call} (hc : c.isStart = false) :
    Meets (s.step env c) fun (t', s') => Tells s.bus (calling c) t' s'.bus := by
  cases c with
  | start id o stage => cases hc
  | stop id stage => exact tells_stepStop id stage
  | abort id stage => exact tells_stepAbort id stage
  | status id run =>
      cases run with
      | none => exact .of_bus rfl rfl (.inl rfl)
      | some run =>
          rw [Supervisor.step, Supervisor.stepStatus]
          split_ifs
          · trivial
          · obtain ⟨ps, hps⟩ := s.exists_report id run
            have hbus : (s.report id run).2.bus = s.bus := by rw [hps]
            exact .of_bus hbus rfl (.inl rfl)
  | shutdownAll stage => exact tells_stepShutdownAll stage

/-! ### All threads -/

theorem bus_anyAlive (s : Supervisor) (g : Nat) : (s.anyAlive g).2.bus = s.bus := by
  obtain ⟨ps, hps, -⟩ := Threads.exists_anyAlive s g
  rw [hps]

/-- A step of a thread means one of these things. -/
theorem Does.tells (h : Does env s t t' s') : Tells s.bus t t' s'.bus := by
  cases h with
  | @later c _ _ hc hstep =>
      have htells := tells_step (s := s) env hc
      rwa [hstep] at htells
  | @answers c _ _ hc hstep =>
      have htells := tells_step (s := s) env hc
      rwa [hstep] at htells
  | @doubts id moved _ _ => exact .of_bus rfl rfl (.inr (by cases moved <;> rfl))
  | @joined id moved _ _ _ hstep => exact .of_bus (Supervisor.bus_stepTakedown hstep) rfl (.inr (by cases moved <;> rfl))
  | unknown => exact .of_bus rfl rfl (.inl rfl)
  | @known id moved => exact .of_bus rfl rfl (.inr (by cases moved <;> rfl))
  | @concludes id moved =>
      refine tells_concludeAbort s rfl ?_
      rintro rfl
      rfl
  | forgets => exact .forgets
  | @records l => exact .keeps rfl (Registry.keepsEnded_init _ _ _) rfl (.inl rfl)
  | fails => exact .of_turns (.call (.fail _) s.registry _) rfl (.inl rfl)
  | alive => exact .of_bus (bus_anyAlive s _) rfl (.inl rfl)
  | dead => exact .of_bus (bus_anyAlive s _) rfl (.inl rfl)
  | spawns hspawn => exact .of_bus (bus_of_spawn hspawn) rfl (.inl rfl)
  | breaks hspawn => exact .of_bus (bus_of_spawn hspawn) rfl (.inl rfl)
  | unwinds hnext =>
      obtain ⟨ps, rfl⟩ := Supervisor.eq_of_next_later hnext
      exact .of_bus rfl rfl (.inl rfl)
  | _ => exact .of_bus rfl rfl (.inl rfl)

/-- The notice that a thread owes, if it has aborted the run when its record had been forgotten so many times. -/
def due (t : Thread) (turn : Nat) : List Notice :=
  (t.owes?.map fun id => ⟨id, turn, Event.announcement id Event.aborted "Pipeline aborted"⟩).toList

theorem due_of_none (h : t.owes? = none) (turn : Nat) : t.due turn = [] := by rw [due, h]; rfl

theorem due_of_some (h : t.owes? = some id) (turn : Nat) :
    t.due turn = [⟨id, turn, Event.announcement id Event.aborted "Pipeline aborted"⟩] := by rw [due, h]; rfl

end Thread

namespace Supervisor

variable {s s' : Supervisor} {g : Nat} {x : Generation} {m : Monitor}

theorem bus_reportCompletion (s : Supervisor) (x : Generation) : ∃ es : List Event,
    (∀ e ∈ es, e.run = x.pipeline ∧ e.kind ≠ Event.completed) ∧
      (s.reportCompletion x).bus = s.bus.acts (es.map .ingest) := by
  rw [reportCompletion]
  generalize x.members.filter (fun m => !m.isProducer) = ms
  induction ms generalizing s with
  | nil => exact ⟨[], List.forall_mem_nil _, rfl⟩
  | cons m ms ih =>
      obtain ⟨es, hes, hbus⟩ := ih (s.ingest (Monitor.completionEvent x.pipeline m.segment)).2
      refine ⟨Monitor.completionEvent x.pipeline m.segment :: es, List.forall_mem_cons.mpr ⟨⟨rfl, ?_⟩, hes⟩, hbus⟩
      exact of_decide_eq_false rfl

theorem Tick.bus (h : Tick s g x s' m) : s.registry.KeepsEnded s'.registry ∧ s'.bus.broadcast = s.bus.broadcast ∨
    ∃ es : List Event, (∀ e ∈ es, e.run = x.pipeline ∧ e.kind ≠ Event.completed) ∧
      s'.bus = s.bus.acts (es.map .ingest) := by
  cases h with
  | finds => exact .inl ⟨(Registry.Turns.call (.fail _) s.registry x.pipeline).keepsEnded, rfl⟩
  | stops _ hnext =>
      obtain ⟨ps, rfl⟩ := eq_of_next_later hnext
      exact .inl ⟨.refl _, rfl⟩
  | @fails segment message _ _ _ =>
      refine .inr ⟨[Monitor.crashEvent x.pipeline segment message], List.forall_mem_singleton.mpr ⟨rfl, ?_⟩, rfl⟩
      exact of_decide_eq_false rfl
  | completes => exact .inr (bus_reportCompletion _ x)
  | _ => exact .inl ⟨.refl _, rfl⟩

end Supervisor

namespace Threads

variable {config : Config} {x x' : Threads} {m : Move} {k : Nat} {t t' : Thread} {ts : List Thread} {τ : List Deed}
  {b b' : Bus} {es : List Event}

/-! ### Accounts -/

def Deed.published (d : Deed) : List Event := d.after.supervisor.bus.log.drop d.before.supervisor.bus.log.length

theorem Deed.published_eq {d : Deed} (h : d.after.supervisor.bus.log = d.before.supervisor.bus.log ++ es) :
    d.published = es := by rw [published, h, List.drop_left]

structure Account where
  /-- How many times the record of each pipeline has been forgotten. -/
  turn : PipelineId → Nat := fun _ => 0
  /-- How many times the record of its pipeline had been forgotten when a thread that aborts looked for it. -/
  found : Nat → Nat := fun _ => 0
  notices : List Notice := []

namespace Account

def note (a : Account) (id : PipelineId) (turn : Nat) (es : List Event) : Account :=
  { a with notices := a.notices ++ es.map (⟨id, turn, ·⟩) }

/-- After a step of a thread that sent some events. All that a stop or an abort sends is put down: for a stop, on
account of the record of that moment; for an abort, on account of the one that it found at first. -/
def afterStep (a : Account) (k : Nat) (es : List Event) : Thread → Account
  | .launching l .forgetting => { a with turn := Function.update a.turn l.id (a.turn l.id + 1) }
  | .calling (.stop id _) => a.note id (a.turn id) es
  | .calling (.abort id .asked) => { a with found := Function.update a.found k (a.turn id) }
  | .calling (.abort id _) => a.note id (a.found k) es
  | .doubting id _ => a.note id (a.found k) es
  | .concluding id _ => a.note id (a.found k) es
  | _ => a

/-- After something that happened. Of what follows an event that came in, and of what a monitor sends, those events are
put down by which runs are announced as complete. -/
def after (a : Account) (d : Deed) : Account :=
  match d.move with
  | .proceed k _ => (d.before.threads[k]?).elim a (a.afterStep k d.published)
  | .watch g _ => (d.before.supervisor.generations[g]?).elim a fun y =>
      a.note y.pipeline (a.turn y.pipeline) (d.published.filter (·.kind = Event.completed))
  | .ingest e => a.note e.run (a.turn e.run) d.published.tail
  | _ => a

theorem note_nil (a : Account) (id : PipelineId) (turn : Nat) : a.note id turn [] = a := by
  rw [note, List.map_nil, List.append_nil]

theorem afterStep_nil (a : Account) (k : Nat) (ht : t.forgets = false) :
    ∃ found, a.afterStep k [] t = { a with found } ∧ (∀ j, j ≠ k → found j = a.found j) ∧
      (t.owes? = none ∨ found k = a.found k) := by
  unfold afterStep
  split
  · cases ht
  · exact ⟨a.found, note_nil _ _ _, fun _ _ => rfl, .inr rfl⟩
  · exact ⟨_, rfl, fun j hj => Function.update_of_ne hj _ _, .inl rfl⟩
  all_goals exact ⟨a.found, by simp only [note_nil], fun _ _ => rfl, .inr rfl⟩

theorem afterStep_of_owes {id : PipelineId} (a : Account) (k : Nat) (es : List Event) (ht : t.owes? = some id) :
    a.afterStep k es t = a.note id (a.found k) es := by
  unfold Thread.owes? at ht
  split at ht <;> cases ht <;> rfl

end Account

def account (τ : List Deed) : Account := τ.foldl Account.after {}

theorem account_append (τ : List Deed) (d : Deed) : account (τ ++ [d]) = (account τ).after d := by
  rw [account, List.foldl_append]
  rfl

/-! ### Notices that are due -/

def dues (ts : List Thread) (found : Nat → Nat) : List Notice :=
  (List.range ts.length).flatMap fun k => (ts[k]?).elim [] (·.due (found k))

theorem dues_append (ts : List Thread) (ht : t.owes? = none) (found : Nat → Nat) :
    dues (ts ++ [t]) found = dues ts found := by
  rw [dues, dues, List.length_append, List.length_singleton, List.range_succ, List.flatMap_append,
    List.flatMap_singleton, List.getElem?_concat_length, Option.elim_some, Thread.due_of_none ht, List.append_nil]
  refine List.flatMap_congr fun k hk => ?_
  rw [List.getElem?_append_left (List.mem_range.mp hk)]

/-- What is due from one thread, and what is due from the others. -/
theorem exists_dues {found found' : Nat → Nat} (ht : ts[k]? = some t) (t' : Thread)
    (hfound : ∀ j, j ≠ k → found' j = found j) :
    ∃ others, (dues ts found).Perm (t.due (found k) ++ others) ∧
      (dues (ts.set k t') found').Perm (t'.due (found' k) ++ others) := by
  obtain ⟨hk, hget⟩ := List.getElem?_eq_some_iff.mp ht
  have hplaces := List.perm_cons_erase (List.mem_range.mpr hk)
  have hsame : ∀ j ∈ (List.range ts.length).erase k,
      ((ts.set k t')[j]?).elim [] (·.due (found' j)) = (ts[j]?).elim [] (·.due (found j)) := by
    intro j hj
    have hne : j ≠ k := fun heq => List.Nodup.not_mem_erase List.nodup_range (heq ▸ hj)
    rw [List.getElem?_set_ne hne.symm, hfound j hne]
  refine ⟨((List.range ts.length).erase k).flatMap fun j => (ts[j]?).elim [] (·.due (found j)), ?_, ?_⟩
  · refine (hplaces.flatMap_right _).trans (List.Perm.of_eq ?_)
    rw [List.flatMap_cons, ht, Option.elim_some]
  · rw [dues, List.length_set]
    refine (hplaces.flatMap_right _).trans (List.Perm.of_eq ?_)
    rw [List.flatMap_cons, List.getElem?_set_self hk, Option.elim_some, List.flatMap_congr hsame]

/-! ### What the account says -/

def Account.Holds (a : Account) (b : Bus) (ts : List Thread) : Prop :=
  b.registry.BearsOut a.turn (a.notices ++ dues ts a.found)

namespace Account.Holds

variable {a : Account} {id : PipelineId}

/-- A thread ends a run and gives notice, or comes to owe it, or gives the notice that it owes. -/
theorem afterStep (h : a.Holds b ts) (ht : ts[k]? = some t) (htells : Thread.Tells b t t' b')
    (hlog : b'.log = b.log ++ es) : (a.afterStep k es t).Holds b' (ts.set k t') := by
  have hnothing (hsame : b'.broadcast = b.broadcast) : es = [] := by
    rw [Bus.log, hsame] at hlog
    exact List.append_right_eq_self.mp hlog.symm
  -- a notice is added for a run that ends, and one that is due is moved to those that were given
  cases htells with
  | keeps hnot hkept hsame howes =>
      obtain rfl := hnothing hsame
      obtain ⟨found, hafter, hothers, hfound⟩ := a.afterStep_nil k hnot
      obtain ⟨others, hbefore, hnow⟩ := exists_dues ht t' hothers
      rw [hafter]
      have hdue : (t'.due (found k)).Sublist (t.due (a.found k)) := by
        rcases howes with hnone | hsame
        · rw [Thread.due_of_none hnone]
          exact List.nil_sublist _
        · rcases hfound with hnone | hfound
          · rw [Thread.due_of_none (hsame.trans hnone)]
            exact List.nil_sublist _
          · rw [Thread.due, Thread.due, hsame, hfound]
      have hfewer : (dues (ts.set k t') found).Subperm (dues ts a.found) :=
        (hnow.subperm.trans (hdue.append_right others).subperm).trans hbefore.symm.subperm
      exact (h.keep hkept).subperm ((List.Subperm.refl _).append hfewer)
  | @forgets l =>
      obtain ⟨others, hbefore, hnow⟩ := exists_dues ht (.launching l .recording) fun _ _ => rfl
      have hsame : (dues (ts.set k (.launching l .recording)) a.found).Perm (dues ts a.found) := hnow.trans hbefore.symm
      exact (h.reset l.id).subperm (hsame.append_left _).subperm
  | @marks id _ hends hsame =>
      obtain ⟨others, hbefore, hnow⟩ := exists_dues ht (.calling (.abort id (.marked true)))
        fun j (hj : j ≠ k) => Function.update_of_ne hj (a.turn id) a.found
      let n : Notice := ⟨id, a.turn id, Event.announcement id Event.aborted "Pipeline aborted"⟩
      have hdues : (dues (ts.set k (.calling (.abort id (.marked true)))) (Function.update a.found k (a.turn id))).Perm
          (n :: dues ts a.found) := by
        rw [Function.update_self] at hnow
        exact hnow.trans (hbefore.symm.cons n)
      have hended := h.end_run (n := n) hends rfl (.inr (.inl rfl))
      exact hended.subperm ((hdues.append_left _).trans List.perm_middle).subperm
  | @stops id stage answer _ hends hsent =>
      let n : Notice := ⟨id, a.turn id, Event.announcement id Event.stopped "Pipeline stopped"⟩
      obtain rfl : es = [n.event] := by
        rw [Bus.log, hsent] at hlog
        exact List.append_cancel_left (hlog.symm.trans Array.toList_push)
      obtain ⟨others, hbefore, hnow⟩ := exists_dues ht (.answered answer) fun _ _ => rfl
      have hsame : (dues (ts.set k (.answered answer)) a.found).Perm (dues ts a.found) := hnow.trans hbefore.symm
      have hended := h.end_run (n := n) hends rfl (.inl rfl)
      rw [Account.afterStep, Holds, note, List.map_singleton, List.append_assoc]
      exact hended.subperm (((hsame.cons n).append_left _).trans List.perm_middle).subperm
  | @concludes _ id answer howes =>
      let n : Notice := ⟨id, a.found k, Event.announcement id Event.aborted "Pipeline aborted"⟩
      obtain rfl : es = [n.event] := List.append_cancel_left (hlog.symm.trans Array.toList_push)
      obtain ⟨others, hbefore, hnow⟩ := exists_dues ht (.answered answer) fun _ _ => rfl
      rw [Thread.due_of_some howes] at hbefore
      rw [afterStep_of_owes a k _ howes, Holds, note, List.map_singleton, List.append_assoc]
      have hsame : (n :: dues (ts.set k (.answered answer)) a.found).Perm (dues ts a.found) :=
        (hnow.cons n).trans hbefore.symm
      exact h.subperm (hsame.append_left _).subperm

theorem note (h : b'.registry.BearsOut a.turn (es.map (⟨id, a.turn id, ·⟩) ++ (a.notices ++ dues ts a.found))) :
    (a.note id (a.turn id) es).Holds b' ts := by
  refine h.subperm (List.Perm.subperm ?_)
  rw [← List.append_assoc]
  exact List.perm_append_comm.append_right _

end Account.Holds

theorem owes?_of_isNew {c : Call} (hc : c.isNew = true) : (Thread.calling c).owes? = none := by
  cases c with
  | abort id stage =>
      cases stage with
      | asked => rfl
      | _ => cases hc
  | _ => rfl

/-- The log only grows, and the account goes on to hold. -/
theorem holds_play (hplay : x.play m = some x') :
    (∃ es, x'.supervisor.bus.log = x.supervisor.bus.log ++ es) ∧
      ∀ a : Account, a.Holds x.supervisor.bus x.threads →
        (a.after ⟨x, m, x'⟩).Holds x'.supervisor.bus x'.threads := by
  -- only a call that goes on, a monitor and an event that comes in send something
  cases m with
  | ask c =>
      rw [play] at hplay
      split_ifs at hplay with hnew
      obtain rfl := Option.some.inj hplay
      refine ⟨⟨[], (List.append_nil _).symm⟩, fun a h => ?_⟩
      rwa [Account.Holds, dues_append x.threads (owes?_of_isNew hnew)]
  | proceed k env =>
      obtain ⟨t, t', ht, hstep, hthreads⟩ := proceed_eq_some hplay
      have htells := (Thread.does_step hstep).tells
      obtain ⟨es, hlog⟩ := htells.log
      refine ⟨⟨es, hlog⟩, fun a h => ?_⟩
      rw [Account.after, Deed.published_eq hlog]
      dsimp only
      rw [ht, hthreads]
      exact h.afterStep ht htells hlog
  | giveUp k => cases hplay
  | watch g timerFirst =>
      obtain ⟨s', hs', rfl⟩ := Option.map_eq_some_iff.mp hplay
      obtain ⟨y, _, hy, htick⟩ := Supervisor.exists_tick hs'
      rcases htick.bus with ⟨hkept, hsame⟩ | ⟨es, hes, hbus⟩
      · have hlog : s'.bus.log = x.supervisor.bus.log ++ [] := by rw [Bus.log, hsame, List.append_nil, Bus.log]
        refine ⟨⟨[], hlog⟩, fun a h => ?_⟩
        rw [Account.after, Deed.published_eq hlog]
        dsimp only
        rw [hy, Option.elim_some, List.filter_nil, Account.note_nil]
        exact h.keep hkept
      · have hlog : s'.bus.log = _ := (congrArg Bus.log hbus).trans (Bus.toList_sent_acts _ _)
        refine ⟨⟨_, hlog⟩, fun a h => ?_⟩
        rw [Account.after, Deed.published_eq hlog]
        dsimp only
        rw [hy, Option.elim_some, Bus.filter_contributions fun e he => (hes e he).2, hbus]
        exact .note (h.acts fun e he => (hes e he).1)
  | pass time =>
      obtain rfl := Option.some.inj hplay
      exact ⟨⟨[], (List.append_nil _).symm⟩, fun a h => h⟩
  | signal process number =>
      obtain rfl := Option.some.inj hplay
      exact ⟨⟨[], (List.append_nil _).symm⟩, fun a h => h⟩
  | ingest e =>
      obtain rfl := Option.some.inj hplay
      have hlog : ({ x with supervisor := (x.supervisor.ingest e).2 } : Threads).supervisor.bus.log =
          x.supervisor.bus.log ++ x.supervisor.bus.contribution (.ingest e) :=
        x.supervisor.bus.toList_sent_act (.ingest e)
      refine ⟨⟨_, hlog⟩, fun a h => ?_⟩
      rw [Account.after, Deed.published_eq hlog]
      dsimp only
      rw [Bus.tail_contribution]
      exact .note (h.ingest e)

theorem exists_notices_after (a : Account) (d : Deed) :
    ∃ new, (a.after d).notices = a.notices ++ new ∧ (new.map Notice.event).Sublist d.published := by
  have hnone : ∃ new, a.notices = a.notices ++ new ∧ (new.map Notice.event).Sublist d.published :=
    ⟨[], (List.append_nil _).symm, List.nil_sublist _⟩
  have hnote {es : List Event} (hes : es.Sublist d.published) (id : PipelineId) (turn : Nat) :
      ∃ new, (a.note id turn es).notices = a.notices ++ new ∧ (new.map Notice.event).Sublist d.published := by
    refine ⟨_, rfl, ?_⟩
    rw [List.map_map]
    exact (List.map_id es).symm ▸ hes
  rw [Account.after]
  cases d.move with
  | proceed k env =>
      dsimp only
      cases d.before.threads[k]? with
      | none => exact hnone
      | some t =>
          rw [Option.elim_some]
          unfold Account.afterStep
          split <;> first | exact hnone | exact hnote (List.Sublist.refl _) _ _
  | watch g timerFirst =>
      dsimp only
      cases d.before.supervisor.generations[g]? with
      | none => exact hnone
      | some y => exact hnote List.filter_sublist _ _
  | ingest e => exact hnote (List.tail_sublist _) _ _
  | _ => exact hnone

theorem notices_grow (τ ρ : List Deed) : (account τ).notices <+: (account (τ ++ ρ)).notices := by
  induction ρ using List.reverseRecOn with
  | nil => exact (List.append_nil τ).symm ▸ List.prefix_rfl
  | append_singleton ρ d ih =>
      obtain ⟨new, hnew, -⟩ := exists_notices_after (account (τ ++ ρ)) d
      rw [← List.append_assoc, account_append, hnew]
      exact ih.trans (List.prefix_append _ _)

theorem History.holds (h : History config τ x) : (account τ).Holds x.supervisor.bus x.threads ∧
    ((account τ).notices.map Notice.event).Sublist x.supervisor.bus.log := by
  induction h with
  | start => exact ⟨.nil _ _, List.nil_sublist _⟩
  | @move τ x x' m _ hplay ih =>
      obtain ⟨⟨es, hlog⟩, hholds⟩ := holds_play hplay
      obtain ⟨new, hnew, hsent⟩ := exists_notices_after (account τ) ⟨x, m, x'⟩
      rw [Deed.published_eq hlog] at hsent
      rw [account_append]
      refine ⟨hholds _ ih.1, ?_⟩
      rw [hnew, hlog, List.map_append]
      exact ih.2.append hsent

/-- No two notices are on account of one record, in whatever order stops, aborts, starts, shutdowns, monitors and events
take their steps; every notice was sent, as one of the three announcements of its pipeline; and from then on, until it
is forgotten, the record is aborted, or complete, as the notice says. -/
theorem one_notice_for_each_record (h : History config τ x) :
    ((account τ).notices.map Notice.record).Nodup ∧
      ((account τ).notices.map Notice.event).Sublist x.supervisor.bus.log ∧
      (∀ n ∈ (account τ).notices, n.IsProper) ∧
      ∀ ρ y, History config (τ ++ ρ) y → ∀ n ∈ (account τ).notices, n.turn = (account (τ ++ ρ)).turn n.run →
        ∃ s, y.supervisor.registry.get? n.run = some s ∧ s.status = n.outcome := by
  have hgiven {ρ : List Deed} {y : Threads} (hy : History config ρ y) :
      y.supervisor.registry.BearsOut (account ρ).turn (account ρ).notices :=
    hy.holds.1.subperm (List.sublist_append_left _ _).subperm
  refine ⟨(hgiven h).once, h.holds.2, (hgiven h).proper, fun ρ y hy n hn hturn => ?_⟩
  exact (hgiven hy).ended n ((notices_grow τ ρ).subset hn) hturn

/-- An abort and a stop of one run get in each other's way. When the pipeline is started again, its only worker is done,
and another abort comes too late. -/
def contest : List Move :=
  .ask (.startOf 1 ⟨none, none⟩) :: List.replicate 11 (.proceed 0 Scene.calm) ++
    [.ask (.abortOf 1), .ask (.stopOf 1), .proceed 1 Scene.calm, .proceed 2 Scene.calm] ++
    List.replicate 3 (.proceed 1 Scene.calm) ++ List.replicate 2 (.watch 0 false) ++
    List.replicate 5 (.proceed 2 Scene.calm) ++
    .ask (.startOf 1 ⟨none, none⟩) :: List.replicate 11 (.proceed 3 Scene.calm) ++
    [.ingest (Monitor.completionEvent 1 0), .ask (.abortOf 1)] ++ List.replicate 2 (.proceed 4 Scene.calm)

/-- The abort has given notice of the first run, and the event of the second one. -/
theorem contest_one_notice_for_each_record : ∃ τ x, History {} τ x ∧
    ((account τ).notices.map fun n => (n.run, n.turn, n.event.kind)) =
      [(1, 1, Event.aborted), (1, 2, Event.completed)] ∧
    ((account τ).notices.map Notice.record).Nodup ∧
    ∃ s, x.supervisor.registry.get? 1 = some s ∧ s.status = .completed := by
  obtain ⟨x, hplayed⟩ : ∃ x, contest.foldlM play (ofConfig {}) = some x := ⟨_, rfl⟩
  have hhistory : History {} ((ofConfig {}).trace contest) x := History.start.plays contest hplayed
  have hnotices : ((account ((ofConfig {}).trace contest)).notices.map fun n => (n.run, n.turn, n.event.kind)) =
      [(1, 1, Event.aborted), (1, 2, Event.completed)] := rfl
  obtain ⟨honce, -, -, hstays⟩ := one_notice_for_each_record hhistory
  refine ⟨_, x, hhistory, hnotices, honce, ?_⟩
  obtain ⟨n, hn, hlast⟩ : ∃ n ∈ (account ((ofConfig {}).trace contest)).notices,
      (n.run, n.turn, n.event.kind) = (1, 2, Event.completed) := List.mem_map.mp (hnotices ▸ by simp)
  obtain ⟨hrun, hturn, hkind⟩ : n.run = 1 ∧ n.turn = 2 ∧ n.event.kind = Event.completed := by simpa using hlast
  have hnow : n.turn = (account ((ofConfig {}).trace contest ++ [])).turn n.run := by
    rw [List.append_nil, hrun, hturn]
    rfl
  obtain ⟨s, hs, hstatus⟩ := hstays [] x ((List.append_nil _).symm ▸ hhistory) n hn hnow
  exact ⟨s, hrun ▸ hs, hstatus.trans (if_pos hkind)⟩

end Threads

end Pipeworks
