import Pipeworks.Proofs.Supervisor.Threads
import Pipeworks.Proofs.Supervisor.Standing

/-!
All that one step of a thread may do, and what it leaves of processes and records.
-/

namespace Pipeworks

def Call.isStart : Call → Bool
  | .start _ _ _ => true
  | _ => false

namespace Supervisor

variable {s s' : Supervisor} {id : PipelineId}

/-- The settings, the number of the next run, and the jobs that were launched. Starts go on with the last two, and
nobody changes them otherwise. -/
def books (s : Supervisor) : Config × Nat × List WorkerSpec := (s.config, s.sequence, s.launched)

theorem config_of_books (h : s'.books = s.books) : s'.config = s.config := congrArg Prod.fst h

theorem sequence_of_books (h : s'.books = s.books) : s'.sequence = s.sequence := congrArg (·.2.1) h

theorem launched_of_books (h : s'.books = s.books) : s'.launched = s.launched := congrArg (·.2.2) h

def Abstains (s : Supervisor) : Call.Next → Prop
  | .answer a s' => (∀ r, a ≠ .started r) ∧ s'.books = s.books
  | .later c s' => c.isStart = false ∧ s'.books = s.books
  | .wait => True

theorem books_stepTakedown {g : Nat} {t : Takedown} {t' : Option Takedown}
    (h : s.stepTakedown g t = some (t', s')) : s'.books = s.books := by
  obtain ⟨ps, rfl⟩ | ⟨held, rfl⟩ := stepTakedown_cases h <;> rfl

theorem books_concludeStop (s : Supervisor) (id : PipelineId) : (s.concludeStop id).2.books = s.books := by
  unfold concludeStop
  dsimp only
  split_ifs <;> rfl

theorem books_anyAlive (s : Supervisor) (g : Nat) : (s.anyAlive g).2.books = s.books := by
  rw [anyAlive]
  cases s.generations[g]? <;> rfl

theorem books_of_spawn {env : Surroundings} {spec : WorkerSpec} {r : Except Error Member}
    (h : s.spawn env spec = (r, s')) : s'.books = (s.config, s.sequence, s.launched ++ [spec]) := by
  rw [spawn] at h
  split at h <;> obtain ⟨-, rfl⟩ := Prod.mk.inj h <;> rfl

theorem abstains_stepStop (stage : StopStage) : s.Abstains (s.stepStop id stage) := by
  cases stage with
  | asked =>
      rw [stepStop]
      split_ifs
      · trivial
      · cases s.generation? id with
        | none => exact ⟨by rintro _ ⟨⟩, rfl⟩
        | some g => exact ⟨rfl, rfl⟩
  | ending g t =>
      rw [stepStop]
      cases htakedown : s.stepTakedown g t with
      | none => trivial
      | some taken =>
          have hbooks := books_stepTakedown htakedown
          obtain ⟨_ | t', s'⟩ := taken
          · exact ⟨by rintro _ ⟨⟩, (books_concludeStop s' id).trans hbooks⟩
          · exact ⟨rfl, hbooks⟩

theorem abstains_concludeAbort {s₀ : Supervisor} (hbooks : s.books = s₀.books) (moved : Bool) :
    s₀.Abstains (.answer (s.concludeAbort id moved).1 (s.concludeAbort id moved).2) := by
  rw [concludeAbort]
  split_ifs
  · exact ⟨by rintro _ ⟨⟩, hbooks⟩
  · exact ⟨by rintro _ ⟨⟩, hbooks⟩

theorem abstains_stepAbort (stage : AbortStage) : s.Abstains (s.stepAbort id stage) := by
  cases stage with
  | asked => exact ⟨rfl, rfl⟩
  | marked moved =>
      rw [stepAbort]
      split_ifs
      · trivial
      · cases s.generation? id with
        | some g => exact ⟨rfl, rfl⟩
        | none =>
            cases s.registry.get? id with
            | none => exact ⟨by rintro _ ⟨⟩, rfl⟩
            | some run => exact abstains_concludeAbort rfl moved
  | ending moved g t =>
      rw [stepAbort]
      cases htakedown : s.stepTakedown g t with
      | none => trivial
      | some taken =>
          have hbooks := books_stepTakedown htakedown
          obtain ⟨_ | t', s'⟩ := taken
          · exact abstains_concludeAbort hbooks moved
          · exact ⟨rfl, hbooks⟩

theorem abstains_stepShutdownAll (stage : ShutdownStage) : s.Abstains (s.stepShutdownAll stage) := by
  cases stage with
  | asked =>
      rw [stepShutdownAll]
      split_ifs
      · trivial
      · cases s.active with
        | nil => exact ⟨by rintro _ ⟨⟩, rfl⟩
        | cons run rest => exact ⟨rfl, rfl⟩
  | ending runs t =>
      cases runs with
      | nil => exact ⟨by rintro _ ⟨⟩, rfl⟩
      | cons run rest =>
          obtain ⟨id, g⟩ := run
          rw [stepShutdownAll]
          cases htakedown : s.stepTakedown g t with
          | none => trivial
          | some taken =>
              have hbooks := books_stepTakedown htakedown
              obtain ⟨_ | t', s'⟩ := taken
              · cases rest with
                | nil => exact ⟨by rintro _ ⟨⟩, hbooks⟩
                | cons run rest => exact ⟨rfl, hbooks⟩
              · exact ⟨rfl, hbooks⟩

theorem exists_statusOf (s : Supervisor) (x : Generation) (hasFailed : Bool) :
    ∃ ps, (s.statusOf x hasFailed).2 = { s with processes := ps } := by
  rw [statusOf]
  split_ifs
  · exact ⟨s.processes, rfl⟩
  · dsimp only
    split_ifs <;> exact ⟨_, rfl⟩

theorem exists_report (s : Supervisor) (id : PipelineId) (run : Option RunState) :
    ∃ ps, (s.report id run).2 = { s with processes := ps } := by
  rw [report]
  cases s.generation? id with
  | none =>
      dsimp only
      split_ifs <;> exact ⟨s.processes, rfl⟩
  | some g =>
      dsimp only
      cases s.generations[g]? with
      | none => exact ⟨s.processes, rfl⟩
      | some x =>
          dsimp only
          split_ifs
          · exact ⟨s.processes, rfl⟩
          · exact exists_statusOf s x _

theorem abstains_step (env : Surroundings) {c : Call} (hc : c.isStart = false) : s.Abstains (s.step env c) := by
  cases c with
  | start id o stage => cases hc
  | stop id stage => exact abstains_stepStop stage
  | abort id stage => exact abstains_stepAbort stage
  | shutdownAll stage => exact abstains_stepShutdownAll stage
  | status id run =>
      cases run with
      | none => exact ⟨rfl, rfl⟩
      | some run =>
          rw [step, stepStatus]
          split_ifs
          · trivial
          · obtain ⟨ps, hps⟩ := exists_report s id run
            have hbooks : (s.report id run).2.books = s.books := by rw [hps]; rfl
            exact ⟨by rintro _ ⟨⟩, hbooks⟩

end Supervisor

def Supervisor.runTag (s : Supervisor) (env : Surroundings) : String := env.stamp ++ "-" ++ toString s.sequence

def Launch.report (l : Launch) (members : List Member) : StartReport where
  pipeline := l.id
  segments := l.plan.clusters.length
  producers := (members.filter (·.isProducer)).length
  processes := members.map (·.process)
  warnings := l.warnings

inductive Refusal (env : Surroundings) (id : PipelineId) (o : StartOptions) : Error → Prop where
  /-- Another start of the pipeline is under way, or a process of it is alive. -/
  | running : Refusal env id o (.alreadyRunning id)
  | unfit {p : ProducerOptions} {e : Error} : o.producer = some p → Producer.check p.channels p.frequency = .error e →
      Refusal env id o e
  /-- There is no such pipeline, or the store does not answer. -/
  | missing {e : Error} : Supervisor.fetch env id = .error e → Refusal env id o e
  | invalid {graph : Graph} {e : Error} : graph.requireValid env.reachable = .error e → Refusal env id o e
  | uncompiled {graph : Graph} {e : Error} : Plan.compile graph = .error e → Refusal env id o e

namespace Thread

open Supervisor (Effect)

variable {env : Surroundings} {s s' : Supervisor} {t t' : Thread}

inductive Does (env : Surroundings) (s : Supervisor) : Thread → Thread → Supervisor → Prop where
  | later {c c' : Call} {s' : Supervisor} : c.isStart = false → s.step env c = .later c' s' →
      Does env s (calling c) (calling c') s'
  | answers {c : Call} {a : Answer} {s' : Supervisor} : c.isStart = false → s.step env c = .answer a s' →
      Does env s (calling c) (answered a) s'
  | doubts {id : PipelineId} {moved : Bool} : s.activeHeld = false → s.generation? id = none →
      Does env s (calling (.abort id (.marked moved))) (doubting id moved) s
  | joined {id : PipelineId} {moved : Bool} {g : Nat} {t : Takedown} {s' : Supervisor} :
      s.stepTakedown g t = some (none, s') →
      Does env s (calling (.abort id (.ending moved g t))) (concluding id moved) s'
  | unknown {id : PipelineId} {moved : Bool} {r : ControlResponse} :
      Does env s (doubting id moved) (answered (.control r)) s
  | known {id : PipelineId} {moved : Bool} : Does env s (doubting id moved) (concluding id moved) s
  | concludes {id : PipelineId} {moved : Bool} :
      Does env s (concluding id moved) (answered (s.concludeAbort id moved).1) (s.concludeAbort id moved).2
  | barred {id : PipelineId} {o : StartOptions} : id ∈ s.starting →
      Does env s (calling (.start id o .asked)) (answered (.started (.error (.alreadyRunning id)))) s
  | unfit {id : PipelineId} {o : StartOptions} {e : Error} : id ∉ s.starting → Refusal env id o e →
      Does env s (calling (.start id o .asked)) (leaving id (.refused e)) { s with starting := s.starting ++ [id] }
  | marks {id : PipelineId} {o : StartOptions} : id ∉ s.starting →
      Does env s (calling (.start id o .asked)) (calling (.start id o .marked)) { s with starting := s.starting ++ [id] }
  | waived {id : PipelineId} {o : StartOptions} : s.generation? id = none →
      Does env s (calling (.start id o .marked)) (calling (.start id o .fetching)) s
  | takes {id : PipelineId} {o : StartOptions} {g : Nat} : s.activeHeld = false → s.generation? id = some g →
      Does env s (calling (.start id o .marked)) (calling (.start id o (.inspecting g))) { s with activeHeld := true }
  | alive {id : PipelineId} {o : StartOptions} {g : Nat} :
      Does env s (calling (.start id o (.inspecting g))) (leaving id (.refused (.alreadyRunning id)))
        { (s.anyAlive g).2 with activeHeld := false }
  | dead {id : PipelineId} {o : StartOptions} {g : Nat} : (s.anyAlive g).1 = false →
      Does env s (calling (.start id o (.inspecting g))) (calling (.start id o .fetching))
        ((({ (s.anyAlive g).2 with activeHeld := false } : Supervisor).deactivate id).cancel g)
  | refused {id : PipelineId} {o : StartOptions} {stage : StartStage} {e : Error} :
      (Call.start id o stage).stake = .cleared id → Refusal env id o e →
      Does env s (calling (.start id o stage)) (leaving id (.refused e)) s
  | fetched {id : PipelineId} {o : StartOptions} {graph : Graph} : Supervisor.fetch env id = .ok graph →
      Does env s (calling (.start id o .fetching)) (calling (.start id o (.validating graph))) s
  | compiled {id : PipelineId} {o : StartOptions} {graph : Graph} {report : Report} {plan : Plan} :
      graph.requireValid env.reachable = .ok report → Plan.compile graph = .ok plan →
      Does env s (calling (.start id o (.validating graph)))
        (launching ⟨id, o, graph, report.warnings, plan⟩ .numbering) s
  | numbers {l : Launch} :
      Does env s (launching l .numbering)
        (launching { l with plan := l.plan.assignGroups s.config.groupPrefix (s.runTag env) } .forgetting)
        { s with sequence := s.sequence + 1 }
  | forgets {l : Launch} :
      Does env s (launching l .forgetting) (launching l .recording) (s.setRegistry (s.registry.reset l.id))
  | records {l : Launch} :
      Does env s (launching l .recording)
        (launching l (.spawning (Supervisor.specs s.config l.id l.plan l.graph.inputs l.options.producer) []))
        (s.setRegistry (s.registry.init l.id l.plan.clusters.length))
  | spawns {l : Launch} {spec : WorkerSpec} {specs : List WorkerSpec} {ms : List Member} {m : Member}
      {s' : Supervisor} : s.spawn env spec = (.ok m, s') →
      Does env s (launching l (.spawning (spec :: specs) ms)) (launching l (.spawning specs (ms ++ [m]))) s'
  | breaks {l : Launch} {spec : WorkerSpec} {specs : List WorkerSpec} {ms : List Member} {e : Error}
      {s' : Supervisor} : s.spawn env spec = (.error e, s') →
      Does env s (launching l (.spawning (spec :: specs) ms))
        (calling (.start l.id l.options (.unwinding (Teardown.ofMembers ms) e))) s'
  | enrols {l : Launch} {x : Generation} : x.pipeline = l.id → x.monitor = .fresh →
      Does env s (launching l (.spawning [] x.members))
        (calling (.start l.id l.options (.enlisting s.generations.length (l.report x.members)))) (s.enrol x)
  | unwinds {id : PipelineId} {o : StartOptions} {t t' : Teardown} {e : Error} {s' : Supervisor} :
      t.next s = .later t' s' →
      Does env s (calling (.start id o (.unwinding t e))) (calling (.start id o (.unwinding t' e))) s'
  | unwound {id : PipelineId} {o : StartOptions} {t : Teardown} {e : Error} : t.processes = [] →
      Does env s (calling (.start id o (.unwinding t e))) (failing id e) s
  | fails {id : PipelineId} {e : Error} :
      Does env s (failing id e) (leaving id (.failed e))
        (s.setRegistry (s.registry.fail id ("Failed to start pipeline: " ++ e.message)).2)
  | enters {id : PipelineId} {o : StartOptions} {g : Nat} {r : StartReport} : s.activeHeld = false →
      Does env s (calling (.start id o (.enlisting g r))) (leaving id (.entered r))
        { (s.modifyGeneration g fun x => { x with startedAt := s.now }) with
          active := s.active.filter (·.1 ≠ id) ++ [(id, g)] }
  | leaves {id : PipelineId} {o : Outcome} :
      Does env s (leaving id o) (answered (.started o.result)) (s.unmark id)

/-- Only a start changes the books: it takes the number of its run, and it starts processes, one with each of its
jobs. -/
theorem Does.books (h : Does env s t t' s') : s'.books = s.books ∨
    (∃ l, t = launching l .numbering ∧ s' = { s with sequence := s.sequence + 1 }) ∨
    ∃ l spec specs ms, t = launching l (.spawning (spec :: specs) ms) ∧
      s'.books = (s.config, s.sequence, s.launched ++ [spec]) := by
  have hcall {c : Call} {n : Call.Next} (hc : c.isStart = false) (hstep : s.step env c = n) : s.Abstains n :=
    hstep ▸ Supervisor.abstains_step env hc
  cases h with
  | later hc hstep => exact .inl (hcall hc hstep).2
  | answers hc hstep => exact .inl (hcall hc hstep).2
  | joined hstep => exact .inl (Supervisor.books_stepTakedown hstep)
  | @concludes id moved =>
      have habstains : s.Abstains (.answer (s.concludeAbort id moved).1 _) :=
        Supervisor.abstains_concludeAbort rfl moved
      exact .inl habstains.2
  | alive => exact .inl (Supervisor.books_anyAlive s _)
  | dead => exact .inl (Supervisor.books_anyAlive s _)
  | numbers => exact .inr (.inl ⟨_, rfl, rfl⟩)
  | spawns hspawn => exact .inr (.inr ⟨_, _, _, _, rfl, Supervisor.books_of_spawn hspawn⟩)
  | breaks hspawn => exact .inr (.inr ⟨_, _, _, _, rfl, Supervisor.books_of_spawn hspawn⟩)
  | unwinds hnext =>
      obtain ⟨ps, rfl⟩ := Supervisor.eq_of_next_later hnext
      exact .inl rfl
  | _ => exact .inl rfl

/-! ### Every step is of one of these kinds -/

theorem does_ofNext {c : Call} (hc : c.isStart = false) (h : ofNext (s.step env c) = some (t', s')) :
    Does env s (calling c) t' s' := by
  cases hstep : s.step env c with
  | answer a s₁ =>
      rw [hstep] at h
      obtain ⟨rfl, rfl⟩ := Prod.mk.inj (Option.some.inj h)
      exact .answers hc hstep
  | later c' s₁ =>
      rw [hstep] at h
      obtain ⟨rfl, rfl⟩ := Prod.mk.inj (Option.some.inj h)
      exact .later hc hstep
  | wait =>
      rw [hstep] at h
      cases h

theorem does_markStarting (env : Surroundings) (s : Supervisor) (id : PipelineId) (o : StartOptions) :
    Does env s (calling (.start id o .asked)) (markStarting s id o).1 (markStarting s id o).2 := by
  rw [markStarting]
  split_ifs with hid
  · exact .barred hid
  · cases hproducer : o.producer with
    | none => exact .marks hid
    | some p =>
        cases hcheck : Producer.check p.channels p.frequency with
        | error e =>
            simp only [Option.map_some, hcheck]
            exact .unfit hid (.unfit hproducer hcheck)
        | ok u =>
            simp only [Option.map_some, hcheck]
            exact .marks hid

theorem does_inspect (env : Surroundings) (s : Supervisor) (id : PipelineId) (o : StartOptions) (g : Nat) :
    Does env s (calling (.start id o (.inspecting g))) (inspect s id o g).1 (inspect s id o g).2 := by
  rw [inspect]
  dsimp only
  split_ifs with halive
  · exact .alive
  · exact .dead (Bool.eq_false_iff.mpr halive)

theorem does_validate (env : Surroundings) (s : Supervisor) (id : PipelineId) (o : StartOptions) (graph : Graph) :
    Does env s (calling (.start id o (.validating graph))) (validate env s id o graph).1
      (validate env s id o graph).2 := by
  rw [validate]
  cases hvalid : graph.requireValid env.reachable with
  | error e => exact .refused rfl (.invalid hvalid)
  | ok report =>
      dsimp only
      cases hplan : Plan.compile graph with
      | error e => exact .refused rfl (.uncompiled hplan)
      | ok p => exact .compiled hvalid hplan

theorem pipeline_specs (c : Config) (id : PipelineId) (p : Plan) (inputs : List Endpoint)
    (producer : Option ProducerOptions) : ∀ spec ∈ Supervisor.specs c id p inputs producer, spec.pipeline = id := by
  intro spec hspec
  unfold Supervisor.specs at hspec
  dsimp only at hspec
  obtain ⟨job, hjob, rfl⟩ := List.mem_map.mp hspec
  rcases List.mem_append.mp hjob with hjob | hjob
  · obtain ⟨cluster, -, rfl⟩ := List.mem_map.mp hjob
    rfl
  · cases producer with
    | none => exact absurd hjob List.not_mem_nil
    | some o =>
        obtain ⟨input, -, rfl⟩ := List.mem_map.mp hjob
        rfl

theorem does_stepLaunch (env : Surroundings) (s : Supervisor) (l : Launch) (stage : LaunchStage) :
    Does env s (launching l stage) (stepLaunch env s l stage).1 (stepLaunch env s l stage).2 := by
  cases stage with
  | numbering => exact .numbers
  | forgetting => exact .forgets
  | recording => exact .records
  | spawning specs ms =>
      cases specs with
      | nil =>
          exact .enrols (x := { pipeline := l.id, members := ms, runtime := l.options.runtime, startedAt := s.now }) rfl
            rfl
      | cons spec specs =>
          rw [stepLaunch]
          rcases hspawn : s.spawn env spec with ⟨e | m, s₁⟩
          · exact .breaks hspawn
          · exact .spawns hspawn

theorem does_stepStart {id : PipelineId} {o : StartOptions} {stage : StartStage}
    (h : stepStart env s id o stage = some (t', s')) : Does env s (calling (.start id o stage)) t' s' := by
  cases stage with
  | asked =>
      have hdoes := does_markStarting env s id o
      rwa [Option.some.inj h] at hdoes
  | marked =>
      rw [stepStart, Supervisor.stepStart] at h
      split_ifs at h with hheld
      · cases h
      · cases hactive : s.generation? id with
        | none =>
            rw [hactive] at h
            obtain ⟨rfl, rfl⟩ := Prod.mk.inj (Option.some.inj h)
            exact .waived hactive
        | some g =>
            rw [hactive] at h
            obtain ⟨rfl, rfl⟩ := Prod.mk.inj (Option.some.inj h)
            exact .takes (Bool.eq_false_iff.mpr hheld) hactive
  | inspecting g =>
      rw [stepStart] at h
      split_ifs at h
      have hdoes := does_inspect env s id o g
      rwa [Option.some.inj h] at hdoes
  | fetching =>
      rw [stepStart] at h
      cases hfetch : Supervisor.fetch env id with
      | error e =>
          rw [hfetch] at h
          obtain ⟨rfl, rfl⟩ := Prod.mk.inj (Option.some.inj h)
          exact .refused rfl (.missing hfetch)
      | ok graph =>
          rw [hfetch] at h
          obtain ⟨rfl, rfl⟩ := Prod.mk.inj (Option.some.inj h)
          exact .fetched hfetch
  | validating graph =>
      have hdoes := does_validate env s id o graph
      rwa [Option.some.inj h] at hdoes
  | unwinding t e =>
      rw [stepStart] at h
      cases hnext : t.next s with
      | wait =>
          rw [hnext] at h
          cases h
      | later t₁ s₁ =>
          rw [hnext] at h
          obtain ⟨rfl, rfl⟩ := Prod.mk.inj (Option.some.inj h)
          exact .unwinds hnext
      | finished s₁ =>
          rw [hnext] at h
          obtain ⟨rfl, rfl⟩ := Prod.mk.inj (Option.some.inj h)
          obtain ⟨rfl, hempty⟩ := Teardown.next_finished hnext
          exact .unwound hempty
  | enlisting g r =>
      rw [stepStart] at h
      split_ifs at h with hheld
      obtain ⟨rfl, rfl⟩ := Prod.mk.inj (Option.some.inj h)
      exact .enters (Bool.eq_false_iff.mpr hheld)

theorem does_stepAbort {id : PipelineId} {stage : AbortStage} (h : stepAbort s id stage = some (t', s')) :
    Does env s (calling (.abort id stage)) t' s' := by
  cases stage with
  | asked => exact does_ofNext rfl h
  | marked moved =>
      rw [stepAbort] at h
      split_ifs at h with hnone
      · obtain ⟨rfl, rfl⟩ := Prod.mk.inj (Option.some.inj h)
        exact .doubts (Bool.eq_false_iff.mpr hnone.1) hnone.2
      · exact does_ofNext rfl h
  | ending moved g t =>
      cases htakedown : s.stepTakedown g t with
      | none =>
          rw [stepAbort, htakedown] at h
          cases h
      | some taken =>
          obtain ⟨_ | t₁, s₁⟩ := taken
          · rw [stepAbort, htakedown] at h
            obtain ⟨rfl, rfl⟩ := Prod.mk.inj (Option.some.inj h)
            exact .joined htakedown
          · rw [stepAbort, htakedown] at h
            obtain ⟨rfl, rfl⟩ := Prod.mk.inj (Option.some.inj h)
            exact .later rfl (by rw [Supervisor.step, Supervisor.stepAbort, htakedown])

theorem does_step (h : t.step env s = some (t', s')) : Does env s t t' s' := by
  cases t with
  | calling c =>
      cases c with
      | start id o stage => exact does_stepStart h
      | stop id stage => exact does_ofNext rfl h
      | abort id stage => exact does_stepAbort h
      | status id run => exact does_ofNext rfl h
      | shutdownAll stage => exact does_ofNext rfl h
  | launching l stage =>
      have hdoes := does_stepLaunch env s l stage
      rwa [Option.some.inj h] at hdoes
  | failing id e =>
      obtain ⟨rfl, rfl⟩ := Prod.mk.inj (Option.some.inj h)
      exact .fails
  | leaving id o =>
      obtain ⟨rfl, rfl⟩ := Prod.mk.inj (Option.some.inj h)
      exact .leaves
  | doubting id moved =>
      rw [step] at h
      split at h
      · obtain ⟨rfl, rfl⟩ := Prod.mk.inj (Option.some.inj h)
        exact .unknown
      · obtain ⟨rfl, rfl⟩ := Prod.mk.inj (Option.some.inj h)
        exact .known
  | concluding id moved =>
      obtain ⟨rfl, rfl⟩ := Prod.mk.inj (Option.some.inj h)
      exact .concludes
  | answered a => cases h

end Thread

/-! ### All that may happen -/

namespace Supervisor

variable {s s' : Supervisor} {g : Nat}

/-- What happens beside the calls: nobody becomes responsible for other processes, no process is started, and runs make
transitions only. -/
structure Drifts (s s' : Supervisor) : Prop where
  quiet : s.Quiet s'
  books : s'.books = s.books
  record : ∀ id, ∃ ts, s'.registry.get? id = (s.registry.get? id).map (·.after ts)

theorem books_checkForCrash (s : Supervisor) (g : Nat) (x : Generation) (deadline : Option Moment) :
    (s.checkForCrash g x deadline).books = s.books := by
  rw [checkForCrash]
  dsimp only
  split <;> rfl

theorem exists_reportCompletion (s : Supervisor) (x : Generation) : ∃ bus, s.reportCompletion x = { s with bus } := by
  rw [reportCompletion]
  generalize x.members.filter (fun m => !m.isProducer) = ms
  induction ms generalizing s with
  | nil => exact ⟨s.bus, rfl⟩
  | cons m ms ih => exact ih _

namespace Drifts

theorem stepMonitor {timerFirst : Bool} (h : s.stepMonitor g timerFirst = some s') : s.Drifts s' := by
  refine ⟨.stepMonitor h, ?_, record_stepMonitor h⟩
  obtain ⟨x, -, hx, -⟩ := exists_tick h
  obtain ⟨ps, m, rfl⟩ | ⟨held, m, rfl⟩ | ⟨deadline, -, rfl⟩ | ⟨segment, message, t, -, rfl⟩ | ⟨t, -, rfl⟩ :=
    stepMonitor_cases hx h
  · rfl
  · rfl
  · exact books_checkForCrash s g x deadline
  · rfl
  · obtain ⟨bus, hbus⟩ := exists_reportCompletion (s.endMonitor g) x
    rw [hbus]
    rfl

theorem ingest (s : Supervisor) (e : Event) : s.Drifts (s.ingest e).2 :=
  ⟨.ingest s e, rfl, fun _ => record_turns (turns_ingest s e)⟩

theorem pass (s : Supervisor) (time : Nat) : s.Drifts { s with now := s.now + time } :=
  ⟨.pass s time, rfl, fun _ => record_refl rfl⟩

theorem signal (s : Supervisor) (process number : Nat) : s.Drifts (s.signal process number) :=
  ⟨.signal s process number, rfl, fun _ => record_refl rfl⟩

end Drifts

end Supervisor

namespace Threads

inductive Happens (x : Threads) : Move → Threads → Prop where
  | asks {c : Call} : c.isNew = true → Happens x (.ask c) { x with threads := x.threads ++ [.calling c] }
  | goes {k : Nat} {env : Surroundings} {t t' : Thread} {s' : Supervisor} : x.threads[k]? = some t →
      Thread.Does env x.supervisor t t' s' → Happens x (.proceed k env) ⟨s', x.threads.set k t'⟩
  | drifts {m : Move} {s' : Supervisor} : (∀ k env, m ≠ .proceed k env) → x.supervisor.Drifts s' →
      Happens x m { x with supervisor := s' }

variable {x x' : Threads} {m : Move}

theorem happens_of_play (h : x.play m = some x') : x.Happens m x' := by
  cases m with
  | ask c =>
      rw [play] at h
      split_ifs at h with hnew
      exact Option.some.inj h ▸ .asks hnew
  | proceed k env =>
      obtain ⟨t, t', ht, hstep, hthreads⟩ := proceed_eq_some h
      obtain ⟨s', threads⟩ := x'
      obtain rfl : threads = x.threads.set k t' := hthreads
      exact .goes ht (Thread.does_step hstep)
  | giveUp k => cases h
  | watch g timerFirst =>
      obtain ⟨s', hs', rfl⟩ := Option.map_eq_some_iff.mp h
      exact .drifts (fun _ _ h => by cases h) (.stepMonitor hs')
  | pass time => exact Option.some.inj h ▸ .drifts (fun _ _ h => by cases h) (.pass _ _)
  | signal process number => exact Option.some.inj h ▸ .drifts (fun _ _ h => by cases h) (.signal _ _ _)
  | ingest e => exact Option.some.inj h ▸ .drifts (fun _ _ h => by cases h) (.ingest _ _)

/-- What holds of every thread goes on to hold of every thread, if it does of new ones and with every step. -/
theorem Happens.threads (h : x.Happens m x') {P : Thread → Prop} (hx : ∀ t ∈ x.threads, P t)
    (hasks : ∀ c, m = .ask c → c.isNew = true → P (.calling c))
    (hgoes : ∀ t t' env, t ∈ x.threads → Thread.Does env x.supervisor t t' x'.supervisor → P t') :
    ∀ t ∈ x'.threads, P t := by
  cases h with
  | @asks c hnew =>
      intro t ht
      rcases List.mem_append.mp ht with ht | ht
      · exact hx t ht
      · exact List.mem_singleton.mp ht ▸ hasks c rfl hnew
  | goes ht hdoes =>
      intro u hu
      rcases List.mem_or_eq_of_mem_set hu with hu | rfl
      · exact hx u hu
      · exact hgoes _ _ _ (List.mem_of_getElem? ht) hdoes
  | drifts => exact hx

end Threads

end Pipeworks
