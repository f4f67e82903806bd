import Pipeworks.Proofs.Supervisor.Records
import Pipeworks.Proofs.Supervisor.Requests

/-!
All that one step of a call may do. There are few kinds of steps: a call looks at processes and marks or unmarks its
pipeline; a start drops a generation without a living process, is refused, makes a record and processes, shuts down
what it could not complete, or enters its generation; and the other calls take generations out of the active ones, go
on ending them, and end runs. What holds in spite of every call is proved by these cases.
-/

namespace Pipeworks

def Call.left : Option Call → Stake
  | some c => c.stake
  | none => .nothing

def Call.Next.Does (n : Call.Next) (P : Supervisor → Option Call → Prop) : Prop :=
  match n with
  | .answer _ s => P s none
  | .later c s => P s (some c)
  | .wait => True

namespace Stake

def IsFree : Stake → Prop
  | unwinding _ _ => False
  | enlisting _ _ => False
  | ending _ => False
  | _ => True

theorem IsFree.tended {st : Stake} (h : st.IsFree) : st.tended = [] := by
  cases st with
  | unwinding => exact h.elim
  | enlisting => exact h.elim
  | ending => exact h.elim
  | _ => rfl

theorem IsFree.leftover {st : Stake} (h : st.IsFree) : st.leftover = [] := by
  cases st with
  | unwinding => exact h.elim
  | _ => rfl

end Stake

namespace Supervisor

variable {s s' s'' : Supervisor} {id : PipelineId} {g : Nat}

/-- A step that only looks at processes; marks and locks may be taken and given back. -/
structure Looks (s s' : Supervisor) : Prop where
  now : s'.now = s.now
  active : s'.active = s.active
  generations : s'.generations = s.generations
  registry : s'.registry = s.registry
  aged : Aged s.now s.now s.processes s'.processes
  requests : s'.requests = s.requests

namespace Looks

theorem refl (s : Supervisor) : Looks s s := ⟨rfl, rfl, rfl, rfl, .refl _ _, rfl⟩

theorem of_same (hnow : s'.now = s.now) (hactive : s'.active = s.active) (hgenerations : s'.generations = s.generations)
    (hregistry : s'.registry = s.registry) (hprocesses : s'.processes = s.processes) : Looks s s' :=
  ⟨hnow, hactive, hgenerations, hregistry, hprocesses ▸ .refl _ _, congrArg (·.map (·.stopRequested)) hprocesses⟩

theorem of_processes {ps : List Subprocess} (haged : Aged s.now s.now s.processes ps)
    (hrequests : ps.map (·.stopRequested) = s.processes.map (·.stopRequested)) : Looks s { s with processes := ps } :=
  ⟨rfl, rfl, rfl, rfl, haged, hrequests⟩

theorem anyAlive (s : Supervisor) (g : Nat) : Looks s (s.anyAlive g).2 := by
  rw [Supervisor.anyAlive]
  cases s.generations[g]? with
  | none => exact refl s
  | some x =>
      exact of_processes (.anyOf (Subprocess.Later.isAlive s.now) x.members s.processes)
        (requests_anyOf (fun p => p.stopRequested_isAlive s.now) x.members s.processes)

theorem report (s : Supervisor) (id : PipelineId) (run : Option RunState) : Looks s (s.report id run).2 := by
  rw [Supervisor.report]
  cases s.generation? id with
  | none =>
      dsimp only
      split_ifs <;> exact refl s
  | some g =>
      dsimp only
      cases s.generations[g]? with
      | none => exact refl s
      | some x =>
          have haged := Aged.anyOf (Subprocess.Later.failed s.now) x.members s.processes
          have hrequests := requests_anyOf (fun p => p.stopRequested_failed s.now) x.members s.processes
          dsimp only
          split_ifs
          · exact refl s
          · rw [statusOf]
            split_ifs
            · exact refl s
            · split
              rename_i failed ps heq
              rw [heq] at haged hrequests
              split_ifs
              · exact of_processes haged hrequests
              · exact of_processes (haged.trans (.anyOf (Subprocess.Later.isAlive s.now) x.members ps))
                  ((requests_anyOf (fun p => p.stopRequested_isAlive s.now) x.members ps).trans hrequests)

end Looks

def renewed (s : Supervisor) (id : PipelineId) (segments : Nat) : Supervisor :=
  ({ s with sequence := s.sequence + 1 } : Supervisor).setRegistry ((s.registry.reset id).init id segments)

def enrol (s : Supervisor) (x : Generation) : Supervisor := { s with generations := s.generations ++ [x] }

@[simp] theorem processes_enrol (s : Supervisor) (x : Generation) : (s.enrol x).processes = s.processes := rfl

inductive Effect (s : Supervisor) : Call → Supervisor → Option Call → Prop where
  | looks {c : Call} {s' : Supervisor} {c' : Option Call} :
      s.Looks s' → c.stake.IsFree → (Call.left c').IsFree →
      (∀ id, c.stake = .cleared id → Call.left c' = .cleared id) → Effect s c s' c'
  /-- The pipeline was not active, and its start is given up. -/
  | refused {id : PipelineId} {o : StartOptions} {stage : StartStage} :
      (Call.start id o stage).stake = .cleared id → Effect s (.start id o stage) (s.unmark id) none
  /-- A start finds that all processes of a generation are gone. -/
  | released {id : PipelineId} {o : StartOptions} {g : Nat} {s₁ : Supervisor} : s.Looks s₁ →
      Effect s (.start id o (.inspecting g)) ((s₁.deactivate id).cancel g) (some (.start id o .fetching))
  /-- A process could not be started. -/
  | unwound {env : Surroundings} {id : PipelineId} {o : StartOptions} {graph : Graph} {segments : Nat}
      {specs : List WorkerSpec} {ms : List Member} {e : Error} {s' : Supervisor} :
      spawnAll env specs [] (s.renewed id segments) = (some e, ms, s') →
      Effect s (.start id o (.validating graph)) s' (some (.start id o (.unwinding (Teardown.ofMembers ms) e)))
  | launched {env : Surroundings} {id : PipelineId} {o : StartOptions} {graph : Graph} {report : Report} {p : Plan}
      {tag : String} {ms : List Member} {r : StartReport} {s' : Supervisor} :
      graph.requireValid env.reachable = .ok report → Plan.compile graph = .ok p →
      spawnAll env (specs s.config id (p.assignGroups s.config.groupPrefix tag) graph.inputs o.producer) []
        (s.renewed id (p.assignGroups s.config.groupPrefix tag).clusters.length) = (none, ms, s') →
      Effect s (.start id o (.validating graph))
        (s'.enrol { pipeline := id, members := ms, runtime := o.runtime, startedAt := s'.now })
        (some (.start id o (.enlisting s'.generations.length r)))
  | unwinds {id : PipelineId} {o : StartOptions} {t t' : Teardown} {e : Error} {s' : Supervisor} :
      t.next s = .later t' s' → Effect s (.start id o (.unwinding t e)) s' (some (.start id o (.unwinding t' e)))
  | failed {id : PipelineId} {o : StartOptions} {t : Teardown} {e : Error} {message : String} : t.processes = [] →
      Effect s (.start id o (.unwinding t e)) ((s.setRegistry (s.registry.fail id message).2).unmark id) none
  | enlisted {id : PipelineId} {o : StartOptions} {g : Nat} {r : StartReport} : s.activeHeld = false →
      Effect s (.start id o (.enlisting g r))
        (({ (s.modifyGeneration g fun x => { x with startedAt := s.now }) with
            active := s.active.filter (·.1 ≠ id) ++ [(id, g)] } : Supervisor).unmark id) none
  /-- A stop or an abort takes the generation of a pipeline out of the active ones. -/
  | taken {id : PipelineId} {g : Nat} {c c' : Call} : s.activeHeld = false → s.generation? id = some g →
      (c = .stop id .asked ∧ c' = .stop id (.ending g .joining) ∨
        ∃ moved, c = .abort id (.marked moved) ∧ c' = .abort id (.ending moved g .joining)) →
      Effect s c ((s.deactivate id).cancel g) (some c')
  | takenAll {id : PipelineId} {g : Nat} {rest : List (PipelineId × Nat)} : s.activeHeld = false →
      s.active = (id, g) :: rest →
      Effect s (.shutdownAll .asked) (({ s with active := [] } : Supervisor).cancel g)
        (some (.shutdownAll (.ending ((id, g) :: rest) .joining)))
  | aborted {id : PipelineId} {moved : Bool} :
      Effect s (.abort id .asked) (s.setRegistry (s.registry.abort id).2) (some (.abort id (.marked moved)))
  | goesOn {c c' : Call} {id : PipelineId} {g : Nat} {t t' : Takedown} {runs : List (PipelineId × Nat × Takedown)}
      {s' : Supervisor} : c.stake = .ending ((id, g, t) :: runs) → c'.stake = .ending ((id, g, t') :: runs) →
      c'.farewell? = c.farewell? → s.stepTakedown g t = some (some t', s') → Effect s c s' (some c')
  /-- The processes of the last generation that the call is to end are gone, and it takes its leave of the run. -/
  | ended {c : Call} {id : PipelineId} {g : Nat} {t : Takedown} {s₁ : Supervisor} {bus : Bus} :
      c.stake = .ending [(id, g, t)] → s.stepTakedown g t = some (none, s₁) →
      (∀ message, c.farewell? = some message → bus.registry = (s₁.registry.abort id message).2) →
      (c.farewell? = none → bus.registry = s₁.registry) → Effect s c { s₁ with bus } none
  | next {id id' : PipelineId} {g g' : Nat} {rest : List (PipelineId × Nat)} {t : Takedown} {s₁ : Supervisor} :
      s.stepTakedown g t = some (none, s₁) →
      Effect s (.shutdownAll (.ending ((id, g) :: (id', g') :: rest) t))
        ((s₁.setRegistry (s₁.registry.abort id "Supervisor shut down").2).cancel g')
        (some (.shutdownAll (.ending ((id', g') :: rest) .joining)))

/-! ### Every step is of one of these kinds -/

theorem Effect.calm {c : Call} {c' : Option Call} (hlooks : s.Looks s') (h : c.stake.IsFree)
    (hcleared : ∀ id, c.stake ≠ .cleared id) (h' : (Call.left c').IsFree) : Effect s c s' c' :=
  .looks hlooks h h' fun id hid => absurd hid (hcleared id)

theorem effect_markStarting (s : Supervisor) (id : PipelineId) (o : StartOptions) :
    (s.markStarting id o).Does (Effect s (.start id o .asked)) := by
  have hmark : s.Looks { s with starting := s.starting ++ [id] } := .of_same rfl rfl rfl rfl rfl
  rw [markStarting]
  split_ifs
  · exact .calm (.refl s) trivial (fun _ h => by cases h) trivial
  · dsimp only
    split
    · exact .calm (.of_same rfl rfl rfl rfl rfl) trivial (fun _ h => by cases h) trivial
    · exact .calm hmark trivial (fun _ h => by cases h) trivial

theorem effect_inspect (s : Supervisor) (id : PipelineId) (o : StartOptions) (g : Nat) :
    (s.inspect id o g).Does (Effect s (.start id o (.inspecting g))) := by
  have hlook := Looks.anyAlive s g
  rw [inspect]
  split
  rename_i alive s₁ heq
  rw [heq] at hlook
  have hback : s.Looks { s₁ with activeHeld := false } :=
    ⟨hlook.now, hlook.active, hlook.generations, hlook.registry, hlook.aged, hlook.requests⟩
  dsimp only
  split_ifs
  · exact .calm ⟨hback.now, hback.active, hback.generations, hback.registry, hback.aged, hback.requests⟩ trivial
      (fun _ h => by cases h) trivial
  · exact .released hback

theorem effect_launch (env : Surroundings) (s : Supervisor) (id : PipelineId) (o : StartOptions) {graph : Graph}
    {report : Report} {p : Plan} (hvalid : graph.requireValid env.reachable = .ok report)
    (hplan : Plan.compile graph = .ok p) :
    (launch env s id o graph report.warnings p).Does (Effect s (.start id o (.validating graph))) := by
  rw [launch]
  dsimp only
  split
  · rename_i e ms s' hspawn
    exact .unwound hspawn
  · rename_i ms s' hspawn
    exact .launched hvalid hplan hspawn

theorem effect_stepStart (env : Surroundings) (s : Supervisor) (id : PipelineId) (o : StartOptions)
    (stage : StartStage) : (stepStart env s id o stage).Does (Effect s (.start id o stage)) := by
  cases stage with
  | asked => exact effect_markStarting s id o
  | marked =>
      rw [stepStart]
      split_ifs
      · trivial
      · cases s.generation? id with
        | none => exact .calm (.refl s) trivial (fun _ h => by cases h) trivial
        | some g => exact .calm (.of_same rfl rfl rfl rfl rfl) trivial (fun _ h => by cases h) trivial
  | inspecting g =>
      rw [stepStart]
      split
      · split_ifs
        · trivial
        · exact effect_inspect s id o g
      · exact effect_inspect s id o g
  | fetching =>
      rw [stepStart]
      split
      · exact .refused rfl
      · exact .looks (.refl s) trivial trivial fun _ h => h
  | validating graph =>
      rw [stepStart, validateAndLaunch]
      cases hvalid : graph.requireValid env.reachable with
      | error e => exact .refused rfl
      | ok report =>
          dsimp only
          cases hplan : Plan.compile graph with
          | error e => exact .refused rfl
          | ok p => exact effect_launch env s id o hvalid hplan
  | unwinding t e =>
      rw [stepStart]
      cases hnext : t.next s with
      | wait => trivial
      | later t' s' => exact .unwinds hnext
      | finished s' =>
          obtain ⟨rfl, hempty⟩ := Teardown.next_finished hnext
          exact .failed hempty
  | enlisting g r =>
      rw [stepStart]
      split_ifs with hheld
      · trivial
      · exact .enlisted (Bool.eq_false_iff.mpr hheld)

theorem effect_stepStop (s : Supervisor) (id : PipelineId) (stage : StopStage) :
    (s.stepStop id stage).Does (Effect s (.stop id stage)) := by
  cases stage with
  | asked =>
      rw [stepStop]
      split_ifs with hheld
      · trivial
      · cases hactive : s.generation? id with
        | none => exact .calm (.refl s) trivial (fun _ h => by cases h) trivial
        | some g => exact .taken (Bool.eq_false_iff.mpr hheld) hactive (.inl ⟨rfl, rfl⟩)
  | ending g t =>
      rw [stepStop]
      cases hstep : s.stepTakedown g t with
      | none => trivial
      | some taken =>
          obtain ⟨_ | t', s'⟩ := taken
          · have hleave : ∃ bus, (s'.concludeStop id).2 = { s' with bus } ∧
                bus.registry = (s'.registry.abort id "Pipeline stopped").2 := by
              rw [concludeStop]
              dsimp only
              split_ifs <;> exact ⟨_, rfl, rfl⟩
            obtain ⟨bus, hbus, hregistry⟩ := hleave
            change Effect s (.stop id (.ending g t)) (s'.concludeStop id).2 none
            rw [hbus]
            refine .ended rfl hstep (fun message hmessage => ?_) fun hnone => by cases hnone
            obtain rfl := Option.some.inj hmessage
            exact hregistry
          · exact .goesOn rfl rfl rfl hstep

theorem effect_concludeAbort {s₁ : Supervisor} {moved : Bool} {t : Takedown}
    (hstep : s.stepTakedown g t = some (none, s₁)) :
    Effect s (.abort id (.ending moved g t)) (s₁.concludeAbort id moved).2 none := by
  have hleave : ∃ bus, (s₁.concludeAbort id moved).2 = { s₁ with bus } ∧ bus.registry = s₁.registry := by
    rw [concludeAbort]
    split_ifs <;> exact ⟨_, rfl, rfl⟩
  obtain ⟨bus, hbus, hregistry⟩ := hleave
  rw [hbus]
  exact .ended rfl hstep (fun _ hmessage => by cases hmessage) fun _ => hregistry

theorem effect_stepAbort (s : Supervisor) (id : PipelineId) (stage : AbortStage) :
    (s.stepAbort id stage).Does (Effect s (.abort id stage)) := by
  cases stage with
  | asked => exact .aborted
  | marked moved =>
      have hcalm {s' : Supervisor} (hlooks : s.Looks s') : Effect s (.abort id (.marked moved)) s' none :=
        .calm hlooks trivial (fun _ h => by cases h) trivial
      rw [stepAbort]
      split_ifs with hheld
      · trivial
      · cases hactive : s.generation? id with
        | some g => exact .taken (Bool.eq_false_iff.mpr hheld) hactive (.inr ⟨moved, rfl, rfl⟩)
        | none =>
            dsimp only
            split
            · exact hcalm (.refl s)
            · refine hcalm ?_
              rw [concludeAbort]
              split_ifs
              · exact .of_same rfl rfl rfl rfl rfl
              · exact .refl s
  | ending moved g t =>
      rw [stepAbort]
      cases hstep : s.stepTakedown g t with
      | none => trivial
      | some taken =>
          obtain ⟨_ | t', s'⟩ := taken
          · exact effect_concludeAbort hstep
          · exact .goesOn rfl rfl rfl hstep

theorem effect_stepShutdownAll (s : Supervisor) (stage : ShutdownStage) :
    (s.stepShutdownAll stage).Does (Effect s (.shutdownAll stage)) := by
  cases stage with
  | asked =>
      rw [stepShutdownAll]
      split_ifs with hheld
      · trivial
      · split
        · exact .calm (.refl s) trivial (fun _ h => by cases h) trivial
        · rename_i id g rest hactive
          exact .takenAll (Bool.eq_false_iff.mpr hheld) hactive
  | ending runs t =>
      cases runs with
      | nil => exact .calm (.refl s) trivial (fun _ h => by cases h) trivial
      | cons run rest =>
          obtain ⟨id, g⟩ := run
          rw [stepShutdownAll]
          cases hstep : s.stepTakedown g t with
          | none => trivial
          | some taken =>
              obtain ⟨_ | t', s'⟩ := taken
              · cases rest with
                | nil =>
                    refine .ended rfl hstep (fun message hmessage => ?_) fun hnone => by cases hnone
                    obtain rfl := Option.some.inj hmessage
                    rfl
                | cons run rest => exact .next hstep
              · exact .goesOn rfl rfl rfl hstep

theorem effect_step (env : Surroundings) (s : Supervisor) (c : Call) : (s.step env c).Does (Effect s c) := by
  cases c with
  | start id o stage => exact effect_stepStart env s id o stage
  | stop id stage => exact effect_stepStop s id stage
  | abort id stage => exact effect_stepAbort s id stage
  | shutdownAll stage => exact effect_stepShutdownAll s stage
  | status id run =>
      rw [step]
      cases run with
      | none => exact .calm (.refl s) trivial (fun _ h => by cases h) trivial
      | some run =>
          rw [stepStatus]
          split_ifs
          · trivial
          · exact .calm (.report s id run) trivial (fun _ h => by cases h) trivial

end Supervisor

end Pipeworks
