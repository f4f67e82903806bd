import Pipeworks.Supervisor.Threads
import Pipeworks.Proofs.Supervisor.Scene
import Mathlib.Logic.Relation
import Mathlib.Tactic.Common

/-!
A supervisor whose calls run on threads of their own. A thread with which nobody interferes does step by step what its
call does at once; the interleavings of several threads are the sequences of moves. A thread keeps its place when its
call is over, so that the places stand for the calls in the order in which they were made.
-/

namespace Pipeworks

open Relation (ReflTransGen)

namespace Thread

variable {env : Surroundings} {s s' : Supervisor}

/-! ### A thread of its own -/

def Goes (env : Surroundings) (a b : Thread × Supervisor) : Prop := a.1.step env a.2 = some b

def Meets (n : Call.Next) (P : Thread × Supervisor → Prop) : Prop :=
  match n with
  | .answer a s => P (answered a, s)
  | .later c s => P (calling c, s)
  | .wait => True

theorem goes_of_ofNext {t : Thread} {n : Call.Next} (h : t.step env s = ofNext n) :
    Meets n (ReflTransGen (Goes env) (t, s)) := by
  cases n with
  | answer a s' => exact .single h
  | later c s' => exact .single h
  | wait => trivial

theorem goes_leaving (id : PipelineId) (o : Outcome) (s : Supervisor) :
    Goes env (leaving id o, s) (answered (.started o.result), s.unmark id) := rfl

theorem goes_failing (id : PipelineId) (e : Error) (s : Supervisor) :
    Goes env (failing id e, s) (leaving id (.failed e),
      s.setRegistry (s.registry.fail id ("Failed to start pipeline: " ++ e.message)).2) := rfl

theorem goes_concluding (id : PipelineId) (moved : Bool) (s : Supervisor) :
    Goes env (concluding id moved, s) (answered (s.concludeAbort id moved).1, (s.concludeAbort id moved).2) := rfl

theorem goes_launching (l : Launch) (stage : LaunchStage) (s : Supervisor) :
    Goes env (launching l stage, s) (stepLaunch env s l stage) := rfl

theorem goes_refuse {t : Thread} {id : PipelineId} {e : Error} (h : t.step env s = some (refuse s' id e)) :
    Meets (s'.refuse id e) (ReflTransGen (Goes env) (t, s)) :=
  .tail (.single h) (goes_leaving id (.refused e) s')

theorem goes_markStarting (s : Supervisor) (id : PipelineId) (o : StartOptions) :
    Meets (s.markStarting id o) (ReflTransGen (Goes env) (calling (.start id o .asked), s)) := by
  have hstep : (calling (.start id o .asked)).step env s = some (markStarting s id o) := rfl
  rw [Supervisor.markStarting]
  rw [markStarting] at hstep
  split_ifs with hid
  · rw [if_pos hid] at hstep
    exact .single hstep
  · rw [if_neg hid] at hstep
    dsimp only at hstep ⊢
    split
    · rename_i e he
      rw [he] at hstep
      exact goes_refuse hstep
    · rename_i hfit
      refine .single (hstep.trans ?_)
      split
      · rename_i e he
        exact absurd he (hfit e)
      · rfl

theorem goes_inspect {id : PipelineId} {o : StartOptions} {g : Nat} {t : Thread}
    (h : t.step env s = some (inspect s id o g)) : Meets (s.inspect id o g) (ReflTransGen (Goes env) (t, s)) := by
  rw [Supervisor.inspect]
  rw [inspect] at h
  split
  rename_i alive s₁ heq
  rw [heq] at h
  dsimp only at h ⊢
  split_ifs with halive
  · rw [if_pos halive] at h
    exact goes_refuse h
  · rw [if_neg halive] at h
    exact .single h

/-- Processes that are started one by one are those that are started at once. -/
theorem goes_spawnAll (l : Launch) (specs : List WorkerSpec) (ms : List Member) (s : Supervisor) :
    ReflTransGen (Goes env) (launching l (.spawning specs ms), s)
      (match Supervisor.spawnAll env specs ms s with
        | (some e, ms', s') => (calling (.start l.id l.options (.unwinding (Teardown.ofMembers ms') e)), s')
        | (none, ms', s') => (launching l (.spawning [] ms'), s')) := by
  induction specs generalizing ms s with
  | nil => exact .refl
  | cons spec specs ih =>
      have hstep : Goes env (launching l (.spawning (spec :: specs) ms), s) _ := goes_launching l _ s
      rw [stepLaunch] at hstep
      rw [Supervisor.spawnAll]
      rcases hspawn : s.spawn env spec with ⟨e | m, s₁⟩
      · rw [hspawn] at hstep
        exact .single hstep
      · rw [hspawn] at hstep
        exact .head hstep (ih _ _)

theorem goes_launch (id : PipelineId) (o : StartOptions) (graph : Graph) (warnings : List String) (p : Plan) {t : Thread}
    (h : t.step env s = some (launching ⟨id, o, graph, warnings, p⟩ .numbering, s)) :
    Meets (Supervisor.launch env s id o graph warnings p) (ReflTransGen (Goes env) (t, s)) := by
  rw [Supervisor.launch]
  dsimp only
  set plan := p.assignGroups s.config.groupPrefix (env.stamp ++ "-" ++ toString s.sequence)
  set s₁ : Supervisor := { s with sequence := s.sequence + 1 }
  set s₂ := s₁.setRegistry ((s₁.registry.reset id).init id plan.clusters.length)
  -- the number, the last record and the new one
  have hthree : ReflTransGen (Goes env) (t, s)
      (launching ⟨id, o, graph, warnings, plan⟩
        (.spawning (Supervisor.specs s₂.config id plan graph.inputs o.producer) []), s₂) :=
    .tail (.tail (.tail (.single h) (goes_launching _ .numbering _)) (goes_launching _ .forgetting _))
      (goes_launching _ .recording _)
  have hspawned := hthree.trans (goes_spawnAll _ _ _ _)
  split
  · rename_i e ms s₃ hspawn
    rw [hspawn] at hspawned
    exact hspawned
  · rename_i ms s₃ hspawn
    rw [hspawn] at hspawned
    exact hspawned.tail (goes_launching _ _ _)

theorem goes_stepStart (id : PipelineId) (o : StartOptions) (stage : StartStage) :
    Meets (Supervisor.stepStart env s id o stage) (ReflTransGen (Goes env) (calling (.start id o stage), s)) := by
  -- where a call does several things at once, its thread takes a step for each of them
  cases stage with
  | asked => exact goes_markStarting s id o
  | marked => exact goes_of_ofNext rfl
  | inspecting g =>
      have hstep : (calling (.start id o (.inspecting g))).step env s =
        if (s.generations[g]?).any (·.held) then none else some (inspect s id o g) := rfl
      rw [Supervisor.stepStart]
      cases hx : s.generations[g]? with
      | none =>
          rw [hx] at hstep
          exact goes_inspect hstep
      | some x =>
          rw [hx] at hstep
          dsimp only
          split_ifs with hheld
          · trivial
          · rw [Option.any_some, if_neg hheld] at hstep
            exact goes_inspect hstep
  | fetching =>
      have hstep : (calling (.start id o .fetching)).step env s = stepStart env s id o .fetching := rfl
      rw [stepStart] at hstep
      rw [Supervisor.stepStart]
      cases hfetch : Supervisor.fetch env id with
      | error e =>
          rw [hfetch] at hstep
          exact goes_refuse hstep
      | ok graph =>
          rw [hfetch] at hstep
          exact .single hstep
  | validating graph =>
      have hstep : (calling (.start id o (.validating graph))).step env s = some (validate env s id o graph) := rfl
      rw [Supervisor.stepStart, Supervisor.validateAndLaunch]
      rw [validate] at hstep
      cases hvalid : graph.requireValid env.reachable with
      | error e =>
          rw [hvalid] at hstep
          exact goes_refuse hstep
      | ok report =>
          rw [hvalid] at hstep
          dsimp only at hstep ⊢
          cases hplan : Plan.compile graph with
          | error e =>
              rw [hplan] at hstep
              exact goes_refuse hstep
          | ok p =>
              rw [hplan] at hstep
              exact goes_launch id o graph report.warnings p hstep
  | unwinding t e =>
      have hstep : (calling (.start id o (.unwinding t e))).step env s = stepStart env s id o (.unwinding t e) := rfl
      rw [stepStart] at hstep
      rw [Supervisor.stepStart]
      cases hnext : t.next s with
      | wait => trivial
      | later t' s' =>
          rw [hnext] at hstep
          exact .single hstep
      | finished s' =>
          rw [hnext] at hstep
          exact .tail (.tail (.single hstep) (goes_failing id e s')) (goes_leaving id (.failed e) _)
  | enlisting g r =>
      have hstep : (calling (.start id o (.enlisting g r))).step env s =
        if s.activeHeld then none
        else
          let s := (s.modifyGeneration g fun x => { x with startedAt := s.now }).deactivate id
          some (leaving id (.entered r), { s with active := s.active ++ [(id, g)] }) := rfl
      rw [Supervisor.stepStart]
      split_ifs with hheld
      · trivial
      · rw [if_neg hheld] at hstep
        exact .tail (.single hstep) (goes_leaving id (.entered r) _)

theorem goes_stepAbort (id : PipelineId) (stage : AbortStage) :
    Meets (s.stepAbort id stage) (ReflTransGen (Goes env) (calling (.abort id stage), s)) := by
  cases stage with
  | asked => exact goes_of_ofNext rfl
  | marked moved =>
      have hstep : (calling (.abort id (.marked moved))).step env s =
        if ¬s.activeHeld ∧ s.generation? id = none then some (doubting id moved, s)
        else ofNext (s.stepAbort id (.marked moved)) := rfl
      by_cases hnone : ¬s.activeHeld ∧ s.generation? id = none
      · rw [if_pos hnone] at hstep
        rw [Supervisor.stepAbort, if_neg hnone.1, hnone.2]
        dsimp only
        cases hrun : s.registry.get? id with
        | none =>
            have hdoubt : Goes env (doubting id moved, s)
                (answered (.control ⟨id, .notFound, s!"No run found for pipeline {id}"⟩), s) := by
              rw [Goes, step, hrun]
            exact .tail (.single hstep) hdoubt
        | some r =>
            have hdoubt : Goes env (doubting id moved, s) (concluding id moved, s) := by rw [Goes, step, hrun]
            exact .tail (.tail (.single hstep) hdoubt) (goes_concluding id moved s)
      · rw [if_neg hnone] at hstep
        exact goes_of_ofNext hstep
  | ending moved g t =>
      have hstep : (calling (.abort id (.ending moved g t))).step env s = stepAbort s id (.ending moved g t) := rfl
      rw [stepAbort] at hstep
      rw [Supervisor.stepAbort]
      cases htakedown : s.stepTakedown g t with
      | none => trivial
      | some taken =>
          obtain ⟨_ | t', s'⟩ := taken
          · rw [htakedown] at hstep
            exact .tail (.single hstep) (goes_concluding id moved s')
          · rw [htakedown] at hstep
            exact .single hstep

/-- With nobody in between, a thread comes to what its call comes to by one step. -/
theorem goes_step (env : Surroundings) (s : Supervisor) (c : Call) :
    Meets (s.step env c) (ReflTransGen (Goes env) (calling c, s)) := by
  cases c with
  | start id o stage => exact goes_stepStart id o stage
  | stop id stage => exact goes_of_ofNext rfl
  | abort id stage => exact goes_stepAbort id stage
  | status id run => exact goes_of_ofNext rfl
  | shutdownAll stage => exact goes_of_ofNext rfl

end Thread

/-! ### Many threads -/

namespace Threads

def Moves (P : Move → Prop) (x y : Threads) : Prop := ∃ m, P m ∧ x.play m = some y

def Leads (P : Move → Prop) : Threads → Threads → Prop := ReflTransGen (Moves P)

def Reachable (config : Config) (x : Threads) : Prop := Leads (fun _ => True) (ofConfig config) x

variable {x x' y : Threads} {m : Move} {k : Nat} {env : Surroundings} {P Q : Move → Prop}

theorem Leads.plays (ms : List Move) (hms : ∀ m ∈ ms, P m) (hplayed : ms.foldlM play x = some y) : Leads P x y := by
  induction ms generalizing x with
  | nil => exact Option.some.inj hplayed ▸ .refl
  | cons m ms ih =>
      rw [List.foldlM_cons] at hplayed
      obtain ⟨z, hz, hrest⟩ := Option.bind_eq_some_iff.mp hplayed
      exact .head ⟨m, hms m (by simp), hz⟩ (ih (fun m' hm' => hms m' (by simp [hm'])) hrest)

theorem Leads.invariant {I : Threads → Prop} (hplay : ∀ x m x', P m → I x → x.play m = some x' → I x')
    (h : Leads P x y) (hx : I x) : I y := by
  induction h with
  | refl => exact hx
  | tail _ hmove ih =>
      obtain ⟨m, hm, hplayed⟩ := hmove
      exact hplay _ _ _ hm ih hplayed

theorem proceed_eq_some (h : x.proceed k env = some x') :
    ∃ t t', x.threads[k]? = some t ∧ t.step env x.supervisor = some (t', x'.supervisor) ∧
      x'.threads = x.threads.set k t' := by
  obtain ⟨t, ht, hstep⟩ := Option.bind_eq_some_iff.mp h
  obtain ⟨⟨t', s⟩, hgoes, rfl⟩ := Option.map_eq_some_iff.mp hstep
  exact ⟨t, t', ht, hgoes, rfl⟩

/-! ### Histories -/

theorem History.reachable {config : Config} {τ : List Deed} (h : History config τ x) : Reachable config x := by
  induction h with
  | start => exact .refl
  | move _ hplay ih => exact ih.tail ⟨_, trivial, hplay⟩

theorem History.plays {config : Config} {τ : List Deed} (h : History config τ x) (ms : List Move)
    (hplayed : ms.foldlM play x = some y) : History config (τ ++ x.trace ms) y := by
  induction ms generalizing τ x with
  | nil =>
      obtain rfl := Option.some.inj hplayed
      rwa [trace, List.append_nil]
  | cons m ms ih =>
      rw [List.foldlM_cons] at hplayed
      obtain ⟨z, hz, hrest⟩ := Option.bind_eq_some_iff.mp hplayed
      rw [trace, hz]
      have htail := ih (h.move hz) hrest
      rwa [List.append_assoc, List.singleton_append] at htail

end Threads

end Pipeworks
