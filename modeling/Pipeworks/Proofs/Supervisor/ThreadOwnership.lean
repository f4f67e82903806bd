import Pipeworks.Proofs.Supervisor.ThreadSteps
import Pipeworks.Proofs.Supervisor.Aging

/-!
Who is responsible for processes when calls run on threads of their own. A thread has in its hands what its call has
there; a start that is starting processes has those that it started, though it cannot know yet whether they will be
those of a generation. The invariant of ownership holds at every point of every interleaving of threads.
-/

namespace Pipeworks

open Supervisor (Ages)

namespace Thread

def stake : Thread → Stake
  | calling c => c.stake
  | launching l (.spawning _ ms) => .unwinding l.id (Teardown.ofMembers ms)
  | launching l _ => .cleared l.id
  | failing id _ => .cleared id
  | leaving id (.failed _) => .cleared id
  | leaving id _ => .marked id
  | _ => .nothing

end Thread

theorem Call.leftover_eq_nil {c : Call} (h : c.isStart = false) : c.stake.leftover = [] := by
  cases c with
  | start id o stage => cases h
  | stop id stage => cases stage <;> rfl
  | abort id stage => cases stage <;> rfl
  | status id run => rfl
  | shutdownAll stage =>
      cases stage with
      | asked => rfl
      | ending runs t => cases runs <;> rfl

namespace Supervisor

variable {env : Surroundings} {s s' : Supervisor} {spec : WorkerSpec}

theorem spawnAll_of_ok {m : Member} (h : s.spawn env spec = (.ok m, s')) (ms : List Member) :
    spawnAll env [spec] ms s = (none, ms ++ [m], s') := by
  rw [spawnAll, h]
  rfl

theorem spawnAll_of_error {e : Error} (h : s.spawn env spec = (.error e, s')) (ms : List Member) :
    spawnAll env [spec] ms s = (some e, ms, s') := by
  rw [spawnAll, h]

end Supervisor

namespace Thread

variable {env : Surroundings} {s s' : Supervisor} {t t' : Thread} {others : List Stake}

theorem effect_of_does {c : Call} {n : Call.Next} (h : s.step env c = n) : n.Does (Supervisor.Effect s c) :=
  h ▸ Supervisor.effect_step env s c

namespace Does

theorem ages (h : Does env s t t' s') : s.Ages s' := by
  have hstays (s : Supervisor) : s.Ages s := .of_quiet (.refl s)
  cases h with
  | later _ hstep => exact .of_effect (effect_of_does hstep)
  | answers _ hstep => exact .of_effect (effect_of_does hstep)
  | @joined id _ g t _ hstep =>
      have he : Supervisor.Effect s (.abort id (.ending false g t)) s' none := Supervisor.effect_concludeAbort hstep
      exact .of_effect he
  | concludes => exact .of_quiet (Supervisor.quiet_concludeAbort _ _ _)
  | alive => exact .of_aged (Supervisor.Quiet.anyAlive _ _).aged (Supervisor.Quiet.anyAlive _ _).crews
  | @dead id _ g _ =>
      have hlook : s.Ages (s.anyAlive g).2 := .of_quiet (.anyAlive s g)
      have hdrop : (s.anyAlive g).2.Ages (Supervisor.deactivate { (s.anyAlive g).2 with activeHeld := false } id) :=
        .of_aged (.refl _ _) rfl
      exact (hlook.trans hdrop).trans (.of_quiet (.cancel _ g))
  | spawns hspawn => exact .of_grown (Supervisor.spawnAll_spec (Supervisor.spawnAll_of_ok hspawn [])).1
  | breaks hspawn => exact .of_grown (Supervisor.spawnAll_spec (Supervisor.spawnAll_of_error hspawn [])).1
  | enrols _ _ => exact ⟨(hstays s).later, [_], List.map_append⟩
  | unwinds hnext => exact .of_quiet (Teardown.quiet_of_next_later hnext)
  | @enters id _ g _ _ =>
      have hrestart : s.Quiet (s.modifyGeneration g fun x => { x with startedAt := s.now }) :=
        .modifyGeneration s g fun _ => rfl
      exact (Ages.of_quiet hrestart).trans (.of_aged (.refl _ _) rfl)
  | doubts | unknown | known | barred | waived | refused | fetched | compiled | unwound => exact hstays s
  | unfit | marks | takes | numbers | forgets | records | fails | leaves => exact .of_aged (.refl _ _) rfl

/-- What a thread has in its hands after a step it had before, or has just started. -/
theorem leftover (h : Does env s t t' s') {i : Nat} (hi : i ∈ t'.stake.leftover) :
    i ∈ t.stake.leftover ∨ i < s'.processes.length := by
  cases h with
  | later hc hstep =>
      have habstains := Supervisor.abstains_step env (s := s) hc
      rw [hstep] at habstains
      exact absurd (Call.leftover_eq_nil habstains.1 ▸ hi) List.not_mem_nil
  | spawns hspawn =>
      obtain ⟨-, -, hmembers⟩ := Supervisor.spawnAll_spec (Supervisor.spawnAll_of_ok hspawn _)
      rcases (hmembers i).mp (Supervisor.mem_shutdownOrder.mp hi) with hold | hnew
      · exact .inl (Supervisor.mem_shutdownOrder.mpr hold)
      · exact .inr hnew.2
  | breaks => exact .inl hi
  | unwinds hnext => exact .inl ((Teardown.sublist_of_next_later hnext).subset hi)
  | _ => exact absurd hi List.not_mem_nil

theorem sound (h : Does env s t t' s') (hs : s.Sound (t.stake :: others))
    (hbounded : ∀ i ∈ t.stake.leftover, i < s.processes.length) : s'.Sound (t'.stake :: others) := by
  cases h with
  | @later c _ _ hc hstep =>
      have hstep' := Supervisor.Sound.step env c hs
      rw [hstep] at hstep'
      exact hstep'
  | @answers c _ _ hc hstep =>
      have hstep' := Supervisor.Sound.step env c hs
      rw [hstep] at hstep'
      exact hstep'
  | joined hstep => exact (hs.stepTakedown_done hstep).ended
  | @concludes id moved => exact Supervisor.Sound.concludeAbort hs moved
  | doubts | unknown | known | barred | fetched | compiled => exact hs
  -- a start on the way to its launch
  | unfit hid => exact Supervisor.Sound.mark hs hid
  | marks hid => exact Supervisor.Sound.mark hs hid
  | waived hactive => exact Supervisor.Sound.clear hs (Supervisor.idle_of_generation? hactive)
  | takes hfree hactive => exact Supervisor.Sound.take hs hfree (Supervisor.mem_active_of_generation? hactive)
  | alive => exact Supervisor.Sound.giveBack (hs.quiet (.anyAlive _ _))
  | @dead id o g hnone =>
      have hinspect := Supervisor.Sound.inspect hs o
      rw [Supervisor.inspect] at hinspect
      simp only [hnone] at hinspect
      exact hinspect
  | refused hcleared =>
      change s.Sound ((Call.start _ _ _).stake :: others) at hs
      rw [hcleared] at hs
      exact hs.marked_of_cleared
  -- a launch
  | numbers => exact hs.quiet ⟨rfl, rfl, rfl, rfl, .refl _ _⟩
  | forgets => exact hs.quiet (.setRegistry _ _)
  | records => exact (hs.quiet (.setRegistry _ _)).gather
  | spawns hspawn => exact Supervisor.Sound.unwind hs (Supervisor.spawnAll_of_ok hspawn _)
  | breaks hspawn => exact Supervisor.Sound.unwind hs (Supervisor.spawnAll_of_error hspawn _)
  | enrols hx _ =>
      exact Supervisor.Sound.found hs hx fun i hi => hbounded i (Supervisor.mem_shutdownOrder.mpr hi)
  -- the end of a start
  | @unwinds id o _ _ e _ hnext =>
      have hstep := Supervisor.Sound.stepStart (.unwinding _ e) o env hs
      rw [Supervisor.stepStart, hnext] at hstep
      exact hstep
  | @unwound _ _ t _ hempty =>
      have hidle := (hs.fits _ List.mem_cons_self).1
      refine Supervisor.Sound.swap hs rfl (fun hlock => hlock) hidle (fun i hi => ?_) fun g hg => ?_
      · have hi : i ∈ t.processes := hi
        rw [hempty] at hi
        exact absurd hi List.not_mem_nil
      · exact absurd hg List.not_mem_nil
  | fails => exact hs.quiet (.setRegistry _ _)
  | enters hfree => exact Supervisor.Sound.enlist hs hfree
  | @leaves id o =>
      cases o with
      | failed e => exact (Supervisor.Sound.marked_of_cleared hs).unmark
      | refused e => exact Supervisor.Sound.unmark hs
      | entered r => exact Supervisor.Sound.unmark hs

end Does

end Thread

namespace Threads

variable {config : Config} {x x' : Threads} {m : Move}

theorem Happens.ages (h : x.Happens m x') : x.supervisor.Ages x'.supervisor := by
  cases h with
  | asks _ => exact .of_quiet (.refl _)
  | goes _ hdoes => exact hdoes.ages
  | drifts _ hdrifts => exact .of_quiet hdrifts.quiet

structure Owned (x : Threads) : Prop where
  sound : x.supervisor.Sound (x.threads.map Thread.stake)
  contained : ∀ t ∈ x.threads, ∀ i ∈ t.stake.leftover, i < x.supervisor.processes.length

/-- Whatever happens keeps the invariant, and it leaves alone what is in the hands of others than the threads. -/
theorem Happens.sound (h : x.Happens m x') (others : List Stake)
    (hsound : x.supervisor.Sound (x.threads.map Thread.stake ++ others))
    (hcontained : ∀ t ∈ x.threads, ∀ i ∈ t.stake.leftover, i < x.supervisor.processes.length) :
    x'.supervisor.Sound (x'.threads.map Thread.stake ++ others) := by
  cases h with
  | @asks c hnew =>
      refine (Supervisor.sound_nothing_cons.mpr hsound).perm ?_
      rw [List.map_append, List.map_cons, List.map_nil, Thread.stake, Scene.stake_of_isNew hnew]
      exact (List.perm_append_singleton _ _).symm.append_right others
  | @goes k env t t' s' ht hdoes =>
      obtain ⟨hk, rfl⟩ := List.getElem?_eq_some_iff.mp ht
      have hown := hsound.perm (((List.getElem_cons_eraseIdx_perm hk).symm.map Thread.stake).append_right others)
      have hbounded := hcontained _ (List.getElem_mem hk)
      exact (hdoes.sound hown hbounded).perm
        (((List.set_perm_cons_eraseIdx hk t').symm.map Thread.stake).append_right others)
  | drifts _ hdrifts => exact hsound.quiet hdrifts.quiet

theorem Happens.contained (h : x.Happens m x')
    (hcontained : ∀ t ∈ x.threads, ∀ i ∈ t.stake.leftover, i < x.supervisor.processes.length) :
    ∀ t ∈ x'.threads, ∀ i ∈ t.stake.leftover, i < x'.supervisor.processes.length := by
  have hlength := h.ages.length_processes
  refine h.threads (fun t ht i hi => (hcontained t ht i hi).trans_le hlength) ?_ ?_
  · rintro c - hnew i hi
    rw [Thread.stake, Scene.stake_of_isNew hnew] at hi
    exact absurd hi List.not_mem_nil
  · rintro t t' env ht hdoes i hi
    exact (hdoes.leftover hi).elim (fun hi => (hcontained t ht i hi).trans_le hlength) id

theorem Owned.happens (hx : x.Owned) (h : x.Happens m x') : x'.Owned where
  sound := by
    have hsound := h.sound [] (by rw [List.append_nil]; exact hx.sound) hx.contained
    rwa [List.append_nil] at hsound
  contained := h.contained hx.contained

theorem Reachable.owned (h : Reachable config x) : x.Owned := by
  refine Leads.invariant (fun y m y' _ hy hplay => hy.happens (happens_of_play hplay)) h ⟨?_, ?_⟩
  · exact Scene.sound_ofConfig config
  · exact fun t ht => absurd ht List.not_mem_nil

end Threads

end Pipeworks
