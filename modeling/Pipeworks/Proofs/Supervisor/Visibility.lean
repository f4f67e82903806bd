import Pipeworks.Proofs.Supervisor.AbortedRuns
import Pipeworks.Proofs.Supervisor.Mourning

/-!
How long a failure is to be seen. A status call says that a pipeline has failed because its record says so, or because
a process of its active generation has died. A record that says so stays until the next start. A death of which the
record says nothing yet is seen only as long as the generation is active and nobody holds its processes: a call that
takes the generation out of the active ones before its monitor has looked leaves nothing of the failure.
-/

namespace Pipeworks

/-! ### What a status call says -/

theorem Member.anyOf_of_mem {ask : Subprocess → Bool × Subprocess} (hask : ∀ p, (ask (ask p).2).1 = (ask p).1)
    {ms : List Member} {ps : List Subprocess} {m : Member} (hm : m ∈ ms) {p : Subprocess}
    (hp : ps[m.process]? = some p) (hyes : (ask p).1 = true) : (anyOf ask ms ps).1 = true := by
  have hfst := @findAnswer_fst Unit (fun p => (if (ask p).1 then some () else none, (ask p).2))
    (fun p => by simp only [hask]) ms ps
  by_contra hno
  have hnone : (findAnswer (fun p => (if (ask p).1 then some () else none, (ask p).2)) ms ps).1 = none :=
    Option.not_isSome_iff_eq_none.mp hno
  rw [hnone, Option.map_none] at hfst
  have hmember := List.findSome?_eq_none_iff.mp hfst.symm m hm
  simp [answer?, hp, hyes] at hmember

namespace Supervisor

variable {s s' : Supervisor} {id : PipelineId} {g i : Nat} {y : Generation} {status : ExitStatus}
  {run : Option RunState} {stakes : List Stake}

theorem run_report (s : Supervisor) (id : PipelineId) (run : Option RunState) : (s.report id run).1.run = run := by
  rw [report]
  cases s.generation? id with
  | none =>
      dsimp only
      split_ifs <;> rfl
  | some g =>
      dsimp only
      cases s.generations[g]? with
      | none => rfl
      | some y =>
          dsimp only
          split_ifs <;> rfl

/-- What the record says of a failure is passed on, unless the pipeline is starting. -/
theorem status_report_of_failed (hs : s.Sound stakes) (hstarting : id ∉ s.starting) {r : RunState}
    (hfailed : r.status = .failed) : (s.report id (some r)).1.status = .failed := by
  rw [report]
  cases hactive : s.generation? id with
  | none => simp [hstarting, hfailed]
  | some g =>
      obtain ⟨y, hy, -⟩ := hs.known id g (mem_active_of_generation? hactive)
      dsimp only
      rw [hy]
      dsimp only
      split_ifs
      · simp [statusWhileHeld, hfailed]
      · simp [statusOf, hfailed]

theorem fst_statusOf_of_died (hi : i ∈ y.processes) (hdied : s.Died i status) (hfailure : status.isSuccess = false)
    (hasFailed : Bool) : (s.statusOf y hasFailed).1 = .failed := by
  obtain ⟨p, hp, hend⟩ := hdied
  obtain ⟨m, hm, rfl⟩ := List.mem_map.mp hi
  have hfailed : (p.failed s.now).1 = true := by
    change ((p.exitedUnexpectedly s.now).1.any fun status => !status.isSuccess) = true
    rw [hend, Option.any_some, hfailure]
    rfl
  have hany := Member.anyOf_of_mem (Subprocess.failed_again s.now) hm hp hfailed
  cases hasFailed <;> simp [statusOf, hany]

/-- A process of the active generation that has died with a failure is noticed, unless somebody holds its processes. -/
theorem status_report_of_died (hactive : s.generation? id = some g) (hy : s.generations[g]? = some y)
    (hfree : y.held = false) (hi : i ∈ y.processes) (hdied : s.Died i status) (hfailure : status.isSuccess = false) :
    (s.report id run).1.status = .failed := by
  rw [report]
  dsimp only
  rw [hactive]
  dsimp only
  rw [hy]
  dsimp only
  rw [hfree, if_neg Bool.false_ne_true]
  exact fst_statusOf_of_died hi hdied hfailure _

theorem Sound.generation?_of_mem (hs : s.Sound stakes) (hg : (id, g) ∈ s.active) : s.generation? id = some g := by
  cases hactive : s.generation? id with
  | none => exact absurd hg (idle_of_generation? hactive g)
  | some g' => rw [hs.eq_of_mem_active hg (mem_active_of_generation? hactive)]

theorem Effect.active {c : Call} {c' : Option Call} (he : Effect s c s' c') (hc : c.isStart = false)
    (id : PipelineId) : (∀ g, (id, g) ∈ s.active → (id, g) ∈ s'.active) ∨
      (c = .stop id .asked ∨ (∃ moved, c = .abort id (.marked moved)) ∨ c = .shutdownAll .asked) ∧ s'.Idle id := by
  have hsame {s' : Supervisor} (hactive : s'.active = s.active) :
      (∀ g, (id, g) ∈ s.active → (id, g) ∈ s'.active) := fun g hg => hactive ▸ hg
  cases he with
  | looks hlooks => exact .inl (hsame hlooks.active)
  | @taken id' g c c' _ _ hcall =>
      by_cases hid : id' = id
      · subst hid
        refine .inr ⟨?_, fun g hg => by simpa using (List.mem_filter.mp hg).2⟩
        rcases hcall with ⟨rfl, -⟩ | ⟨moved, rfl, -⟩
        · exact .inl rfl
        · exact .inr (.inl ⟨moved, rfl⟩)
      · exact .inl fun g hg => List.mem_filter.mpr ⟨hg, by simpa using fun heq => hid heq.symm⟩
  | takenAll => exact .inr ⟨.inr (.inr rfl), fun g hg => absurd hg List.not_mem_nil⟩
  | aborted => exact .inl (hsame rfl)
  | goesOn _ _ _ hstep => exact .inl (hsame (flags_stepTakedown hstep).2)
  | ended _ hstep => exact .inl (hsame (flags_stepTakedown hstep).2)
  | next hstep => exact .inl (hsame (flags_stepTakedown hstep).2)
  | refused | released | unwound | launched | unwinds | failed | enlisted => cases hc

end Supervisor

namespace Thread

variable {env : Surroundings} {s s' : Supervisor} {t t' : Thread} {id : PipelineId}

inductive TakesOut (id : PipelineId) : Thread → Prop where
  | stop : TakesOut id (calling (.stop id .asked))
  | abort {moved : Bool} : TakesOut id (calling (.abort id (.marked moved)))
  | shutdown : TakesOut id (calling (.shutdownAll .asked))

/-- Besides starts of the pipeline, only a stop or an abort of it and a shutdown take its generation out. -/
theorem Does.active (h : Does env s t t' s') (ht : t.starts? ≠ some id) :
    (∀ g, (id, g) ∈ s.active → (id, g) ∈ s'.active) ∨ t.TakesOut id ∧ s'.Idle id := by
  have hcall {c : Call} {c' : Option Call} (hc : c.isStart = false) (he : Supervisor.Effect s c s' c') :
      (∀ g, (id, g) ∈ s.active → (id, g) ∈ s'.active) ∨ (calling c).TakesOut id ∧ s'.Idle id := by
    refine (he.active hc id).imp_right fun hout => ⟨?_, hout.2⟩
    rcases hout.1 with rfl | ⟨moved, rfl⟩ | rfl
    · exact .stop
    · exact .abort
    · exact .shutdown
  have hsame {s' : Supervisor} (hactive : s'.active = s.active) :
      ∀ g, (id, g) ∈ s.active → (id, g) ∈ s'.active := fun g hg => hactive ▸ hg
  cases h with
  | later hc hstep => exact hcall hc (effect_of_does hstep)
  | answers hc hstep => exact hcall hc (effect_of_does hstep)
  | joined hstep => exact .inl (hsame (Supervisor.flags_stepTakedown hstep).2)
  | concludes => exact .inl (hsame (Supervisor.quiet_concludeAbort _ _ _).active)
  | alive => exact .inl (hsame (Supervisor.Quiet.anyAlive s _).active)
  | dead =>
      refine .inl fun g hg => ?_
      refine List.mem_filter.mpr ⟨(Supervisor.Quiet.anyAlive s _).active ▸ hg, ?_⟩
      simpa using fun heq => ht (congrArg some heq.symm)
  | spawns hspawn =>
      exact .inl (hsame (Supervisor.spawnAll_spec (Supervisor.spawnAll_of_ok hspawn [])).1.active)
  | breaks hspawn =>
      exact .inl (hsame (Supervisor.spawnAll_spec (Supervisor.spawnAll_of_error hspawn [])).1.active)
  | unwinds hnext => exact .inl (hsame (Teardown.quiet_of_next_later hnext).active)
  | enters =>
      refine .inl fun g hg => List.mem_append_left _ (List.mem_filter.mpr ⟨hg, ?_⟩)
      simpa using fun heq => ht (congrArg some heq.symm)
  | _ => exact .inl (hsame rfl)

end Thread

namespace Threads

variable {config : Config} {x x' w y z v : Threads} {m : Move} {k j : Nat} {id : PipelineId} {g : Nat}
  {P : Move → Prop} {r r' : StatusReport}

/-! ### Status calls -/

theorem threads_play (hplay : x.play m = some x') (hothers : ∀ env, m ≠ .proceed k env) {t : Thread}
    (ht : x.threads[k]? = some t) : x'.threads[k]? = some t := by
  cases happens_of_play hplay with
  | asks _ => rwa [List.getElem?_append_left (List.getElem?_eq_some_iff.mp ht).1]
  | @goes l env _ _ _ _ _ =>
      have hne : l ≠ k := fun heq => hothers env (heq ▸ rfl)
      rwa [List.getElem?_set_ne hne]
  | drifts _ _ => exact ht

/-- How far a status call has come since a moment, when it was made: it has read the record of the run, and it has
looked at the processes, each at a moment of its own. -/
inductive Inquiry (P : Move → Prop) (y : Threads) (k : Nat) (id : PipelineId) (x : Threads) : Prop where
  | asked : x.threads[k]? = some (.calling (.status id none)) → Inquiry P y k id x
  | read {u : Threads} : Leads P y u → Leads P u x →
      x.threads[k]? = some (.calling (.status id (some (u.supervisor.registry.get? id)))) → Inquiry P y k id x
  | told {u v : Threads} : Leads P y u → Leads P u v → Leads P v x →
      x.threads[k]? = some (.answered (.status (v.supervisor.report id (u.supervisor.registry.get? id)).1)) →
      Inquiry P y k id x

theorem Inquiry.play (h : Inquiry P y k id x) (hyx : Leads P y x) (hm : P m) (hplay : x.play m = some x') :
    Inquiry P y k id x' := by
  have hlast {u : Threads} (hu : Leads P u x) : Leads P u x' := hu.tail ⟨m, hm, hplay⟩
  by_cases hown : ∃ env, m = .proceed k env
  · obtain ⟨env, rfl⟩ := hown
    obtain ⟨t, t', ht, hstep, hthreads⟩ := proceed_eq_some hplay
    have hk : x'.threads[k]? = some t' := by
      rw [hthreads, List.getElem?_set_self (List.getElem?_eq_some_iff.mp ht).1]
    cases h with
    | asked hasked =>
        obtain rfl := Option.some.inj (ht.symm.trans hasked)
        obtain ⟨rfl, -⟩ := Prod.mk.inj (Option.some.inj hstep)
        exact .read hyx (hlast .refl) hk
    | @read u hyu hux hread =>
        obtain rfl := Option.some.inj (ht.symm.trans hread)
        change Thread.ofNext (x.supervisor.stepStatus id (some (u.supervisor.registry.get? id))) = _ at hstep
        rw [Supervisor.stepStatus] at hstep
        split_ifs at hstep
        · cases hstep
        · obtain ⟨rfl, -⟩ := Prod.mk.inj (Option.some.inj hstep)
          exact .told hyu hux (hlast .refl) hk
    | told _ _ _ htold =>
        obtain rfl := Option.some.inj (ht.symm.trans htold)
        cases hstep
  · have hothers : ∀ env, m ≠ .proceed k env := fun env hm => hown ⟨env, hm⟩
    cases h with
    | asked hasked => exact .asked (threads_play hplay hothers hasked)
    | read hyu hux hread => exact .read hyu (hlast hux) (threads_play hplay hothers hread)
    | told hyu huv hvx htold => exact .told hyu huv (hlast hvx) (threads_play hplay hothers htold)

/-- What a status call answers is told of the record that it has read and of processes that it has looked at later. -/
theorem exists_told (hy : y.threads[k]? = some (.calling (.statusOf id))) (h : Leads P y z)
    (hz : z.threads[k]? = some (.answered (.status r))) :
    ∃ u v, Leads P y u ∧ Leads P u v ∧ Leads P v z ∧
      r = (v.supervisor.report id (u.supervisor.registry.get? id)).1 := by
  have hinquiry : Inquiry P y k id z := by
    clear hz
    induction h with
    | refl => exact .asked hy
    | tail hyx hmove ih =>
        obtain ⟨m, hm, hplay⟩ := hmove
        exact ih.play hyx hm hplay
  cases hinquiry with
  | asked hasked => cases hz.symm.trans hasked
  | read _ _ hread => cases hz.symm.trans hread
  | @told u v hyu huv hvz htold =>
      exact ⟨u, v, hyu, huv, hvz, Answer.status.inj (Thread.answered.inj (Option.some.inj (hz.symm.trans htold)))⟩

/-! ### While nobody starts a pipeline -/

def HasFailed (x : Threads) (id : PipelineId) : Prop := ∃ r, x.supervisor.registry.get? id = some r ∧ r.status = .failed

structure Outlasts (id : PipelineId) (v z : Threads) : Prop where
  owned : z.Owned
  starts : z.StartsNone id
  failed : v.HasFailed id → z.HasFailed id
  ages : v.supervisor.Ages z.supervisor
  died : ∀ i status, v.supervisor.Died i status → z.supervisor.Died i status

theorem HasFailed.of_record {s : Supervisor} {threads : List Thread} (h : x.HasFailed id)
    (hrecord : ∃ ts, s.registry.get? id = (x.supervisor.registry.get? id).map (·.after ts)) :
    HasFailed ⟨s, threads⟩ id := by
  obtain ⟨r, hr, hfailed⟩ := h
  obtain ⟨ts, hts⟩ := hrecord
  rw [hr, Option.map_some, RunState.after_of_terminal (by rw [hfailed]; rfl)] at hts
  exact ⟨r, hts, hfailed⟩

theorem HasFailed.happens (h : x.HasFailed id) (hx : x.StartsNone id) (hhappens : x.Happens m x') :
    x'.HasFailed id := by
  cases hhappens with
  | asks _ => exact h
  | @goes k env t t' s' ht hdoes =>
      have hother : t.starts? ≠ some id := hx t (List.mem_of_getElem? ht)
      cases hstart : t.isStart with
      | false => exact h.of_record (hdoes.record_of_other hstart id)
      | true =>
          have hmarked : t.marked? ≠ some id := fun hmarked => hother (Thread.starts?_of_marked hmarked)
          obtain ⟨r, hr, hfailed⟩ := h
          exact ⟨r, (hdoes.registry_of_start hstart hmarked).trans hr, hfailed⟩
  | drifts _ hdrifts => exact h.of_record (hdrifts.record id)

theorem Outlasts.play (h : Outlasts id v x) (hm : Spares id m) (hplay : x.play m = some x') : Outlasts id v x' where
  owned := h.owned.happens (happens_of_play hplay)
  starts := h.starts.happens hm (happens_of_play hplay)
  failed hfailed := (h.failed hfailed).happens h.starts (happens_of_play hplay)
  ages := h.ages.trans (happens_of_play hplay).ages
  died i status hdied := died_play h.owned hplay (h.died i status hdied)

theorem outlasts (hv : v.Owned) (hstarts : v.StartsNone id) (h : Leads (Spares id) v z) : Outlasts id v z :=
  h.invariant (I := Outlasts id v) (fun _ _ _ hm hx hplay => hx.play hm hplay)
    ⟨hv, hstarts, fun h => h, .of_quiet (.refl _), fun _ _ h => h⟩

def TakenOut (id : PipelineId) (g : Nat) (v z : Threads) : Prop :=
  ∃ u u' k env t, Leads (Spares id) v u ∧ u.threads[k]? = some t ∧ t.TakesOut id ∧ (id, g) ∈ u.supervisor.active ∧
    u.play (.proceed k env) = some u' ∧ u'.supervisor.Idle id ∧ Leads (Spares id) u' z

theorem active_or_takenOut (hv : v.Owned) (hstarts : v.StartsNone id) (hg : (id, g) ∈ v.supervisor.active)
    (h : Leads (Spares id) v z) : (id, g) ∈ z.supervisor.active ∨ TakenOut id g v z := by
  induction h with
  | refl => exact .inl hg
  | @tail x x' hvx hmove ih =>
      obtain ⟨m, hm, hplay⟩ := hmove
      rcases ih with hactive | ⟨u, u', k, env, t, hvu, ht, hout, hbefore, hgoes, hidle, hux⟩
      · have hx := outlasts hv hstarts hvx
        cases hhappens : happens_of_play hplay with
        | asks _ => exact .inl hactive
        | @goes k env t t' s' ht hdoes =>
            rcases hdoes.active (hx.starts t (List.mem_of_getElem? ht)) with hkept | ⟨hout, hidle⟩
            · exact .inl (hkept g hactive)
            · exact .inr ⟨x, _, k, env, t, hvx, ht, hout, hactive, hplay, hidle, .refl⟩
        | drifts _ hdrifts => exact .inl (hdrifts.quiet.active ▸ hactive)
      · exact .inr ⟨u, u', k, env, t, hvu, ht, hout, hbefore, hgoes, hidle, hux.tail ⟨m, hm, hplay⟩⟩

/-! ### How long a failure is to be seen -/

/-- A process of the generation that is active for the pipeline has died with a failure, and without having been asked
to stop. -/
def Bereft (x : Threads) (id : PipelineId) (g : Nat) : Prop :=
  (id, g) ∈ x.supervisor.active ∧
    ∃ i ∈ x.supervisor.crew g, ∃ status, x.supervisor.Died i status ∧ status.isSuccess = false

def Holds (x : Threads) (g : Nat) : Prop := ∃ y, x.supervisor.generations[g]? = some y ∧ y.held = true

theorem Outlasts.status_of_failed (h : Outlasts id v z) {run : RunState} (hfailed : run.status = .failed) :
    (z.supervisor.report id (some run)).1.status = .failed := by
  refine Supervisor.status_report_of_failed h.owned.sound (fun hstarting => ?_) hfailed
  obtain ⟨st, hst, hmark⟩ := List.mem_filterMap.mp ((h.owned.sound.starting id).mp hstarting)
  obtain ⟨t, ht, rfl⟩ := List.mem_map.mp hst
  exact h.starts t ht (Thread.starts?_of_mark? hmark)

/-- What was seen of a death is seen again where the generation is still active and nobody holds its processes. -/
theorem Outlasts.holds (h : Outlasts id v z) (hbereft : v.Bereft id g) (hactive : (id, g) ∈ z.supervisor.active)
    {run : Option RunState} (hnot : (z.supervisor.report id run).1.status ≠ .failed) : z.Holds g := by
  obtain ⟨-, i, hi, status, hdied, hfailure⟩ := hbereft
  obtain ⟨y, hy, -⟩ := h.owned.sound.known id g hactive
  refine ⟨y, hy, ?_⟩
  by_contra hfree
  have hlt : g < v.supervisor.generations.length := by
    by_contra hlt
    rw [Supervisor.crew, List.getElem?_eq_none (not_lt.mp hlt)] at hi
    exact absurd hi List.not_mem_nil
  have hmember : i ∈ y.processes := by
    rw [← h.ages.crew_eq hlt, Supervisor.crew, hy] at hi
    exact hi
  exact hnot (Supervisor.status_report_of_died (h.owned.sound.generation?_of_mem hactive) hy
    (Bool.eq_false_iff.mpr hfree) hmember (h.died i status hdied) hfailure)

/-- Let a status call say that a pipeline has failed, and let another one be made when that answer is there; nobody
starts the pipeline in the meantime. Then the later call says the same, with one exception. The first one has not read
in the record that the run has failed, but seen that a process of the active generation had died, and the later one has
not read so in the record either; and between the two looks a stop, an abort or a shutdown has taken the generation out
of the active ones, or somebody holds its processes when the later call looks. -/
theorem failure_stays_visible (hw : Reachable config w) (hfirst : w.threads[j]? = some (.calling (.statusOf id)))
    (hstarts : w.StartsNone id) (hwx : Leads (Spares id) w x) (hover : x.threads[j]? = some (.answered (.status r)))
    (hfailed : r.status = .failed) (hask : x.play (.ask (.statusOf id)) = some y) (hyz : Leads (Spares id) y z)
    (hover' : z.threads[x.threads.length]? = some (.answered (.status r'))) :
    r'.status = .failed ∨
      (∀ run ∈ r.run, run.status ≠ .failed) ∧ (∀ run ∈ r'.run, run.status ≠ .failed) ∧
        ∃ v v' g, Leads (Spares id) w v ∧ Leads (Spares id) v x ∧ Leads (Spares id) y v' ∧ Leads (Spares id) v' z ∧
          v.Bereft id g ∧ (TakenOut id g v v' ∨ (id, g) ∈ v'.supervisor.active ∧ v'.Holds g) := by
  refine or_iff_not_imp_left.mpr fun hnot => ?_
  -- each of the two calls reads the record at one moment and looks at the processes at a later one
  obtain ⟨u, v, hwu, huv, hvx, rfl⟩ := exists_told hfirst hwx hover
  have hxy : Leads (Spares id) x y := .single ⟨_, by simp [Spares, Call.startOf, Call.statusOf], hask⟩
  have hlast : y.threads[x.threads.length]? = some (.calling (.statusOf id)) := by
    obtain rfl := Option.some.inj hask
    simp
  obtain ⟨u', v', hyu, huv', hvz, rfl⟩ := exists_told hlast hyz hover'
  have hu := outlasts hw.owned hstarts hwu
  have huu := outlasts hu.owned hu.starts (((huv.trans hvx).trans hxy).trans hyu)
  have huv₂ := outlasts huu.owned huu.starts huv'
  have hread' : ∀ run ∈ u'.supervisor.registry.get? id, run.status ≠ .failed := by
    intro run hrun hfailed'
    rw [hrun] at hnot
    exact hnot (huv₂.status_of_failed hfailed')
  have hread : ∀ run ∈ u.supervisor.registry.get? id, run.status ≠ .failed := by
    intro run hrun hfailed'
    obtain ⟨run', hrun', hfailed'⟩ := huu.failed ⟨run, hrun, hfailed'⟩
    exact hread' run' hrun' hfailed'
  obtain ⟨g, gen, hactive, hgen, i, hi, status, hdied, hfailure⟩ := Supervisor.exists_died_of_report hread hfailed
  have hcrew : i ∈ v.supervisor.crew g := by
    rw [Supervisor.crew, hgen]
    exact hi
  have hbereft : v.Bereft id g := ⟨hactive, i, hcrew, status, hdied, hfailure⟩
  have hv := outlasts hu.owned hu.starts huv
  have hvv : Leads (Spares id) v v' := ((hvx.trans hxy).trans hyu).trans huv'
  rw [Supervisor.run_report, Supervisor.run_report]
  refine ⟨hread, hread', v, v', g, hwu.trans huv, hvx, hyu.trans huv', hvz, hbereft, ?_⟩
  rcases active_or_takenOut hv.owned hv.starts hactive hvv with hactive' | hout
  · exact .inr ⟨hactive', (outlasts hv.owned hv.starts hvv).holds hbereft hactive' hnot⟩
  · exact .inl hout

def bereaved : List Move :=
  .ask (.startOf 1 ⟨none, none⟩) :: List.replicate 11 (.proceed 0 Scene.calm) ++
    [.signal 0 Signal.kill, .ask (.statusOf 1)]

/-- Before the monitor has looked, a stop comes to its answer, and the next status call after it. -/
def stopped : List Move :=
  [.ask (.stopOf 1), .proceed 3 Scene.calm, .watch 0 false, .watch 0 false] ++
    List.replicate 5 (.proceed 3 Scene.calm) ++ List.replicate 2 (.proceed 2 Scene.calm)

theorem stopped_tells : ∃ w x y z r r', bereaved.foldlM play (ofConfig {}) = some w ∧
    w.threads[1]? = some (.calling (.statusOf 1)) ∧ w.threads.map Thread.starts? = [none, none] ∧
    (List.replicate 2 (.proceed 1 Scene.calm)).foldlM play w = some x ∧
    x.threads[1]? = some (.answered (.status r)) ∧ r.status = .failed ∧ r.pipeline = 1 ∧
    x.threads.map Thread.starts? = [none, none] ∧ x.play (.ask (.statusOf 1)) = some y ∧
    stopped.foldlM play y = some z ∧ z.threads[x.threads.length]? = some (.answered (.status r')) ∧
    r'.status = .stopped :=
  ⟨_, _, _, _, _, _, rfl, rfl, rfl, rfl, rfl, rfl, rfl, rfl, rfl, rfl, rfl, rfl⟩

theorem startsNone_of_starts? (h : x.threads.map Thread.starts? = [none, none]) : x.StartsNone id := by
  intro t ht hstart
  have hmem := h ▸ List.mem_map_of_mem ht
  simp [hstart] at hmem

theorem spares_stopped : ∀ m ∈ stopped, Spares 1 m := by
  simp [stopped, Spares, Call.stopOf, Call.startOf]

/-- The later call says that the pipeline is stopped, for its generation was taken out or its processes are held. -/
theorem stopped_failure_stays_visible : ∃ w x y z r r', Reachable {} w ∧
    w.threads[1]? = some (.calling (.statusOf 1)) ∧ w.StartsNone 1 ∧ Leads (Spares 1) w x ∧
    x.threads[1]? = some (.answered (.status r)) ∧ r.status = .failed ∧ x.play (.ask (.statusOf 1)) = some y ∧
    Leads (Spares 1) y z ∧ z.threads[x.threads.length]? = some (.answered (.status r')) ∧ r'.status = .stopped ∧
    ∃ v v' g, v.Bereft 1 g ∧ (TakenOut 1 g v v' ∨ (1, g) ∈ v'.supervisor.active ∧ v'.Holds g) := by
  obtain ⟨w, x, y, z, r, r', hw, hfirst, hstarts, hx, hover, hfailed, -, -, hask, hz, hover', hstopped⟩ := stopped_tells
  have hreachable : Reachable {} w := Leads.plays bereaved (fun _ _ => trivial) hw
  have hnone : w.StartsNone 1 := startsNone_of_starts? hstarts
  have hwx : Leads (Spares 1) w x := Leads.plays _ (by simp [Spares]) hx
  have hyz : Leads (Spares 1) y z := Leads.plays stopped spares_stopped hz
  rcases failure_stays_visible hreachable hfirst hnone hwx hover hfailed hask hyz hover' with
    hsame | ⟨-, -, v, v', g, -, -, -, -, hbereft, hwhy⟩
  · rw [hstopped] at hsame
    cases hsame
  · exact ⟨w, x, y, z, r, r', hreachable, hfirst, hnone, hwx, hover, hfailed, hask, hyz, hover', hstopped, v, v', g,
      hbereft, hwhy⟩

/-- After a status call has said that a pipeline has failed, a later one may say that it is stopped, though nobody has
started it since. -/
theorem not_failure_stays_visible : ¬∀ (config : Config) (x y z : Threads) (id : PipelineId) (j : Nat)
    (r r' : StatusReport), Reachable config x → x.StartsNone id → x.threads[j]? = some (.answered (.status r)) →
    r.pipeline = id → r.status = .failed → x.play (.ask (.statusOf id)) = some y → Leads (Spares id) y z →
    z.threads[x.threads.length]? = some (.answered (.status r')) → r'.status = .failed := by
  intro h
  obtain ⟨w, x, y, z, r, r', hw, -, -, hx, hover, hfailed, hid, hstarts, hask, hz, hover', hstopped⟩ := stopped_tells
  have hreachable : Reachable {} x :=
    (Leads.plays bereaved (fun _ _ => trivial) hw).trans (Leads.plays _ (fun _ _ => trivial) hx)
  have hsame := h {} x y z 1 1 r r' hreachable (startsNone_of_starts? hstarts) hover hid hfailed hask
    (Leads.plays stopped spares_stopped hz) hover'
  rw [hstopped] at hsame
  cases hsame

end Threads

end Pipeworks
