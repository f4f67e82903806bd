import Pipeworks.Proofs.Supervisor.ConsumerGroups
import Pipeworks.Proofs.Supervisor.StartStories

/-!
What a start that succeeds has launched. A start keeps what it has fetched: it is the graph that is found valid, that is
compiled, and whose clusters and inputs give the jobs, so that nothing comes of a change of the stored graph while the
start goes on. What a start has done is told by its steps: what it fetched and judged, the names that it gave, the jobs
that it handed over, and the processes that it added to those of the supervisor.
-/

namespace Pipeworks

structure Doings where
  fetches : List (Except Error Graph) := []
  /-- The graphs that were validated, each with what was found. -/
  validations : List (Graph × Report) := []
  /-- The names that were given to the groups of clusters. -/
  groups : List String := []
  /-- The jobs for which a process was to be started. -/
  jobs : List WorkerSpec := []
  /-- The processes that were started, each with its number. -/
  processes : List (Subprocess × Nat) := []

namespace Thread

def fetches (env : Surroundings) : Thread → List (Except Error Graph)
  | calling (.start id _ .fetching) => [Supervisor.fetch env id]
  | _ => []

def validations (env : Surroundings) : Thread → List (Graph × Report)
  | calling (.start _ _ (.validating graph)) => [(graph, graph.validate env.reachable)]
  | _ => []

end Thread

namespace Doings

def append (a b : Doings) : Doings :=
  ⟨a.fetches ++ b.fetches, a.validations ++ b.validations, a.groups ++ b.groups, a.jobs ++ b.jobs,
    a.processes ++ b.processes⟩

instance : Append Doings := ⟨append⟩

theorem append_empty (a : Doings) : a ++ ({} : Doings) = a := by
  change append a {} = a
  simp [append]

def ofStep (env : Surroundings) (s : Supervisor) (t t' : Thread) (s' : Supervisor) : Doings where
  fetches := t.fetches env
  validations := t.validations env
  groups := t.assigned t'
  jobs := s'.launched.drop s.launched.length
  processes := s'.processes.zipIdx.drop s.processes.length

variable {env : Surroundings} {s s' : Supervisor} {t t' : Thread}

/-- A step that starts no process does what can be seen of it beforehand. -/
theorem ofStep_eq (hlaunched : s'.launched = s.launched) (hlength : s'.processes.length = s.processes.length) :
    ofStep env s t t' s' = { fetches := t.fetches env, validations := t.validations env, groups := t.assigned t' } := by
  rw [ofStep, hlaunched, List.drop_length, List.drop_eq_nil_of_le (by rw [List.length_zipIdx, hlength])]

/-- A step that starts a process hands over its job, and the process has the next number. -/
theorem ofStep_of_spawn {spec : WorkerSpec} {m : Member} (h : s.spawn env spec = (.ok m, s')) (l : Launch)
    (specs : List WorkerSpec) (ms : List Member) (t' : Thread) : ∃ p, p.label = spec.label ∧
      m = ⟨s.processes.length, spec.segment, spec.isProducer⟩ ∧
      ofStep env s (.launching l (.spawning (spec :: specs) ms)) t' s' =
        { jobs := [spec], processes := [(p, s.processes.length)] } := by
  rw [Supervisor.spawn] at h
  split at h
  · cases h
  · rename_i p hlaunch
    obtain ⟨hm, rfl⟩ := Prod.mk.inj h
    refine ⟨p, ?_, (Except.ok.inj hm).symm, ?_⟩
    · cases hcommand : env.launch s.launched.length spec with
      | error e => rw [hcommand] at hlaunch; cases hlaunch
      | ok program =>
          rw [hcommand] at hlaunch
          cases program with
          | error e => cases hlaunch
          | ok program =>
              obtain rfl := Except.ok.inj hlaunch
              rfl
    · have hprocesses : (s.processes ++ [p]).zipIdx.drop s.processes.length = [(p, s.processes.length)] := by
        rw [List.zipIdx_append, List.drop_append_of_le_length (by rw [List.length_zipIdx]),
          List.drop_eq_nil_of_le (by rw [List.length_zipIdx]), Nat.zero_add]
        rfl
      rw [ofStep, List.drop_left, hprocesses]
      rfl

end Doings

namespace Threads

variable {config : Config} {τ : List Deed} {x x' : Threads} {m : Move} {k : Nat} {env : Surroundings}
  {t t' : Thread} {s' : Supervisor}

def Deed.fetches (d : Deed) : List (Except Error Graph) :=
  match d.move with
  | .proceed k env => (d.before.threads[k]?.map (Thread.fetches env)).getD []
  | _ => []

def Deed.validations (d : Deed) : List (Graph × Report) :=
  match d.move with
  | .proceed k env => (d.before.threads[k]?.map (Thread.validations env)).getD []
  | _ => []

def doings (τ : List Deed) (k : Nat) : Doings where
  fetches := (deeds τ k).flatMap Deed.fetches
  validations := (deeds τ k).flatMap Deed.validations
  groups := groups τ k
  jobs := (deeds τ k).flatMap fun d => d.after.supervisor.launched.drop d.before.supervisor.launched.length
  processes := (deeds τ k).flatMap fun d =>
    d.after.supervisor.processes.zipIdx.drop d.before.supervisor.processes.length

theorem doings_append_of_not {d : Deed} (hd : d.isOf k = false) : doings (τ ++ [d]) k = doings τ k := by
  simp only [doings, groups, deeds_append_of_not hd]

theorem doings_append_of (ht : x.threads[k]? = some t) (ht' : x'.threads[k]? = some t') :
    doings (τ ++ [⟨x, .proceed k env, x'⟩]) k = doings τ k ++ Doings.ofStep env x.supervisor t t' x'.supervisor := by
  have hfetches : Deed.fetches ⟨x, .proceed k env, x'⟩ = t.fetches env := by simp [Deed.fetches, ht]
  have hvalidations : Deed.validations ⟨x, .proceed k env, x'⟩ = t.validations env := by simp [Deed.validations, ht]
  have hassigned : Deed.assigned ⟨x, .proceed k env, x'⟩ = t.assigned t' := by simp [Deed.assigned, ht, ht']
  have hdeeds : deeds (τ ++ [⟨x, .proceed k env, x'⟩]) k = deeds τ k ++ [⟨x, .proceed k env, x'⟩] :=
    deeds_append_of rfl
  change _ = Doings.append _ _
  simp only [doings, groups, hdeeds, List.flatMap_append, List.flatMap_singleton, hfetches, hvalidations, hassigned,
    Doings.append, Doings.ofStep]

/-! ### What is known of a start -/

def Asked (τ : List Deed) (k : Nat) (id : PipelineId) (o : StartOptions) : Prop :=
  ∃ d ∈ τ, d.move = .ask (.startOf id o) ∧ d.before.threads.length = k

structure Crew (jobs : List WorkerSpec) (processes : List (Subprocess × Nat)) (ms : List Member) : Prop where
  roles : ms.map (·.isProducer) = jobs.map (·.isProducer)
  numbers : ms.map (·.process) = processes.map (·.2)
  labels : processes.map (·.1.label) = jobs.map (·.label)

/-- A start has a plan for the only graph that it has fetched, which it found to be valid, and has given names to the
groups of the plan. Since then it has started processes for these jobs. -/
structure Prepared (config : Config) (τ : List Deed) (k : Nat) (l : Launch) (report : Report) (jobs : List WorkerSpec)
    (processes : List (Subprocess × Nat)) : Prop where
  asked : Asked τ k l.id l.options
  valid : report.valid = true
  warnings : l.warnings = report.warnings
  planned : ∃ compiled tag, Plan.compile l.graph = .ok compiled ∧
    l.plan = compiled.assignGroups config.groupPrefix tag
  done : doings τ k = ⟨[.ok l.graph], [(l.graph, report)], l.plan.groups, jobs, processes⟩

structure Launched (config : Config) (τ : List Deed) (k : Nat) (l : Launch) (report : Report)
    (processes : List (Subprocess × Nat)) (ms : List Member) : Prop where
  prepared : Prepared config τ k l report
    (Supervisor.specs config l.id l.plan l.graph.inputs l.options.producer) processes
  crew : Crew (Supervisor.specs config l.id l.plan l.graph.inputs l.options.producer) processes ms

def Progress (config : Config) (τ : List Deed) (k : Nat) : Thread → Prop
  | .calling (.start id o (.validating graph)) => Asked τ k id o ∧ doings τ k = { fetches := [.ok graph] }
  | .calling (.start _ _ (.unwinding _ _)) => True
  | .calling (.start id o (.enlisting _ r)) =>
    ∃ l report processes ms, Launched config τ k l report processes ms ∧ l.id = id ∧ l.options = o ∧ r = l.report ms
  | .calling (.start id o _) => Asked τ k id o ∧ doings τ k = {}
  | .launching l .numbering => Asked τ k l.id l.options ∧ Plan.compile l.graph = .ok l.plan ∧
    ∃ report, report.valid = true ∧ l.warnings = report.warnings ∧
      doings τ k = { fetches := [.ok l.graph], validations := [(l.graph, report)] }
  | .launching l (.spawning specs ms) => ∃ report jobs processes, Prepared config τ k l report jobs processes ∧
    Crew jobs processes ms ∧
      jobs ++ specs = Supervisor.specs config l.id l.plan l.graph.inputs l.options.producer
  | .launching l _ => ∃ report, Prepared config τ k l report [] []
  | .leaving id (.entered r) =>
    ∃ l report processes ms, Launched config τ k l report processes ms ∧ l.id = id ∧ r = l.report ms
  | .answered (.started (.ok r)) => ∃ l report processes ms, Launched config τ k l report processes ms ∧ r = l.report ms
  | _ => True

theorem Asked.append {id : PipelineId} {o : StartOptions} (h : Asked τ k id o) (d : Deed) : Asked (τ ++ [d]) k id o :=
  have ⟨d', hd', hmove⟩ := h
  ⟨d', List.mem_append_left _ hd', hmove⟩

theorem Prepared.append {l : Launch} {report : Report} {jobs : List WorkerSpec} {processes : List (Subprocess × Nat)}
    {d : Deed} (h : Prepared config τ k l report jobs processes) (hsame : doings (τ ++ [d]) k = doings τ k) :
    Prepared config (τ ++ [d]) k l report jobs processes :=
  { h with asked := h.asked.append d, done := hsame.trans h.done }

theorem Launched.append {l : Launch} {report : Report} {processes : List (Subprocess × Nat)} {ms : List Member}
    {d : Deed} (h : Launched config τ k l report processes ms) (hsame : doings (τ ++ [d]) k = doings τ k) :
    Launched config (τ ++ [d]) k l report processes ms := ⟨h.prepared.append hsame, h.crew⟩

theorem Progress.of_other {d : Deed} (h : Progress config τ k t) (hd : d.isOf k = false) :
    Progress config (τ ++ [d]) k t := by
  have hsame : doings (τ ++ [d]) k = doings τ k := doings_append_of_not hd
  cases t with
  | calling c =>
      cases c with
      | start id o stage =>
          cases stage with
          | validating graph => exact ⟨h.1.append d, hsame.trans h.2⟩
          | unwinding t e => trivial
          | enlisting g r =>
              obtain ⟨l, report, processes, ms, hlaunched, hrest⟩ := h
              exact ⟨l, report, processes, ms, hlaunched.append hsame, hrest⟩
          | _ => exact ⟨h.1.append d, hsame.trans h.2⟩
      | _ => trivial
  | launching l stage =>
      cases stage with
      | numbering =>
          obtain ⟨hasked, hplan, report, hvalid, hwarnings, hdone⟩ := h
          exact ⟨hasked.append d, hplan, report, hvalid, hwarnings, hsame.trans hdone⟩
      | spawning specs ms =>
          obtain ⟨report, jobs, processes, hprepared, hrest⟩ := h
          exact ⟨report, jobs, processes, hprepared.append hsame, hrest⟩
      | _ =>
          obtain ⟨report, hprepared⟩ := h
          exact ⟨report, hprepared.append hsame⟩
  | leaving id o =>
      cases o with
      | entered r =>
          obtain ⟨l, report, processes, ms, hlaunched, hrest⟩ := h
          exact ⟨l, report, processes, ms, hlaunched.append hsame, hrest⟩
      | _ => trivial
  | answered a =>
      cases a with
      | started r =>
          cases r with
          | ok r =>
              obtain ⟨l, report, processes, ms, hlaunched, hrest⟩ := h
              exact ⟨l, report, processes, ms, hlaunched.append hsame, hrest⟩
          | error e => trivial
      | _ => trivial
  | _ => trivial

theorem progress_calling {c : Call} (hc : c.isStart = false) : Progress config τ k (.calling c) := by
  cases c with
  | start id o stage => cases hc
  | _ => trivial

theorem progress_answered {a : Answer} (ha : ∀ r, a ≠ .started r) : Progress config τ k (.answered a) := by
  cases a with
  | started r => exact absurd rfl (ha r)
  | _ => trivial

theorem valid_of_requireValid {g : Graph} {reachable : String → Bool} {report : Report}
    (h : g.requireValid reachable = .ok report) : g.validate reachable = report ∧ report.valid = true := by
  rw [Graph.requireValid] at h
  split_ifs at h with hvalid
  obtain rfl := Except.ok.inj h
  exact ⟨rfl, hvalid⟩

theorem Crew.append {jobs : List WorkerSpec} {processes : List (Subprocess × Nat)} {ms : List Member}
    (h : Crew jobs processes ms) {spec : WorkerSpec} {p : Subprocess} {n : Nat} (hlabel : p.label = spec.label) :
    Crew (jobs ++ [spec]) (processes ++ [(p, n)]) (ms ++ [⟨n, spec.segment, spec.isProducer⟩]) := by
  constructor
  case roles => rw [List.map_append, List.map_append, h.roles]; rfl
  case numbers => rw [List.map_append, List.map_append, h.numbers]; rfl
  case labels => rw [List.map_append, List.map_append, h.labels, List.map_singleton, hlabel]; rfl

theorem Progress.step (h : Progress config τ k t) (hconfig : x.supervisor.config = config) (ht : x.threads[k]? = some t)
    (hdoes : Thread.Does env x.supervisor t t' s') :
    Progress config (τ ++ [⟨x, .proceed k env, ⟨s', x.threads.set k t'⟩⟩]) k t' := by
  set d : Deed := ⟨x, .proceed k env, ⟨s', x.threads.set k t'⟩⟩
  obtain ⟨hlt, -⟩ := List.getElem?_eq_some_iff.mp ht
  have hdoings : doings (τ ++ [d]) k = doings τ k ++ Doings.ofStep env x.supervisor t t' s' :=
    doings_append_of ht (List.getElem?_set_self hlt)
  have hsteps (hlaunched : s'.launched = x.supervisor.launched)
      (hlength : s'.processes.length = x.supervisor.processes.length) : doings (τ ++ [d]) k = doings τ k ++
        { fetches := t.fetches env, validations := t.validations env, groups := t.assigned t' } := by
    rw [hdoings, Doings.ofStep_eq hlaunched hlength]
  -- what is told of a start only grows where it fetches, validates, names groups or starts a process
  cases hdoes with
  | later hc hstep =>
      have habstains := Supervisor.abstains_step env (s := x.supervisor) hc
      rw [hstep] at habstains
      exact progress_calling habstains.1
  | answers hc hstep =>
      have habstains := Supervisor.abstains_step env (s := x.supervisor) hc
      rw [hstep] at habstains
      exact progress_answered habstains.1
  | @concludes id moved =>
      have habstains : x.supervisor.Abstains (.answer (x.supervisor.concludeAbort id moved).1 _) :=
        Supervisor.abstains_concludeAbort rfl moved
      exact progress_answered habstains.1
  | marks | waived | takes => exact ⟨h.1.append d, (hsteps rfl rfl).trans (by rw [h.2]; rfl)⟩
  | @dead id o g _ =>
      obtain ⟨ps, hps, hlength⟩ := exists_anyAlive x.supervisor g
      refine ⟨h.1.append d, ?_⟩
      rw [hps] at hsteps
      exact (hsteps rfl hlength).trans (by rw [h.2]; rfl)
  | @fetched id o graph hfetch =>
      have hfetches : Thread.fetches env (.calling (.start id o .fetching)) = [.ok graph] := by
        rw [Thread.fetches, hfetch]
      exact ⟨h.1.append d, (hsteps rfl rfl).trans (by rw [h.2, hfetches]; rfl)⟩
  | @compiled id o graph report plan hvalid hplan =>
      obtain ⟨hreport, hvalid⟩ := valid_of_requireValid hvalid
      have hvalidations : Thread.validations env (.calling (.start id o (.validating graph))) = [(graph, report)] := by
        rw [Thread.validations, hreport]
      exact ⟨h.1.append d, hplan, report, hvalid, rfl, (hsteps rfl rfl).trans (by rw [h.2, hvalidations]; rfl)⟩
  | @numbers l =>
      obtain ⟨hasked, hplan, report, hvalid, hwarnings, hdone⟩ := h
      refine ⟨report, hasked.append d, hvalid, hwarnings, ⟨l.plan, _, hplan, by rw [← hconfig]⟩, ?_⟩
      exact (hsteps rfl rfl).trans (by rw [hdone]; rfl)
  | forgets =>
      obtain ⟨report, hprepared⟩ := h
      exact ⟨report, hprepared.append ((hsteps rfl rfl).trans (Doings.append_empty _))⟩
  | records =>
      obtain ⟨report, hprepared⟩ := h
      refine ⟨report, [], [], hprepared.append ((hsteps rfl rfl).trans (Doings.append_empty _)), ⟨rfl, rfl, rfl⟩, ?_⟩
      rw [hconfig]
      rfl
  | @spawns l spec specs ms m s' hspawn =>
      obtain ⟨report, jobs, processes, hprepared, hcrew, hjobs⟩ := h
      obtain ⟨p, hlabel, hm, hstep⟩ :=
        Doings.ofStep_of_spawn hspawn l specs ms (.launching l (.spawning specs (ms ++ [m])))
      refine ⟨report, jobs ++ [spec], processes ++ [(p, x.supervisor.processes.length)], ?_, ?_, ?_⟩
      · refine { hprepared with asked := hprepared.asked.append d, done := ?_ }
        rw [hdoings, hstep, hprepared.done]
        change Doings.append _ _ = _
        simp [Doings.append]
      · rw [hm]
        exact hcrew.append hlabel
      · rw [← hjobs, List.append_assoc]
        rfl
  | @enrols l y _ _ =>
      obtain ⟨report, jobs, processes, hprepared, hcrew, hjobs⟩ := h
      rw [List.append_nil] at hjobs
      have hprepared := hprepared.append ((hsteps rfl rfl).trans (Doings.append_empty _))
      exact ⟨l, report, processes, y.members, ⟨hjobs ▸ hprepared, hjobs ▸ hcrew⟩, rfl, rfl, rfl⟩
  | enters =>
      obtain ⟨l, report, processes, ms, hlaunched, hid, -, hr⟩ := h
      exact ⟨l, report, processes, ms, hlaunched.append ((hsteps rfl rfl).trans (Doings.append_empty _)), hid, hr⟩
  | @leaves id o =>
      cases o with
      | entered r =>
          obtain ⟨l, report, processes, ms, hlaunched, -, hr⟩ := h
          exact ⟨l, report, processes, ms, hlaunched.append ((hsteps rfl rfl).trans (Doings.append_empty _)), hr⟩
      | _ => trivial
  | _ => trivial

theorem Happens.config_eq (h : x.Happens m x') : x'.supervisor.config = x.supervisor.config := by
  cases h with
  | asks _ => rfl
  | goes _ hdoes =>
      rcases hdoes.books with hsame | ⟨l, -, rfl⟩ | ⟨l, spec, specs, ms, -, hbooks⟩
      · exact Supervisor.config_of_books hsame
      · rfl
      · exact congrArg Prod.fst hbooks
  | drifts _ hdrifts => exact Supervisor.config_of_books hdrifts.books

theorem History.config_eq (h : History config τ x) : x.supervisor.config = config := by
  induction h with
  | start => rfl
  | move _ hplay ih => exact (happens_of_play hplay).config_eq.trans ih

theorem progress_of_isNew {c : Call} (hnew : c.isNew = true) {d : Deed} (hd : d.move = .ask c)
    (hk : d.before.threads.length = k) (hdeeds : deeds (τ ++ [d]) k = []) :
    Progress config (τ ++ [d]) k (.calling c) := by
  cases c with
  | start id o stage =>
      cases stage with
      | asked =>
          refine ⟨⟨d, List.mem_append_right _ (List.mem_singleton_self d), hd, hk⟩, ?_⟩
          simp only [doings, groups, hdeeds, List.flatMap_nil]
      | _ => cases hnew
  | _ => trivial

/-- What is known of a start at its stage is so at every point of every interleaving. -/
theorem History.progress (h : History config τ x) (ht : x.threads[k]? = some t) : Progress config τ k t := by
  refine h.follows (P := fun τ k _ t => Progress config τ k t) (fun h hnew => ?_)
    (fun _ _ _ hother hprogress => hprogress.of_other hother)
    (fun h ht hdoes hprogress => hprogress.step h.config_eq ht hdoes) ht
  exact progress_of_isNew hnew rfl rfl ((deeds_append_of_not rfl).trans (h.deeds_eq_nil le_rfl))

/-! ### The record of the run -/

def CountsTo (s : Supervisor) (id : PipelineId) (n : Nat) : Prop :=
  ∃ run, s.registry.get? id = some run ∧ run.totalSegments = n

def Counts (s : Supervisor) : Thread → Prop
  | .launching l (.spawning _ _) => CountsTo s l.id l.plan.clusters.length
  | .calling (.start id _ (.enlisting _ r)) => CountsTo s id r.segments
  | .leaving id (.entered r) => CountsTo s id r.segments
  | _ => True

theorem CountsTo.of_record {s : Supervisor} {id : PipelineId} {n : Nat} (h : CountsTo s id n)
    (hrecord : ∃ ts, s'.registry.get? id = (s.registry.get? id).map (·.after ts)) : CountsTo s' id n := by
  obtain ⟨run, hrun, hn⟩ := h
  obtain ⟨ts, hts⟩ := hrecord
  exact ⟨run.after ts, by rw [hts, hrun, Option.map_some], (run.totalSegments_after ts).trans hn⟩

theorem counts_calling {s : Supervisor} {c : Call} (hc : c.isStart = false) : Counts s (.calling c) := by
  cases c with
  | start id o stage => cases hc
  | _ => trivial

/-- Others make transitions of the run of a start at most, which leave the number of its segments. -/
theorem Counts.of_other (h : Counts x.supervisor t) (hx : x.Owned) (hhappens : x.Happens m x')
    (ht : x.threads[k]? = some t) (hother : Deed.isOf k ⟨x, m, x'⟩ = false) : Counts x'.supervisor t := by
  have hkeeps {id : PipelineId} {n : Nat} (hmark : t.marked? = some id) (h : CountsTo x.supervisor id n) :
      CountsTo x'.supervisor id n :=
    h.of_record ((hhappens.record hx ht hmark hother).elim Supervisor.record_refl And.right)
  cases t with
  | calling c =>
      cases c with
      | start id o stage =>
          cases stage with
          | enlisting g r => exact hkeeps rfl h
          | _ => trivial
      | _ => trivial
  | launching l stage =>
      cases stage with
      | spawning specs ms => exact hkeeps rfl h
      | _ => trivial
  | leaving id o =>
      cases o with
      | entered r => exact hkeeps rfl h
      | _ => trivial
  | _ => trivial

theorem Counts.step (h : Counts x.supervisor t) (hstory : Story τ k x.supervisor t)
    (hdoes : Thread.Does env x.supervisor t t' s') : Counts s' t' := by
  cases hdoes with
  | later hc hstep =>
      have habstains := Supervisor.abstains_step env (s := x.supervisor) hc
      rw [hstep] at habstains
      exact counts_calling habstains.1
  | @records l =>
      refine ⟨.initial l.id l.plan.clusters.length, ?_, rfl⟩
      refine (Registry.get?_init _ _ _ _).trans ((if_pos rfl).trans ?_)
      rw [hstory.2, Option.getD_none]
  | @spawns l spec specs ms m s' hspawn =>
      have hsame := Thread.registry_of_spawn hspawn
      exact h.of_record (Supervisor.record_refl (by rw [hsame]))
  | enrols => exact h
  | enters => exact h
  | _ => trivial

theorem History.counts (h : History config τ x) (ht : x.threads[k]? = some t) : Counts x.supervisor t := by
  refine h.follows (P := fun _ _ s t => Counts s t) (fun {_ _ c} _ hnew => ?_)
    (fun h hhappens ht hother hcounts => hcounts.of_other h.reachable.owned hhappens ht hother)
    (fun h ht hdoes hcounts => hcounts.step (h.story ht) hdoes) ht
  cases c with
  | start id o stage =>
      cases stage with
      | asked => trivial
      | _ => cases hnew
  | _ => trivial

end Threads

/-! ### The jobs of a plan -/

/-- The workers and producers that a graph takes, by its plan: a worker for every broker of an input, which has the
cluster of its number and the group assigned to that, and a producer for every input if producers are wanted, whose
segment is the number of the cluster that holds the input. -/
structure Staff (c : Config) (id : PipelineId) (o : StartOptions) (graph : Graph) (plan : Plan)
    (workers producers : List WorkerSpec) : Prop where
  distinct : (plan.clusters.map (·.broker)).Nodup
  brokers : ∀ b, b ∈ plan.clusters.map (·.broker) ↔ ∃ i ∈ graph.inputs, i.broker = b
  workers : workers = plan.clusters.mapIdx fun i cluster =>
    Supervisor.configured c { WorkerSpec.ofCluster id cluster with segment := i }
  unwanted : o.producer = none → producers = []
  wanted : ∀ p, o.producer = some p → producers.length = graph.inputs.length ∧
    ∀ (j : Nat) (input : Endpoint), graph.inputs[j]? = some input → ∃ segment cluster,
      plan.clusters[segment]? = some cluster ∧ input ∈ cluster.inputs ∧
      (∀ (i : Nat) other, plan.clusters[i]? = some other → input ∈ other.inputs → i = segment) ∧
      producers[j]? = some (Supervisor.configured c
        (.ofProducer id segment ⟨input.broker, input.topic, p.channels, p.frequency, none⟩))

namespace Plan

variable {g : Graph} {p : Plan} {first tag : String}

/-- The clusters of the plan of a graph, as they are numbered. -/
theorem clusters_of_compile (h : compile g = .ok p) (i : Nat) : (p.assignGroups first tag).clusters[i]? =
    ((brokers g)[i]?).map fun b => { part g i b with
      group := first ++ "-" ++ toString g.pipeline ++ "-" ++ tag ++ "-" ++ toString i } := by
  cases hinputs : g.inputs with
  | nil => simp [compile, hinputs] at h
  | cons input inputs =>
      rw [compile_eq (by simp [hinputs])] at h
      obtain rfl := Except.ok.inj h
      simp only [assignGroups, List.getElem?_map, List.getElem?_mapIdx, Option.map_map]
      rfl

theorem exists_cluster (h : compile g = .ok p) (first tag : String) {i : Nat} {b : String}
    (hb : (brokers g)[i]? = some b) :
    ∃ cluster, (p.assignGroups first tag).clusters[i]? = some cluster ∧
      ∀ input, input ∈ cluster.inputs ↔ input ∈ g.inputs ∧ input.broker = b := by
  refine ⟨_, (clusters_of_compile h i).trans (Option.map_eq_some_iff.mpr ⟨b, hb, rfl⟩), fun input => ?_⟩
  dsimp only
  exact mem_inputs

theorem brokers_of_compile (h : compile g = .ok p) :
    (p.assignGroups first tag).clusters.map (·.broker) = brokers g := by
  refine List.ext_getElem? fun i => ?_
  rw [List.getElem?_map, clusters_of_compile h, Option.map_map]
  exact congrFun Option.map_id _

/-- The segment of a producer is the number of the broker of its input. -/
theorem findIdx?_of_compile (h : compile g = .ok p) (first tag : String) {input : Endpoint}
    (hinput : input ∈ g.inputs) :
    ∃ i, (p.assignGroups first tag).clusters.findIdx? (·.broker = input.broker) = some i ∧
      (brokers g)[i]? = some input.broker := by
  have hbrokers : (p.assignGroups first tag).clusters.findIdx? (fun c => c.broker = input.broker) =
      (brokers g).findIdx? (fun b => b = input.broker) := by
    rw [← brokers_of_compile h, List.findIdx?_map]
    rfl
  rw [hbrokers]
  cases hfind : (brokers g).findIdx? (fun b => b = input.broker) with
  | none => exact absurd (List.findIdx?_eq_none_iff.mp hfind _ (mem_brokers hinput)) (by simp)
  | some i =>
      obtain ⟨hlt, hbroker, -⟩ := List.findIdx?_eq_some_iff_getElem.mp hfind
      exact ⟨i, rfl, (List.getElem?_eq_getElem hlt).trans (congrArg some (of_decide_eq_true hbroker))⟩

end Plan

theorem staff_of_compile {graph : Graph} {compiled : Plan} (h : Plan.compile graph = .ok compiled) (c : Config)
    (id : PipelineId) (o : StartOptions) (tag : String) :
    let plan := compiled.assignGroups c.groupPrefix tag
    Staff c id o graph plan (Supervisor.workerSpecs c id plan)
      (Supervisor.producerSpecs c id plan graph.inputs o.producer) := by
  intro plan
  constructor
  case distinct => rw [Plan.brokers_of_compile h]; exact Plan.nodup_brokers graph
  case brokers => intro b; rw [Plan.brokers_of_compile h, Plan.brokers, List.mem_eraseDups, List.mem_map]
  case workers =>
    refine List.ext_getElem? fun i => ?_
    rw [Supervisor.workerSpecs, List.getElem?_map, List.getElem?_mapIdx, Plan.clusters_of_compile h]
    cases (Plan.brokers graph)[i]? <;> rfl
  case unwanted => intro hnone; rw [Supervisor.producerSpecs, hnone]; rfl
  case wanted =>
    intro p hp
    rw [Supervisor.producerSpecs, hp, Option.toList_some, List.flatMap_singleton]
    refine ⟨List.length_map _, fun j input hinput => ?_⟩
    have hmem : input ∈ graph.inputs := List.mem_of_getElem? hinput
    obtain ⟨i, hfind, hbroker⟩ := Plan.findIdx?_of_compile h c.groupPrefix tag hmem
    obtain ⟨cluster, hcluster, hinputs⟩ := Plan.exists_cluster h c.groupPrefix tag hbroker
    refine ⟨i, cluster, hcluster, (hinputs input).mpr ⟨hmem, rfl⟩, fun i' other hother hheld => ?_, ?_⟩
    -- another cluster has another broker
    · obtain ⟨b, hb, -⟩ := Option.map_eq_some_iff.mp ((Plan.clusters_of_compile h i').symm.trans hother)
      obtain ⟨cluster', hcluster', hinputs'⟩ := Plan.exists_cluster h c.groupPrefix tag hb
      obtain rfl : cluster' = other := Option.some.inj (hcluster'.symm.trans hother)
      obtain rfl : input.broker = b := ((hinputs' input).mp hheld).2
      obtain ⟨hlt, hi⟩ := List.getElem?_eq_some_iff.mp hbroker
      obtain ⟨hlt', hi'⟩ := List.getElem?_eq_some_iff.mp hb
      exact (Plan.nodup_brokers graph).getElem_inj_iff.mp (hi'.trans hi.symm)
    · rw [List.getElem?_map, hinput, Option.map_some, Function.comp_apply, Supervisor.producerSpec, hfind]
      rfl

/-- A start has done what it reports: it has fetched one graph and found that valid, and it has started one process for
every job that the plan of this graph takes, and none beside them. -/
structure Accomplished (c : Config) (id : PipelineId) (o : StartOptions) (done : Doings) (r : StartReport) (graph : Graph)
    (plan : Plan) (workers producers : List WorkerSpec) : Prop where
  fetched : done.fetches = [.ok graph]
  /-- The report of the only validation is without an error, and its warnings are handed on. -/
  validated : ∃ findings, done.validations = [(graph, findings)] ∧ findings.valid = true ∧ r.warnings = findings.warnings
  planned : ∃ compiled tag, Plan.compile graph = .ok compiled ∧ plan = compiled.assignGroups c.groupPrefix tag
  assigned : done.groups = plan.clusters.map (·.group)
  staff : Staff c id o graph plan workers producers
  jobs : done.jobs = workers ++ producers
  processes : done.processes.map (·.1.label) = done.jobs.map (·.label)
  reported : r.pipeline = id ∧ r.segments = workers.length ∧ r.producers = producers.length
  numbers : r.processes = done.processes.map (·.2) ∧ r.processes.length = workers.length + producers.length

namespace Threads

variable {config : Config} {τ : List Deed} {x x' : Threads} {k : Nat} {env : Surroundings} {t : Thread}
  {s s' : Supervisor} {r : StartReport}

theorem does_of_ok (h : Thread.Does env s t (.answered (.started (.ok r))) s') :
    ∃ id, t = .leaving id (.entered r) ∧ s' = s.unmark id := by
  generalize hover : Thread.answered (.started (.ok r)) = t' at h
  cases h with
  | answers hc hstep =>
      have habstains := Supervisor.abstains_step env (s := s) hc
      rw [hstep] at habstains
      exact absurd (Thread.answered.inj hover).symm (habstains.1 _)
  | @concludes id moved =>
      have habstains : s.Abstains (.answer (s.concludeAbort id moved).1 _) :=
        Supervisor.abstains_concludeAbort rfl moved
      exact absurd (Thread.answered.inj hover).symm (habstains.1 _)
  | @leaves id o =>
      cases o with
      | entered r' =>
          obtain rfl := Except.ok.inj (Answer.started.inj (Thread.answered.inj hover))
          exact ⟨id, rfl, rfl⟩
      | _ => cases hover
  | _ => cases hover

theorem Crew.length_producers {jobs : List WorkerSpec} {processes : List (Subprocess × Nat)} {ms : List Member}
    (h : Crew jobs processes ms) : (ms.filter (·.isProducer)).length = (jobs.filter (·.isProducer)).length := by
  have hcount := congrArg (List.countP id) h.roles
  rwa [List.countP_map, List.countP_map, List.countP_eq_length_filter, List.countP_eq_length_filter] at hcount

theorem filter_isProducer_specs (c : Config) (id : PipelineId) (p : Plan) (inputs : List Endpoint)
    (producer : Option ProducerOptions) : (Supervisor.specs c id p inputs producer).filter (·.isProducer) =
      Supervisor.producerSpecs c id p inputs producer := by
  have hworkers : (Supervisor.workerSpecs c id p).filter (·.isProducer) = [] := by
    refine List.filter_eq_nil_iff.mpr fun spec hspec => ?_
    obtain ⟨cluster, -, rfl⟩ := List.mem_map.mp hspec
    exact Bool.false_ne_true
  rw [Supervisor.specs_eq_append, List.filter_append, hworkers, List.nil_append, List.filter_eq_self]
  exact fun spec hspec => (Supervisor.of_mem_producerSpecs c id p inputs producer hspec).2

theorem Launched.accomplished {l : Launch} {report : Report} {processes : List (Subprocess × Nat)} {ms : List Member}
    (h : Launched config τ k l report processes ms) : Accomplished config l.id l.options (doings τ k) (l.report ms) l.graph
      l.plan (Supervisor.workerSpecs config l.id l.plan)
      (Supervisor.producerSpecs config l.id l.plan l.graph.inputs l.options.producer) := by
  obtain ⟨compiled, tag, hcompiled, hplan⟩ := h.prepared.planned
  have hjobs := Supervisor.specs_eq_append config l.id l.plan l.graph.inputs l.options.producer
  have hdone := h.prepared.done
  have hlength : processes.length =
      (Supervisor.specs config l.id l.plan l.graph.inputs l.options.producer).length := by
    simpa using congrArg List.length h.crew.labels
  constructor
  case staff => rw [hplan]; exact staff_of_compile hcompiled config l.id l.options tag
  case fetched => rw [hdone]
  case validated => exact ⟨report, by rw [hdone], h.prepared.valid, h.prepared.warnings⟩
  case planned => exact ⟨compiled, tag, hcompiled, hplan⟩
  case assigned => rw [hdone]; rfl
  case jobs => rw [hdone, hjobs]
  case processes => rw [hdone]; exact h.crew.labels
  case reported =>
    refine ⟨rfl, (List.length_map _).symm, h.crew.length_producers.trans ?_⟩
    rw [filter_isProducer_specs]
  case numbers =>
    rw [hdone]
    refine ⟨h.crew.numbers, ?_⟩
    rw [Launch.report, h.crew.numbers, List.length_map, hlength, hjobs, List.length_append]

/-- A start that succeeds has fetched one graph, whatever becomes of the stored one, and has found that valid; it has
started one worker for each broker of its inputs and, if it was to, one producer for each input; the record of the run
counts the workers, and the report tells what was started. -/
theorem successful_start_launches_its_plan (h : History config τ x) (hplay : x.play (.proceed k env) = some x')
    (hover : x'.threads[k]? = some (.answered (.started (.ok r)))) :
    ∃ id o graph plan workers producers, Asked τ k id o ∧
      Accomplished config id o (doings (τ ++ [⟨x, .proceed k env, x'⟩]) k) r graph plan workers producers ∧
      CountsTo x'.supervisor id workers.length := by
  obtain ⟨t, t', ht, hstep, hthreads⟩ := proceed_eq_some hplay
  obtain ⟨hlt, -⟩ := List.getElem?_eq_some_iff.mp ht
  obtain rfl : t' = .answered (.started (.ok r)) := by
    rw [hthreads, List.getElem?_set_self hlt] at hover
    exact Option.some.inj hover
  obtain ⟨id, rfl, hafter⟩ := does_of_ok (Thread.does_step hstep)
  obtain ⟨l, report, processes, ms, hlaunched, rfl, rfl⟩ := h.progress ht
  have hsame : doings (τ ++ [⟨x, .proceed k env, x'⟩]) k = doings τ k := by
    rw [doings_append_of ht hover, Doings.ofStep_eq (by rw [hafter]; rfl) (by rw [hafter]; rfl)]
    exact Doings.append_empty _
  have haccomplished := hlaunched.accomplished
  refine ⟨l.id, l.options, l.graph, l.plan, _, _, hlaunched.prepared.asked, hsame ▸ haccomplished, ?_⟩
  rw [← haccomplished.reported.2.1, hafter]
  exact h.counts ht

def threefold : Graph where
  pipeline := 1
  name := "threefold"
  inputs := [⟨1, none, "in", "near", none⟩, ⟨2, none, "in", "far", none⟩, ⟨3, none, "more", "near", none⟩]
  outputs := [⟨1, none, "out", "near", none⟩, ⟨2, none, "out", "far", none⟩]
  transformations := []
  flows := [⟨none, .input 1, .output 1⟩, ⟨none, .input 2, .output 2⟩, ⟨none, .input 3, .output 1⟩]

def keeping (graph : Option Graph) : Surroundings where
  fetch _ := .ok graph
  reachable _ := true
  launch _ _ := .ok (.ok {})
  stamp := ""

/-- A start whose graph vanishes once it is fetched, up to the step before its answer. -/
def vanishing : List Move :=
  .ask (.startOf 1 ⟨none, none⟩) ::
    (List.replicate 3 (.proceed 0 (keeping (some threefold))) ++ List.replicate 8 (.proceed 0 (keeping none)))

/-- The workers for two brokers are started, and the graph of which they run the clusters is not stored any more. -/
theorem vanishing_launches_its_plan : ∃ τ x x' r id o graph plan workers producers, History {} τ x ∧
    x.play (.proceed 0 (keeping none)) = some x' ∧ x'.threads[0]? = some (.answered (.started (.ok r))) ∧
    Asked τ 0 id o ∧
    Accomplished {} id o (doings (τ ++ [⟨x, .proceed 0 (keeping none), x'⟩]) 0) r graph plan workers producers ∧
    CountsTo x'.supervisor id workers.length ∧ workers.length = 2 := by
  obtain ⟨x, x', r, hplayed, hplay, hover, hsegments⟩ : ∃ x x' r,
      vanishing.foldlM play (ofConfig {}) = some x ∧ x.play (.proceed 0 (keeping none)) = some x' ∧
        x'.threads[0]? = some (.answered (.started (.ok r))) ∧ r.segments = 2 := ⟨_, _, _, rfl, rfl, rfl, rfl⟩
  have h : History {} _ x := History.start.plays vanishing hplayed
  obtain ⟨id, o, graph, plan, workers, producers, hasked, haccomplished, hcounts⟩ :=
    successful_start_launches_its_plan h hplay hover
  exact ⟨_, x, x', r, id, o, graph, plan, workers, producers, h, hplay, hover, hasked, haccomplished, hcounts,
    haccomplished.reported.2.1.symm.trans hsegments⟩

end Threads

end Pipeworks
