import Pipeworks.Proofs.Plan.Partition
import Pipeworks.Proofs.Supervisor.ThreadSteps
import Pipeworks.Proofs.Text.Unsigned
import Mathlib.Data.List.Pairwise

/-!
The names of consumer groups. A name ends with the number of the run and the index of the cluster, each after a hyphen,
and neither has a hyphen in it; so whatever stands before them, be it a setting, a pipeline or the time, two names are
equal only if both numbers are. No two runs have one number, and no two clusters of a plan have one index.
-/

namespace Pipeworks

/-! ### Numbers after hyphens -/

theorem hyphen_notMem_toDigits (n : Nat) : '-' ∉ Nat.toDigits 10 n := fun h =>
  absurd (Text.isDigit_of_mem_toDigits h) (by decide)

/-- The last hyphen is where the digits begin. -/
theorem eq_nil_of_hyphen {more digits digits' : List Char} (hdigits : '-' ∉ digits)
    (h : '-' :: digits = more ++ '-' :: digits') : more = [] := by
  cases more with
  | nil => rfl
  | cons c more => exact absurd ((List.cons.inj h).2 ▸ List.mem_append_right _ List.mem_cons_self) hdigits

/-- A text tells what stands before its last hyphen, and the number after it. -/
theorem eq_of_hyphenated {a b : String} {n m : Nat} (h : a ++ "-" ++ toString n = b ++ "-" ++ toString m) :
    a = b ∧ n = m := by
  have hchars : a.toList ++ '-' :: Nat.toDigits 10 n = b.toList ++ '-' :: Nat.toDigits 10 m := by
    have hlists := congrArg String.toList h
    simpa [Nat.toString_eq_repr, Nat.toList_repr] using hlists
  have hstart : a.toList = b.toList := by
    rcases List.append_eq_append_iff.mp hchars with ⟨more, hb, hrest⟩ | ⟨more, ha, hrest⟩
    · rw [hb, eq_nil_of_hyphen (hyphen_notMem_toDigits n) hrest, List.append_nil]
    · rw [ha, eq_nil_of_hyphen (hyphen_notMem_toDigits m) hrest, List.append_nil]
  rw [hstart] at hchars
  have hdigits := (List.cons.inj (List.append_cancel_left hchars)).2
  refine ⟨String.toList_injective hstart, ?_⟩
  calc
    n = Nat.ofDigitChars 10 (Nat.toDigits 10 n) 0 := Nat.ofDigitChars_ten_toDigits.symm
    _ = Nat.ofDigitChars 10 (Nat.toDigits 10 m) 0 := by rw [hdigits]
    _ = m := Nat.ofDigitChars_ten_toDigits

/-! ### Names -/

/-- The name of a group: whatever stands in front, the number of the run, and the index of the cluster. -/
def groupName (start : String) (run index : Nat) : String := start ++ "-" ++ toString run ++ "-" ++ toString index

theorem groupName_inj {start start' : String} {run run' index index' : Nat}
    (h : groupName start run index = groupName start' run' index') : run = run' ∧ index = index' :=
  have ⟨hstart, hindex⟩ := eq_of_hyphenated h
  ⟨(eq_of_hyphenated hstart).2, hindex⟩

def Plan.groups (p : Plan) : List String := p.clusters.map (·.group)

def Plan.indices (p : Plan) : List Nat := p.clusters.map (·.index)

/-- The names that a plan gets for a run end with the number of the run and the indices of its clusters. -/
theorem Plan.groups_assignGroups (p : Plan) (first : String) (s : Supervisor) (env : Surroundings) :
    ∃ start, (p.assignGroups first (s.runTag env)).groups = p.indices.map (groupName start s.sequence) := by
  refine ⟨first ++ "-" ++ toString p.pipeline ++ "-" ++ env.stamp, ?_⟩
  rw [groups, indices, assignGroups, List.map_map, List.map_map]
  refine List.map_congr_left fun c _ => ?_
  simp only [Function.comp_apply, groupName, Supervisor.runTag, String.append_assoc]

theorem Plan.indices_assignGroups (p : Plan) (first tag : String) : (p.assignGroups first tag).indices = p.indices := by
  rw [indices, assignGroups, List.map_map]
  rfl

theorem Plan.nodup_indices_of_compile {g : Graph} {p : Plan} (h : Plan.compile g = .ok p) : p.indices.Nodup := by
  cases hinputs : g.inputs with
  | nil => simp [compile, hinputs] at h
  | cons i is =>
      rw [compile_eq (by simp [hinputs])] at h
      obtain rfl := Except.ok.inj h
      rw [indices, map_index_parts]
      exact List.nodup_range

def WorkerSpec.group? (s : WorkerSpec) : Option String :=
  match s.role with
  | .cluster c => some c.group
  | .producer _ => none

namespace Supervisor

def workerSpecs (c : Config) (id : PipelineId) (p : Plan) : List WorkerSpec :=
  p.clusters.map (configured c ∘ WorkerSpec.ofCluster id)

def producerSpecs (c : Config) (id : PipelineId) (p : Plan) (inputs : List Endpoint)
    (producer : Option ProducerOptions) : List WorkerSpec :=
  producer.toList.flatMap fun o => inputs.map (configured c ∘ producerSpec id p o)

section

variable (c : Config) (id : PipelineId) (p : Plan) (inputs : List Endpoint) (producer : Option ProducerOptions)

theorem specs_eq_append :
    specs c id p inputs producer = workerSpecs c id p ++ producerSpecs c id p inputs producer := by
  unfold specs
  dsimp only
  rw [List.map_append, List.map_map]
  cases producer with
  | none => rfl
  | some o => rw [producerSpecs, Option.toList_some, List.flatMap_singleton, List.map_map]; rfl

theorem of_mem_producerSpecs {spec : WorkerSpec} (h : spec ∈ producerSpecs c id p inputs producer) :
    spec.group? = none ∧ spec.isProducer = true := by
  obtain ⟨o, -, h⟩ := List.mem_flatMap.mp h
  obtain ⟨input, -, rfl⟩ := List.mem_map.mp h
  exact ⟨rfl, rfl⟩

theorem filterMap_group_specs : (specs c id p inputs producer).filterMap WorkerSpec.group? = p.groups := by
  have hworkers : (workerSpecs c id p).filterMap WorkerSpec.group? = p.groups := by
    rw [workerSpecs, List.filterMap_map]
    exact congrFun List.filterMap_eq_map p.clusters
  rw [specs_eq_append, List.filterMap_append, hworkers, List.append_right_eq_self, List.filterMap_eq_nil_iff]
  exact fun spec hspec => (of_mem_producerSpecs c id p inputs producer hspec).1

end

def workGroups (s : Supervisor) : List String := s.launched.filterMap WorkerSpec.group?

end Supervisor

namespace Thread

variable {env : Surroundings} {s s' : Supervisor} {t t' : Thread}

def assigned : Thread → Thread → List String
  | launching _ .numbering, launching l .forgetting => l.plan.groups
  | _, _ => []

/-- The names that a start has given, and of which no worker knows yet. -/
def unspent : Thread → List String
  | launching l .forgetting => l.plan.groups
  | launching l .recording => l.plan.groups
  | launching _ (.spawning specs _) => specs.filterMap WorkerSpec.group?
  | _ => []

def Indexed : Thread → Prop
  | launching l _ => l.plan.indices.Nodup
  | _ => True

namespace Does

theorem indexed (h : Does env s t t' s') (ht : t.Indexed) : t'.Indexed := by
  cases h with
  | compiled _ hplan => exact Plan.nodup_indices_of_compile hplan
  | @numbers l =>
      rw [Indexed, Plan.indices_assignGroups]
      exact ht
  | forgets | records | spawns => exact ht
  | _ => trivial

/-- Names are given by the step that takes the number of the run, and all end with it. -/
theorem assigned (h : Does env s t t' s') (ht : t.Indexed) : t.assigned t' = [] ∧ s'.sequence = s.sequence ∨
    s'.sequence = s.sequence + 1 ∧ ∃ (start : String) (indices : List Nat), indices.Nodup ∧
      t.assigned t' = indices.map (groupName start s.sequence) := by
  have hbooks := h.books
  cases h with
  | @numbers l =>
      obtain ⟨start, hstart⟩ := Plan.groups_assignGroups l.plan s.config.groupPrefix s env
      exact .inr ⟨rfl, start, _, ht, hstart⟩
  | spawns hspawn => exact .inl ⟨rfl, congrArg (·.2.1) (Supervisor.books_of_spawn hspawn)⟩
  | breaks hspawn => exact .inl ⟨rfl, congrArg (·.2.1) (Supervisor.books_of_spawn hspawn)⟩
  | _ =>
      refine .inl ⟨rfl, Supervisor.sequence_of_books (hbooks.resolve_right ?_)⟩
      rintro (⟨l, ⟨⟩, -⟩ | ⟨l, spec, specs, ms, ⟨⟩, -⟩)

theorem count_workGroups {spec : WorkerSpec} (hbooks : s'.books = (s.config, s.sequence, s.launched ++ [spec]))
    (specs : List WorkerSpec) (name : String) :
    s'.workGroups.count name + (specs.filterMap WorkerSpec.group?).count name =
      s.workGroups.count name + ((spec :: specs).filterMap WorkerSpec.group?).count name := by
  have hlaunched : s'.launched = s.launched ++ [spec] := congrArg (·.2.2) hbooks
  have hcons : (spec :: specs).filterMap WorkerSpec.group? =
      [spec].filterMap WorkerSpec.group? ++ specs.filterMap WorkerSpec.group? := List.filterMap_append (l := [spec])
  rw [Supervisor.workGroups, hlaunched, List.filterMap_append, hcons, List.count_append, List.count_append]
  exact Nat.add_assoc ..

/-- A name that a worker gets was given before, and is not used for another one. -/
theorem spends (h : Does env s t t' s') (name : String) :
    s'.workGroups.count name + t'.unspent.count name ≤
      s.workGroups.count name + t.unspent.count name + (t.assigned t').count name := by
  have hbooks := h.books
  cases h with
  | numbers => exact Nat.le_of_eq (Nat.add_right_comm _ 0 _).symm
  | forgets => exact Nat.le_refl _
  | @records l =>
      have hjobs : unspent (launching l (.spawning (Supervisor.specs s.config l.id l.plan l.graph.inputs
          l.options.producer) [])) = l.plan.groups := Supervisor.filterMap_group_specs ..
      rw [hjobs]
      exact Nat.le_refl _
  | spawns hspawn => exact (count_workGroups (Supervisor.books_of_spawn hspawn) _ name).le
  | @breaks l spec specs ms e s' hspawn =>
      have hcount := count_workGroups (Supervisor.books_of_spawn hspawn) specs name
      exact (Nat.le_add_right _ _).trans hcount.le
  | _ =>
      have hsame := hbooks.resolve_right (by rintro (⟨l, ⟨⟩, -⟩ | ⟨l, spec, specs, ms, ⟨⟩, -⟩))
      rw [Supervisor.workGroups, Supervisor.launched_of_books hsame]
      exact Nat.le_refl _

end Does

end Thread

namespace Threads

variable {config : Config} {τ : List Deed} {x x' : Threads} {m : Move} {k l : Nat} {env : Surroundings}
  {t t' : Thread} {s' : Supervisor}

def Deed.assigned (d : Deed) : List String :=
  match d.move with
  | .proceed k _ =>
    match d.before.threads[k]?, d.after.threads[k]? with
    | some t, some t' => t.assigned t'
    | _, _ => []
  | _ => []

def groups (τ : List Deed) (k : Nat) : List String := (deeds τ k).flatMap Deed.assigned

/-- What is known of all names that were given so far. -/
structure Named (names : List String) (x : Threads) : Prop where
  indexed : ∀ t ∈ x.threads, t.Indexed
  /-- A name ends with the number of a run that was begun. -/
  dated : ∀ name ∈ names, ∃ start run index, run < x.supervisor.sequence ∧ name = groupName start run index
  fresh : names.Nodup
  /-- A worker has its name from a start, which has no other use for it. -/
  spent : ∀ name, (x.supervisor.workGroups ++ x.threads.flatMap Thread.unspent).count name ≤ names.count name

variable {names : List String}

theorem Named.of_same (h : Named names x) (hbooks : x'.supervisor.books = x.supervisor.books)
    (hindexed : ∀ t ∈ x'.threads, t.Indexed)
    (hunspent : ∀ name, (x'.threads.flatMap Thread.unspent).count name ≤ (x.threads.flatMap Thread.unspent).count name) :
    Named names x' where
  indexed := hindexed
  dated name hname := by
    rw [Supervisor.sequence_of_books hbooks]
    exact h.dated name hname
  fresh := h.fresh
  spent name := by
    have hspent := h.spent name
    have hless := hunspent name
    rw [List.count_append] at hspent ⊢
    rw [Supervisor.workGroups, Supervisor.launched_of_books hbooks, ← Supervisor.workGroups]
    omega

theorem count_flatMap_set (hk : x.threads[k]? = some t) (t' : Thread) (f : Thread → List String) (name : String) :
    ((x.threads.set k t').flatMap f).count name + (f t).count name =
      (x.threads.flatMap f).count name + (f t').count name := by
  obtain ⟨hlt, rfl⟩ := List.getElem?_eq_some_iff.mp hk
  have hafter := ((List.set_perm_cons_eraseIdx hlt t').flatMap_right f).count_eq name
  have hbefore := ((List.getElem_cons_eraseIdx_perm hlt).flatMap_right f).count_eq name
  rw [List.flatMap_cons, List.count_append] at hafter hbefore
  omega

theorem Named.goes (h : Named names x) (ht : x.threads[k]? = some t) (hdoes : Thread.Does env x.supervisor t t' s') :
    Named (names ++ t.assigned t') ⟨s', x.threads.set k t'⟩ where
  indexed u hu := by
    rcases List.mem_or_eq_of_mem_set hu with hu | rfl
    · exact h.indexed u hu
    · exact hdoes.indexed (h.indexed t (List.mem_of_getElem? ht))
  dated name hname := by
    have hnumbered := hdoes.assigned (h.indexed t (List.mem_of_getElem? ht))
    rcases List.mem_append.mp hname with hold | hnew
    · obtain ⟨start, run, index, hlt, rfl⟩ := h.dated name hold
      have hle : x.supervisor.sequence ≤ s'.sequence := by
        rcases hnumbered with ⟨-, hsame⟩ | ⟨hnext, -⟩ <;> omega
      exact ⟨start, run, index, hlt.trans_le hle, rfl⟩
    · rcases hnumbered with ⟨hnone, -⟩ | ⟨hnext, start, indices, -, hnames⟩
      · exact absurd (hnone ▸ hnew) List.not_mem_nil
      · obtain ⟨index, -, rfl⟩ := List.mem_map.mp (hnames ▸ hnew)
        exact ⟨start, _, index, hnext ▸ Nat.lt_succ_self _, rfl⟩
  fresh := by
    rcases hdoes.assigned (h.indexed t (List.mem_of_getElem? ht)) with
      ⟨hnone, -⟩ | ⟨-, start, indices, hindices, hnames⟩
    · rw [hnone, List.append_nil]
      exact h.fresh
    · rw [hnames]
      refine List.nodup_append.mpr ⟨h.fresh, hindices.map fun i j hij => (groupName_inj hij).2, ?_⟩
      -- the names given before end with smaller numbers
      rintro name hold _ hnew rfl
      obtain ⟨start', run, index', hlt, rfl⟩ := h.dated name hold
      obtain ⟨index, -, heq⟩ := List.mem_map.mp hnew
      exact absurd (groupName_inj heq).1.symm (Nat.ne_of_lt hlt)
  spent name := by
    have hspent := h.spent name
    have hspends := hdoes.spends name
    have hset := count_flatMap_set ht t' Thread.unspent name
    rw [List.count_append] at hspent
    rw [List.count_append, List.count_append]
    dsimp only
    omega

theorem Named.plays (h : Named names x) (hplay : x.play m = some x') :
    Named (names ++ Deed.assigned ⟨x, m, x'⟩) x' := by
  cases happens_of_play hplay with
  | @goes k env t t' s' ht hdoes =>
      obtain ⟨hlt, -⟩ := List.getElem?_eq_some_iff.mp ht
      have hassigned : Deed.assigned ⟨x, .proceed k env, ⟨s', x.threads.set k t'⟩⟩ = t.assigned t' := by
        simp only [Deed.assigned, ht, List.getElem?_set_self hlt]
      rw [hassigned]
      exact h.goes ht hdoes
  | @asks c hnew =>
      rw [show Deed.assigned ⟨x, .ask c, _⟩ = [] from rfl, List.append_nil]
      refine h.of_same rfl (fun t ht => ?_) fun name => ?_
      · rcases List.mem_append.mp ht with ht | ht
        · exact h.indexed t ht
        · obtain rfl := List.mem_singleton.mp ht
          trivial
      · rw [List.flatMap_append]
        exact (congrArg (List.count name) (List.append_nil _)).le
  | @drifts m s' hmove hdrifts =>
      have hassigned : Deed.assigned ⟨x, m, { x with supervisor := s' }⟩ = [] := by
        cases m with
        | proceed l env => exact absurd rfl (hmove l env)
        | _ => rfl
      rw [hassigned, List.append_nil]
      exact h.of_same hdrifts.books h.indexed fun _ => le_refl _

theorem books_abandonStart (s : Supervisor) (id : PipelineId) (stage : StartStage) :
    (s.abandonStart id stage).books = s.books := by
  cases stage <;> rfl

theorem Named.abandon (h : Named names x) (hgone : x.abandon k = some x') : Named names x' := by
  rw [Threads.abandon] at hgone
  split at hgone
  · rename_i id o stage ht
    obtain rfl := Option.some.inj hgone
    refine h.of_same (books_abandonStart _ _ _) (fun t ht' => ?_) fun name => ?_
    · rcases List.mem_or_eq_of_mem_set ht' with ht' | rfl
      · exact h.indexed t ht'
      · trivial
    · exact (count_flatMap_set ht (.answered .done) Thread.unspent name).le
  · cases hgone

theorem Annals.named (h : Annals config τ x) : Named (τ.flatMap Deed.assigned) x := by
  induction h with
  | start => exact ⟨fun t ht => absurd ht List.not_mem_nil, fun _ hname => absurd hname List.not_mem_nil, .nil,
      fun name => le_refl _⟩
  | move _ hplay ih =>
      rw [List.flatMap_append, List.flatMap_singleton]
      exact ih.plays hplay
  | giveUp _ hgone ih =>
      rw [List.flatMap_append, List.flatMap_singleton, show Deed.assigned ⟨_, .giveUp _, _⟩ = [] from rfl,
        List.append_nil]
      exact ih.abandon hgone

theorem History.annals (h : History config τ x) : Annals config τ x := by
  induction h with
  | start => exact .start
  | move _ hplay ih => exact ih.move hplay

theorem mem_groups_of_mem {name : String} (h : name ∈ τ.flatMap Deed.assigned) : ∃ k, name ∈ groups τ k := by
  obtain ⟨d, hd, hname⟩ := List.mem_flatMap.mp h
  obtain ⟨y, m, y'⟩ := d
  cases m with
  | proceed k env => exact ⟨k, List.mem_flatMap.mpr ⟨_, List.mem_filter.mpr ⟨hd, decide_eq_true rfl⟩, hname⟩⟩
  | _ => exact absurd hname List.not_mem_nil

/-- No two clusters of a start get one name for their groups, nor do clusters of two starts, whatever stands before the
numbers in the names; and no two workers ever read in one group, each of which has its name from a start. -/
theorem consumer_groups_are_never_reused (h : Annals config τ x) :
    (∀ k, (groups τ k).Nodup) ∧ (∀ k l, k ≠ l → (groups τ k).Disjoint (groups τ l)) ∧
      x.supervisor.workGroups.Nodup ∧ ∀ name ∈ x.supervisor.workGroups, ∃ k, name ∈ groups τ k := by
  have hnamed := h.named
  obtain ⟨hown, hothers⟩ := List.nodup_flatMap.mp hnamed.fresh
  have hworkers (name : String) : x.supervisor.workGroups.count name ≤ (τ.flatMap Deed.assigned).count name :=
    le_trans (by rw [List.count_append]; exact Nat.le_add_right _ _) (hnamed.spent name)
  refine ⟨fun k => ?_, fun k l hkl name hk hl => ?_, ?_, fun name hname => ?_⟩
  · exact List.nodup_flatMap.mpr ⟨fun d hd => hown d (List.mem_of_mem_filter hd), hothers.sublist List.filter_sublist⟩
  · obtain ⟨d, hd, hname⟩ := List.mem_flatMap.mp hk
    obtain ⟨d', hd', hname'⟩ := List.mem_flatMap.mp hl
    obtain ⟨hd, hof⟩ := List.mem_filter.mp hd
    obtain ⟨hd', hof'⟩ := List.mem_filter.mp hd'
    have hne : d ≠ d' := by
      rintro rfl
      obtain ⟨y, m, y'⟩ := d
      cases m with
      | proceed j env => exact hkl ((of_decide_eq_true hof).symm.trans (of_decide_eq_true hof'))
      | _ => cases hof
    have : Std.Symm (Function.onFun List.Disjoint Deed.assigned) := ⟨fun _ _ hdisjoint _ h h' => hdisjoint h' h⟩
    exact hothers.forall hd hd' hne hname hname'
  · exact List.nodup_iff_count_le_one.mpr fun name =>
      (hworkers name).trans (List.nodup_iff_count_le_one.mp hnamed.fresh name)
  · exact mem_groups_of_mem (List.count_pos_iff.mp ((List.count_pos_iff.mpr hname).trans_le (hworkers name)))

def forked (id : PipelineId) : Graph where
  pipeline := id
  name := "forked"
  inputs := [⟨1, none, "in", "near", none⟩, ⟨2, none, "in", "far", none⟩]
  outputs := [⟨1, none, "out", "near", none⟩, ⟨2, none, "out", "far", none⟩]
  transformations := []
  flows := [⟨none, .input 1, .output 1⟩, ⟨none, .input 2, .output 2⟩]

def atTime (stamp : String) : Surroundings where
  fetch id := .ok (some (forked id))
  reachable _ := true
  launch _ _ := .ok (.ok {})
  stamp

/-- Two starts, the second one at a time before the first one. -/
def backwards : List Move :=
  List.flatten [[.ask (.startOf 1 ⟨none, none⟩), .ask (.startOf (-1) ⟨none, none⟩)],
    List.replicate 8 (.proceed 0 (atTime "1-2")), List.replicate 9 (.proceed 1 (atTime "2")),
    [.proceed 0 (atTime "3")]]

/-- A prefix with hyphens, a negative pipeline and a clock that goes backwards. -/
theorem backwards_never_reuses : ∃ τ x, Annals { groupPrefix := "a-1" } τ x ∧
    groups τ 0 = ["a-1-1-1-2-0-0", "a-1-1-1-2-0-1"] ∧ groups τ 1 = ["a-1--1-2-1-0", "a-1--1-2-1-1"] ∧
    (groups τ 0).Disjoint (groups τ 1) ∧ x.supervisor.workGroups.length = 4 ∧ x.supervisor.workGroups.Nodup := by
  obtain ⟨x, hplayed, hlength⟩ : ∃ x, backwards.foldlM play (ofConfig { groupPrefix := "a-1" }) = some x ∧
      x.supervisor.workGroups.length = 4 := ⟨_, rfl, rfl⟩
  have h := (History.start.plays backwards hplayed).annals
  have hnever := consumer_groups_are_never_reused h
  exact ⟨_, x, h, by decide +kernel, by decide +kernel, hnever.2.1 0 1 Nat.zero_ne_one, hlength, hnever.2.2.1⟩

end Threads

end Pipeworks
