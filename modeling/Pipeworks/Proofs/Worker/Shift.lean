import Pipeworks.Proofs.Worker.Fault
import Pipeworks.Proofs.Worker.Growth
import Mathlib.Logic.Relation

/-!
The whole work of a cluster, from its subscriptions on. The subscriptions are merged in any order, topics grow by what
the cluster publishes itself and by what others do, and the worker may be told to stop at any moment. What it publishes
is, in the merged order, the whole of what each record publishes; only a fault may leave the last record in pieces. Of
every topic a beginning was taken, without gaps.
-/

namespace Pipeworks

variable {σ κ : Type}

/-! ### The work as a whole -/

structure Shift (σ κ : Type) where
  session : Session σ κ
  /-- How far each subscription was read, by the number of its input. -/
  offsets : ℕ → ℕ := fun _ => 0
  /-- The items that were taken, each with the number of its input. -/
  taken : List (ℕ × Arrival) := []
  outcome : Option (Except Error Unit) := none

namespace Shift

variable {link : Link σ κ}

def next? (logs : link.Logs) (r : Runner) (home : κ) (sh : Shift σ κ) (i : ℕ) : Option Arrival := do
  let input ← r.cluster.inputs[i]?
  let item ← (logs.log sh.session.world home input.topic)[sh.offsets i]?
  return ⟨.input input.id, input.topic, item⟩

def took (sh : Shift σ κ) (i : ℕ) (a : Arrival) (session : Session σ κ) (outcome : Option (Except Error Unit)) :
    Shift σ κ :=
  { session, outcome, offsets := Function.update sh.offsets i (sh.offsets i + 1), taken := sh.taken ++ [(i, a)] }

/-- What happens next. Whichever input has an item may be the one that is served, and the end is only noticed between
two items. What others do at the brokers is what `others` allows. -/
inductive Step (logs : link.Logs) (r : Runner) (home : κ) (others : σ → σ → Prop) : Shift σ κ → Shift σ κ → Prop where
  | disturbed {sh : Shift σ κ} {world : σ} :
      others sh.session.world world → Step logs r home others sh { sh with session := { sh.session with world } }
  | handled {sh : Shift σ κ} {i : ℕ} {a : Arrival} {session : Session σ κ} :
      sh.outcome = none → sh.next? logs r home i = some a → r.accept link home a sh.session = .ok () session →
      Step logs r home others sh (sh.took i a session none)
  | faulted {sh : Shift σ κ} {i : ℕ} {a : Arrival} {e : Error} {session : Session σ κ} :
      sh.outcome = none → sh.next? logs r home i = some a → r.accept link home a sh.session = .error e session →
      Step logs r home others sh (sh.took i a session (some (.error e)))
  | stopped {sh : Shift σ κ} : sh.outcome = none → Step logs r home others sh { sh with outcome := some (.ok ()) }

def Reached (logs : link.Logs) (r : Runner) (home : κ) (others : σ → σ → Prop) (s : Session σ κ) : Shift σ κ → Prop :=
  Relation.ReflTransGen (Step logs r home others) { session := s }

def result (sh : Shift σ κ) : EStateM.Result Error (Session σ κ) Unit :=
  match sh.outcome with
  | some (.error e) => .error e sh.session
  | _ => .ok () sh.session

variable {logs : link.Logs} {load : String → Pipeworks.Step} {r : Runner} {home : κ} {others : σ → σ → Prop}
  {s : Session σ κ} {sh sh' : Shift σ κ}

/-! ### What was published -/

/-- The publications of the items that were taken: of all of them, each complete, or of all but the last one, on which a
fault ended the work. -/
def Accounts (r : Runner) (sh : Shift σ κ) (out : List Publication) : Prop :=
  ∃ whole outs rest, List.Forall₂ (fun x out => r.Completes x.2 out) whole outs ∧ out = outs.flatten ++ rest ∧
    ((∀ e, sh.outcome ≠ some (.error e)) ∧ sh.taken = whole ∧ rest = [] ∨
      ∃ e last, sh.outcome = some (.error e) ∧ sh.taken = whole ++ [last] ∧ r.Interrupts last.2 rest)

theorem Step.accounts (htopology : r.topology = Topology.build load r.cluster)
    (hstep : Step logs r home others sh sh') {out : List Publication} (h : sh.Accounts r out)
    (hout : sh.session.published = s.published ++ out) :
    ∃ out', sh'.Accounts r out' ∧ sh'.session.published = s.published ++ out' := by
  -- an item is only taken when no fault has ended the work
  have hall (hopen : sh.outcome = none) : ∃ outs, List.Forall₂ (fun x out => r.Completes x.2 out) sh.taken outs ∧
      out = outs.flatten := by
    obtain ⟨whole, outs, rest, houts, rfl, ⟨-, rfl, rfl⟩ | ⟨e, last, hfault, -, -⟩⟩ := h
    · exact ⟨outs, houts, List.append_nil _⟩
    · rw [hopen] at hfault
      cases hfault
  cases hstep with
  | disturbed _ => exact ⟨out, h, hout⟩
  | @handled i a session hopen _ hrun =>
      obtain ⟨outs, houts, rfl⟩ := hall hopen
      obtain ⟨new, hnew, hpublished⟩ := Runner.completes_of_accept htopology hrun
      refine ⟨outs.flatten ++ new, ⟨sh.taken ++ [(i, a)], outs ++ [new], [], ?_, ?_, .inl ⟨?_, rfl, rfl⟩⟩, ?_⟩
      · exact List.rel_append houts (.cons hnew .nil)
      · rw [List.flatten_append, List.append_nil, List.flatten_singleton]
      · intro e hfault
        cases hfault
      · show session.published = _
        rw [hpublished, hout, List.append_assoc]
  | @faulted i a e session hopen _ hrun =>
      obtain ⟨outs, houts, rfl⟩ := hall hopen
      obtain ⟨new, hnew, hpublished⟩ := Runner.interrupts_of_accept htopology hrun
      refine ⟨outs.flatten ++ new, ⟨sh.taken, outs, new, houts, rfl, .inr ⟨e, (i, a), rfl, rfl, hnew⟩⟩, ?_⟩
      show session.published = _
      rw [hpublished, hout, List.append_assoc]
  | stopped hopen =>
      obtain ⟨outs, houts, rfl⟩ := hall hopen
      refine ⟨outs.flatten, ⟨sh.taken, outs, [], houts, (List.append_nil _).symm, .inl ⟨?_, rfl, rfl⟩⟩, hout⟩
      intro e hfault
      cases hfault

theorem Reached.accounts (htopology : r.topology = Topology.build load r.cluster)
    (h : Reached logs r home others s sh) : ∃ out, sh.Accounts r out ∧ sh.session.published = s.published ++ out := by
  induction h with
  | refl =>
      refine ⟨[], ⟨[], [], [], .nil, rfl, .inl ⟨?_, rfl, rfl⟩⟩, (List.append_nil _).symm⟩
      intro e hfault
      cases hfault
  | tail _ hstep ih =>
      obtain ⟨out, haccounts, hout⟩ := ih
      exact hstep.accounts htopology haccounts hout

/-! ### What was taken -/

/-- The items of an input that were taken are as many of its log as its offset says, from the first one on. -/
structure Reads (logs : link.Logs) (r : Runner) (home : κ) (world : σ) (offsets : ℕ → ℕ) (taken : List (ℕ × Arrival)) :
    Prop where
  known : ∀ x ∈ taken, x.1 < r.cluster.inputs.length
  offset_le {i : ℕ} {input : Endpoint} : r.cluster.inputs[i]? = some input →
    offsets i ≤ (logs.log world home input.topic).length
  taken_eq {i : ℕ} {input : Endpoint} : r.cluster.inputs[i]? = some input →
    (taken.filter (·.1 = i)).map (·.2) =
      ((logs.log world home input.topic).take (offsets i)).map (Arrival.mk (.input input.id) input.topic)

namespace Reads

variable {world world' : σ} {offsets : ℕ → ℕ} {taken : List (ℕ × Arrival)}

theorem grown (h : Reads logs r home world offsets taken) (hworld : Extends logs.log world world') :
    Reads logs r home world' offsets taken := by
  refine ⟨h.known, fun {i input} hi => ?_, fun {i input} hi => ?_⟩
  · exact Nat.le_trans (h.offset_le hi) (hworld home input.topic).length_le
  · obtain ⟨more, hmore⟩ := hworld home input.topic
    rw [h.taken_eq hi, ← hmore, List.take_append_of_le_length (h.offset_le hi)]

theorem took {sh : Shift σ κ} {i : ℕ} {a : Arrival}
    (h : Reads logs r home sh.session.world sh.offsets sh.taken) (hnext : sh.next? logs r home i = some a) :
    Reads logs r home sh.session.world (Function.update sh.offsets i (sh.offsets i + 1)) (sh.taken ++ [(i, a)]) := by
  rw [next?] at hnext
  obtain ⟨input, hinput, hnext⟩ := Option.bind_eq_some_iff.mp hnext
  obtain ⟨item, hitem, ha⟩ := Option.bind_eq_some_iff.mp hnext
  obtain rfl := Option.some.inj ha
  obtain ⟨hi, -⟩ := List.getElem?_eq_some_iff.mp hinput
  obtain ⟨hoffset, -⟩ := List.getElem?_eq_some_iff.mp hitem
  refine ⟨?_, fun {j other} hj => ?_, fun {j other} hj => ?_⟩
  · intro x hx
    rcases List.mem_append.mp hx with hx | hx
    · exact h.known x hx
    · obtain rfl := List.mem_singleton.mp hx
      exact hi
  · by_cases hij : j = i
    · obtain rfl := hij
      obtain rfl := Option.some.inj (hinput.symm.trans hj)
      rw [Function.update_self]
      omega
    · rw [Function.update_of_ne hij]
      exact h.offset_le hj
  · rw [List.filter_append, List.map_append]
    by_cases hij : j = i
    · obtain rfl := hij
      obtain rfl := Option.some.inj (hinput.symm.trans hj)
      rw [Function.update_self, List.take_add_one, hitem, List.map_append, h.taken_eq hinput]
      simp
    · have hother : [(i, (⟨.input input.id, input.topic, item⟩ : Arrival))].filter (·.1 = j) = [] := by
        simp [Ne.symm hij]
      rw [Function.update_of_ne hij, hother, List.map_nil, List.append_nil]
      exact h.taken_eq hj

end Reads

theorem Step.reads (htopology : r.topology = Topology.build load r.cluster)
    (hothers : ∀ w w', others w w' → Extends logs.log w w') (hstep : Step logs r home others sh sh')
    (h : Reads logs r home sh.session.world sh.offsets sh.taken) :
    Reads logs r home sh'.session.world sh'.offsets sh'.taken := by
  cases hstep with
  | disturbed hworld => exact h.grown (hothers _ _ hworld)
  | @handled i a _ _ hnext hrun =>
      obtain ⟨_, -, hgoes, -⟩ := (Runner.does_accept htopology a).of_ok hrun
      exact (h.took hnext).grown (logs.extends_of_leads hgoes.world)
  | @faulted i a _ _ _ hnext hrun =>
      obtain ⟨_, -, hgoes, -⟩ := (Runner.does_accept htopology a).of_error hrun
      exact (h.took hnext).grown (logs.extends_of_leads hgoes.world)
  | stopped _ => exact h

theorem Reached.reads (htopology : r.topology = Topology.build load r.cluster)
    (hothers : ∀ w w', others w w' → Extends logs.log w w') (h : Reached logs r home others s sh) :
    Reads logs r home sh.session.world sh.offsets sh.taken := by
  induction h with
  | refl => exact ⟨by simp, fun _ => Nat.zero_le _, fun _ => by simp⟩
  | tail _ hstep ih => exact hstep.reads htopology hothers ih

/-! ### The work on a list -/

/-- When nobody else does anything, the work is the work on the list of the items that were taken. -/
theorem Reached.forM_eq (h : Reached logs r home Eq s sh) :
    (sh.taken.map (·.2)).forM (r.accept link home) s = sh.result := by
  induction h with
  | refl => rfl
  | tail hreached hstep ih =>
      rename_i sh sh'
      have htook (i : ℕ) (a : Arrival) (hopen : sh.outcome = none) :
          ((sh.taken ++ [(i, a)]).map (·.2)).forM (r.accept link home) s = r.accept link home a sh.session := by
        have hbefore : (sh.taken.map (·.2)).forM (r.accept link home) s = .ok () sh.session := by
          rw [ih, result, hopen]
        rw [List.map_append, List.forM_eq_forM, List.forM_append, List.map_singleton, List.forM_cons, List.forM_nil,
          bind_pure_unit]
        exact (Work.bind_apply _ _ s).trans (by rw [← List.forM_eq_forM, hbefore])
      cases hstep with
      | disturbed hworld =>
          obtain rfl := hworld
          exact ih
      | handled hopen _ hrun => exact (htook _ _ hopen).trans hrun
      | faulted hopen _ hrun => exact (htook _ _ hopen).trans hrun
      | stopped hopen =>
          rw [ih, result, result, hopen]

/-- Whatever the cluster, the brokers and the session are, a worker that cannot attach has published nothing. One that
is attached, whatever others add to the topics, whichever input is served next and whenever it is told to stop, has
published the whole of what each item publishes that it took, one item after another; only when a fault has ended the
work may the last item have published a part. From each subscription it took a beginning of the log, without a gap and
in the order of the log. When nobody else does anything, this is the work on the list of what was taken. -/
theorem whole_items_in_turn (load : String → Pipeworks.Step) (pipeline : PipelineId) (c : Cluster) (streamEvents : Bool)
    (link : Link σ κ) (logs : link.Logs) (s₀ : Session σ κ) :
    let r : Runner := ⟨pipeline, c, Topology.build load c, streamEvents⟩
    (∀ e s, r.attach link s₀ = .error e s → s.published = s₀.published) ∧
      ∀ home s, r.attach link s₀ = .ok home s →
        (∀ sh, Reached logs r home (Extends logs.log) s sh →
          (∃ whole outs rest, List.Forall₂ (fun x out => r.Completes x.2 out) whole outs ∧
            sh.session.published = s₀.published ++ (outs.flatten ++ rest) ∧
            ((∀ e, sh.outcome ≠ some (.error e)) ∧ sh.taken = whole ∧ rest = [] ∨
              ∃ e last, sh.outcome = some (.error e) ∧ sh.taken = whole ++ [last] ∧ r.Interrupts last.2 rest ∧
                ∀ out, r.Completes last.2 out → rest <+: out)) ∧
          (∀ x ∈ sh.taken, x.1 < c.inputs.length) ∧
          ∀ i input, c.inputs[i]? = some input →
            (sh.taken.filter (·.1 = i)).map (·.2) <+:
              (logs.log sh.session.world home input.topic).map (Arrival.mk (.input input.id) input.topic)) ∧
        ∀ sh, Reached logs r home Eq s sh → r.run link (sh.taken.map (·.2)) s₀ = sh.result := by
  intro r
  refine ⟨fun e s hattach => ?_, fun home s hattach => ⟨fun sh hreached => ?_, fun sh hreached => ?_⟩⟩
  · obtain ⟨_, -, hgoes, answer, calls, rfl, -⟩ := Runner.does_attach.of_error hattach
    rw [hgoes.published]
    exact List.append_nil _
  · obtain ⟨_, -, hgoes, calls, rfl, -⟩ := Runner.does_attach.of_ok hattach
    have hattached : s.published = s₀.published := hgoes.published.trans (List.append_nil _)
    obtain ⟨out, ⟨whole, outs, rest, houts, rfl, hend⟩, hpublished⟩ := hreached.accounts rfl
    have hreads := hreached.reads rfl fun _ _ hworld => hworld
    refine ⟨⟨whole, outs, rest, houts, ?_, ?_⟩, hreads.known, fun i input hi => ?_⟩
    · rw [hpublished, hattached]
    · obtain hfine | ⟨e, last, hfault, htaken, hrest⟩ := hend
      · exact .inl hfine
      · exact .inr ⟨e, last, hfault, htaken, hrest, fun _ hout => hrest.isPrefix hout⟩
    · rw [hreads.taken_eq hi]
      exact (List.take_prefix _ _).map _
  · rw [Runner.run, Work.bind_apply, hattach]
    exact hreached.forM_eq

/-- A cluster that feeds itself: its first input is copied to the topic of its second one, whose records go to an
output and to a step. -/
def echoing : Cluster where
  index := 0
  broker := "near"
  group := "echoing"
  inputs := [⟨1, none, "x", "near", none⟩, ⟨2, none, "y", "near", none⟩]
  flows := [⟨none, .input 1, .output 3⟩, ⟨none, .input 2, .transformation 5⟩, ⟨none, .input 2, .output 4⟩]
  transformations := [⟨5, none, "refuse", none, none⟩]
  outputs := [⟨3, none, "y", "near", none⟩, ⟨4, none, "z", "near", none⟩]

def refuse (_ : String) : Pipeworks.Step := fun _ => .error (.script "refused")

def called : Shift Hub String where
  session :=
    { world := Hub.produce {} ⟨"near", "x"⟩ (.ofPayload (Record.encode (.int 2))), trace := [.connected "near"] }

/-- The number is copied, the copy is taken as well, and then the step refuses it when it has been published on the
last topic: a part of what the second item publishes. -/
theorem echoing_whole_items_in_turn :
    let r : Runner := ⟨1, echoing, Topology.build refuse echoing, false⟩
    ∃ s sh e, r.attach Hub.link { world := {} } = .ok "near" s ∧
      Reached Hub.journal r "near" (Extends Hub.journal.log) s sh ∧ sh.outcome = some (.error e) ∧
      sh.taken.map (·.1) = [0, 1] ∧
      (∃ (whole : List (ℕ × Arrival)) (outs : List (List Publication)) (rest : List Publication),
        List.Forall₂ (fun x out => r.Completes x.2 out) whole outs ∧ whole.length = 1 ∧
          [(⟨"near", "y"⟩, Record.encode (.int 2)), (⟨"near", "z"⟩, Record.encode (.int 2))] = outs.flatten ++ rest) ∧
      (sh.taken.filter (·.1 = 1)).map (·.2) <+:
        (Hub.journal.log sh.session.world "near" "y").map (Arrival.mk (.input 2) "y") := by
  intro r
  have hattach : r.attach Hub.link { world := {} } = .ok "near" { world := {}, trace := [.connected "near"] } := rfl
  have hcalled : Step Hub.journal r "near" (Extends Hub.journal.log)
      { session := { world := {}, trace := [.connected "near"] } } called :=
    .disturbed fun k topic => (Hub.records_produce {} ⟨"near", "x"⟩ ⟨k, topic⟩ _).map _
  have hcopied : ∃ a s₁, called.next? Hub.journal r "near" 0 = some a ∧
      r.accept Hub.link "near" a called.session = .ok () s₁ ∧
      ∃ b e s₂, (called.took 0 a s₁ none).next? Hub.journal r "near" 1 = some b ∧
        r.accept Hub.link "near" b s₁ = .error e s₂ ∧
        s₂.published = [(⟨"near", "y"⟩, Record.encode (.int 2)), (⟨"near", "z"⟩, Record.encode (.int 2))] :=
    ⟨⟨.input 1, "x", .ok (Record.encode (.int 2))⟩, _, rfl, rfl, ⟨.input 2, "y", .ok (Record.encode (.int 2))⟩, _, _, rfl,
      rfl, rfl⟩
  obtain ⟨a, s₁, hnext, hrun, b, e, s₂, hnext', hrun', hpublished⟩ := hcopied
  have hreached : Reached Hub.journal r "near" (Extends Hub.journal.log) { world := {}, trace := [.connected "near"] }
      ((called.took 0 a s₁ none).took 1 b s₂ (some (.error e))) :=
    ((Relation.ReflTransGen.single hcalled).tail (.handled rfl hnext hrun)).tail (.faulted rfl hnext' hrun')
  obtain ⟨-, hattached⟩ := whole_items_in_turn refuse 1 echoing false Hub.link Hub.journal { world := {} }
  obtain ⟨⟨whole, outs, rest, houts, hall, hend⟩, -, hread⟩ := (hattached _ _ hattach).1 _ hreached
  obtain ⟨hfine, -, -⟩ | ⟨e', last, -, htaken, -⟩ := hend
  · exact absurd rfl (hfine e)
  · refine ⟨_, _, e, hattach, hreached, rfl, rfl, ⟨whole, outs, rest, houts, ?_, ?_⟩, hread 1 _ rfl⟩
    · have hlength := congrArg List.length htaken
      rw [List.length_append, List.length_singleton] at hlength
      exact (Nat.succ.inj hlength).symm
    · exact hpublished.symm.trans hall

end Shift

end Pipeworks
