import Pipeworks.Worker.Runner
import Pipeworks.Proofs.Worker.Judgement

/-!
What is to be done with a value at a node of a topology, worked out beforehand: the errands, each to take a value to a
sink, in the order in which they are done, and the fault that comes after them, if a step fails. Neither the brokers nor
the session have a say in this. To carry a value down is to perform the agenda of the value.
-/

namespace Pipeworks

variable {σ κ : Type}

abbrev Publication := Channel × ByteArray

def Sink.channel (broker : String) : Sink → Channel
  | near topic => ⟨broker, topic⟩
  | bridge broker topic => ⟨broker, topic⟩

structure Errand where
  sink : Sink
  value : Json

def Errand.publication (own : String) (e : Errand) : Publication := (e.sink.channel own, Record.encode e.value)

/-- Errands, and what is told of the fault after them, if there is one. -/
structure Agenda where
  errands : List Errand := []
  fault : Option String := none

namespace Agenda

instance : EmptyCollection Agenda := ⟨{}⟩

/-- Nothing comes after a fault. -/
instance : Append Agenda where
  append a b :=
    match a.fault with
    | none => ⟨a.errands ++ b.errands, b.fault⟩
    | some _ => a

def all (as : List Agenda) : Agenda := as.foldr (· ++ ·) ∅

variable {a b : Agenda} {as : List Agenda}

theorem append_of_none (h : a.fault = none) : a ++ b = ⟨a.errands ++ b.errands, b.fault⟩ := by
  change (match a.fault with | none => _ | some _ => a) = _
  rw [h]

theorem append_of_some {text : String} (h : a.fault = some text) : a ++ b = a := by
  change (match a.fault with | none => _ | some _ => a) = _
  rw [h]

theorem append_empty (a : Agenda) : a ++ ∅ = a := by
  cases hfault : a.fault with
  | none =>
      rw [append_of_none hfault]
      exact congrArg₂ Agenda.mk (List.append_nil _) hfault.symm
  | some text => exact append_of_some hfault

theorem append_assoc (a b c : Agenda) : a ++ b ++ c = a ++ (b ++ c) := by
  cases ha : a.fault with
  | some text => rw [append_of_some ha, append_of_some ha, append_of_some ha]
  | none =>
      rw [append_of_none ha, append_of_none ha]
      cases hb : b.fault with
      | some text =>
          rw [append_of_some (a := b) hb]
          exact (append_of_some rfl).trans (by rw [hb])
      | none =>
          rw [append_of_none (a := b) hb, append_of_none rfl, List.append_assoc]

theorem all_cons (a : Agenda) (as : List Agenda) : all (a :: as) = a ++ all as := rfl

/-- All of some agendas: the errands of all, when there is no fault, and otherwise those up to the first fault. -/
theorem all_cases {α : Type} (f : α → Agenda) (xs : List α) :
    (∀ x ∈ xs, (f x).fault = none) ∧ all (xs.map f) = ⟨xs.flatMap fun x => (f x).errands, none⟩ ∨
      ∃ earlier x later text, xs = earlier ++ x :: later ∧ (∀ y ∈ earlier, (f y).fault = none) ∧
        (f x).fault = some text ∧
        all (xs.map f) = ⟨(earlier.flatMap fun y => (f y).errands) ++ (f x).errands, some text⟩ := by
  induction xs with
  | nil => exact .inl ⟨by simp, rfl⟩
  | cons x xs ih =>
      change _ ∧ f x ++ all (xs.map f) = _ ∨ ∃ earlier y later text, _ ∧ _ ∧ _ ∧ f x ++ all (xs.map f) = _
      cases hfault : (f x).fault with
      | some text =>
          refine .inr ⟨[], x, xs, text, rfl, by simp, hfault, ?_⟩
          rw [append_of_some hfault, List.flatMap_nil, List.nil_append, ← hfault]
      | none =>
          obtain ⟨hnone, hall⟩ | ⟨earlier, y, later, text, rfl, hearlier, htext, hall⟩ := ih
          · refine .inl ⟨List.forall_mem_cons.mpr ⟨hfault, hnone⟩, ?_⟩
            rw [append_of_none hfault, hall, List.flatMap_cons]
          · refine .inr ⟨x :: earlier, y, later, text, rfl, List.forall_mem_cons.mpr ⟨hfault, hearlier⟩, htext, ?_⟩
            rw [append_of_none hfault, hall, List.flatMap_cons, List.append_assoc]

theorem mem_errands_append {e : Errand} (h : e ∈ (a ++ b).errands) : e ∈ a.errands ∨ e ∈ b.errands := by
  cases hfault : a.fault with
  | none =>
      rw [append_of_none hfault] at h
      exact List.mem_append.mp h
  | some text =>
      rw [append_of_some hfault] at h
      exact .inl h

theorem mem_errands_all {e : Errand} (h : e ∈ (all as).errands) : ∃ a ∈ as, e ∈ a.errands := by
  induction as with
  | nil => cases h
  | cons a as ih =>
      obtain h | h := mem_errands_append (b := all as) h
      · exact ⟨a, List.mem_cons_self, h⟩
      · obtain ⟨b, hb, h⟩ := ih h
        exact ⟨b, List.mem_cons_of_mem _ hb, h⟩

end Agenda

/-! ### Agendas of values -/

namespace Topology

/-- What is to be done at once when a value is offered to a child. -/
def offer (t : Topology) (value : Json) (m : NodeRef) : Agenda :=
  match m.kind with
  | .input => ∅
  | .output =>
    match t.sink? m.id with
    | none => ∅
    | some sink => { errands := [⟨sink, value⟩] }
  | .transformation =>
    match t.step? m.id with
    | none => ∅
    | some step =>
      match step value with
      | .ok _ => ∅
      | .error e => { fault := some s!"{m.name} raised: {e.message}" }

/-- What is kept for later when a value is offered to a child. -/
def carried (t : Topology) (value : Json) (m : NodeRef) : Option (NodeRef × Json) :=
  match m.kind with
  | .transformation =>
    match t.step? m.id with
    | none => none
    | some step =>
      match step value with
      | .ok (some next) => some (m, next)
      | _ => none
  | _ => none

/-- What is to be done when a value is carried down from a node, on paths of at most `d` flows. -/
def agenda (t : Topology) : ℕ → NodeRef → Json → Agenda
  | 0, _, _ => ∅
  | d + 1, n, value =>
    .all ((t.children n).reverse.map (t.offer value)) ++
      .all (((t.children n).filterMap (t.carried value)).map fun x => t.agenda d x.1 x.2)

variable {t : Topology} {value : Json} {id : Int}

theorem offer_output {sink : Sink} (h : t.sink? id = some sink) :
    t.offer value (.output id) = { errands := [⟨sink, value⟩] } := by
  simp only [offer, h]

theorem errands_offer_transformation (t : Topology) (value : Json) (id : Int) :
    (t.offer value (.transformation id)).errands = [] := by
  rw [offer]
  dsimp only
  split
  · rfl
  · split <;> rfl

theorem fault_offer_transformation {step : Step} (h : t.step? id = some step) :
    (t.offer value (.transformation id)).fault =
      match step value with
      | .ok _ => none
      | .error e => some s!"{(NodeRef.transformation id).name} raised: {e.message}" := by
  simp only [offer, h]
  cases step value <;> rfl

theorem carried_output (t : Topology) (value : Json) (id : Int) : t.carried value (.output id) = none := rfl

theorem carried_transformation {step : Step} {result : Option Json} (h : t.step? id = some step)
    (hresult : step value = .ok result) :
    t.carried value (.transformation id) = result.map (NodeRef.transformation id, ·) := by
  simp only [carried, h, hresult]
  cases result <;> rfl

theorem eq_of_carried {m : NodeRef} {x : NodeRef × Json} (h : t.carried value m = some x) : m = x.1 := by
  rw [carried] at h
  split at h
  · split at h
    · cases h
    · split at h
      · exact congrArg Prod.fst (Option.some.inj h)
      · cases h
  · cases h

/-- All that an agenda may be: there is no fault at the children and none below them, or there is one at a child, or
there is one below a child. -/
theorem agenda_cases (t : Topology) (d : ℕ) (n : NodeRef) (value : Json) :
    let offered (ms : List NodeRef) : List Errand := ms.flatMap fun m => (t.offer value m).errands
    let below (xs : List (NodeRef × Json)) : List Errand := xs.flatMap fun x => (t.agenda d x.1 x.2).errands
    ((∀ m ∈ t.children n, (t.offer value m).fault = none) ∧
      (∀ x ∈ (t.children n).filterMap (t.carried value), (t.agenda d x.1 x.2).fault = none) ∧
      t.agenda (d + 1) n value =
        ⟨offered (t.children n).reverse ++ below ((t.children n).filterMap (t.carried value)), none⟩) ∨
    (∃ earlier m later text, (t.children n).reverse = earlier ++ m :: later ∧ (t.offer value m).fault = some text ∧
      t.agenda (d + 1) n value = ⟨offered earlier ++ (t.offer value m).errands, some text⟩) ∨
    ∃ earlier x later text, (t.children n).filterMap (t.carried value) = earlier ++ x :: later ∧
      (∀ m ∈ t.children n, (t.offer value m).fault = none) ∧ (∀ y ∈ earlier, (t.agenda d y.1 y.2).fault = none) ∧
      (t.agenda d x.1 x.2).fault = some text ∧
      t.agenda (d + 1) n value =
        ⟨offered (t.children n).reverse ++ (below earlier ++ (t.agenda d x.1 x.2).errands), some text⟩ := by
  intro offered below
  rw [agenda]
  obtain ⟨hoffers, hall⟩ | ⟨earlier, m, later, text, hsplit, -, htext, hall⟩ :=
    Agenda.all_cases (t.offer value) (t.children n).reverse
  · have hfine : ∀ m ∈ t.children n, (t.offer value m).fault = none :=
      fun m hm => hoffers m (List.mem_reverse.mpr hm)
    rw [Agenda.append_of_none (congrArg Agenda.fault hall), hall]
    obtain ⟨hbelow, hrest⟩ | ⟨earlier, x, later, text, hsplit, hearlier, htext, hrest⟩ :=
      Agenda.all_cases (fun x => t.agenda d x.1 x.2) ((t.children n).filterMap (t.carried value))
    · rw [hrest]
      exact .inl ⟨hfine, hbelow, rfl⟩
    · rw [hrest]
      exact .inr (.inr ⟨earlier, x, later, text, hsplit, hfine, hearlier, htext, rfl⟩)
  · rw [Agenda.append_of_some (congrArg Agenda.fault hall), hall]
    exact .inr (.inl ⟨earlier, m, later, text, hsplit, htext, rfl⟩)

theorem exists_sink_of_mem_errands {d : ℕ} {n : NodeRef} {e : Errand} (h : e ∈ (t.agenda d n value).errands) :
    ∃ id, t.sink? id = some e.sink := by
  induction d generalizing n value with
  | zero => cases h
  | succ d ih =>
      obtain h | h := Agenda.mem_errands_append h
      · obtain ⟨a, ha, he⟩ := Agenda.mem_errands_all h
        obtain ⟨m, -, rfl⟩ := List.mem_map.mp ha
        rw [offer] at he
        split at he
        · cases he
        · split at he
          · cases he
          · rename_i sink hsink
            obtain rfl := List.mem_singleton.mp he
            exact ⟨m.id, hsink⟩
        · split at he
          · cases he
          · split at he <;> cases he
      · obtain ⟨a, ha, he⟩ := Agenda.mem_errands_all h
        obtain ⟨x, -, rfl⟩ := List.mem_map.mp ha
        exact ih he

end Topology

/-! ### Agendas of items -/

def Arrival.value (a : Arrival) : Except Error Json := a.item >>= Record.decode

def Arrival.record? (a : Arrival) : Option (String × Json) :=
  match a.value with
  | .ok value => some (a.topic, value)
  | .error _ => none

namespace Runner

def agenda (r : Runner) (a : Arrival) : Agenda :=
  match a.item with
  | .error e => { fault := some s!"subscription to '{a.topic}' failed: {e.message}" }
  | .ok payload =>
    match Record.decode payload with
    | .error e => { fault := some s!"undecodable record on '{a.topic}': {e.message}" }
    | .ok value => r.topology.agenda (r.topology.edges.length + 1) a.input value

theorem agenda_of_value {r : Runner} {a : Arrival} {value : Json} (h : a.value = .ok value) :
    r.agenda a = r.topology.agenda (r.topology.edges.length + 1) a.input value := by
  obtain ⟨input, topic, item⟩ := a
  cases item with
  | error e => cases h
  | ok payload =>
      have hvalue : Record.decode payload = .ok value := h
      simp only [agenda, hvalue]

theorem agenda_of_no_value {r : Runner} {a : Arrival} {e : Error} (h : a.value = .error e) :
    (r.agenda a).errands = [] ∧ (r.agenda a).fault ≠ none := by
  obtain ⟨input, topic, item⟩ := a
  cases item with
  | error e => exact ⟨rfl, nofun⟩
  | ok payload =>
      have hvalue : Record.decode payload = .error e := h
      simp only [agenda, hvalue]
      exact ⟨trivial, nofun⟩

theorem exists_sink_of_mem_agenda {r : Runner} {a : Arrival} {e : Errand} (h : e ∈ (r.agenda a).errands) :
    ∃ id, r.topology.sink? id = some e.sink := by
  rw [agenda] at h
  split at h
  · cases h
  · split at h
    · cases h
    · exact Topology.exists_sink_of_mem_errands h

def perform (link : Link σ κ) (r : Runner) (home : κ) (a : Agenda) : Work σ κ Unit := do
  a.errands.forM fun e => r.publish link home e.sink e.value
  match a.fault with
  | none => return
  | some text => throw (r.fault text)

def receive (r : Runner) (a : Arrival) : Work σ κ Unit :=
  match a.record? with
  | some (topic, value) => r.emit "input" topic value
  | none => pure ()

variable {link : Link σ κ} {r : Runner} {home : κ}

theorem perform_append (a b : Agenda) :
    r.perform link home (a ++ b) = r.perform link home a >>= fun _ => r.perform link home b := by
  rw [perform, perform, perform]
  cases hfault : a.fault with
  | none =>
      rw [Agenda.append_of_none hfault, List.forM_eq_forM, List.forM_append, bind_assoc, bind_assoc]
      simp only [pure_bind]
  | some text =>
      rw [Agenda.append_of_some hfault, bind_assoc, hfault]
      rfl

theorem perform_all {α : Type} (f : α → Agenda) (xs : List α) :
    r.perform link home (.all (xs.map f)) = xs.forM fun x => r.perform link home (f x) := by
  induction xs with
  | nil => rfl
  | cons x xs ih =>
      change r.perform link home (f x ++ .all (xs.map f)) = r.perform link home (f x) >>= fun _ => xs.forM _
      rw [perform_append, ih]

theorem offer_eq (value : Json) (kept : List (NodeRef × Json)) (m : NodeRef) :
    r.offer link home value kept m =
      r.perform link home (r.topology.offer value m) >>= fun _ =>
        pure ((r.topology.carried value m).toList ++ kept) := by
  rw [offer, Topology.offer, Topology.carried]
  cases m.kind with
  | input => rfl
  | output =>
      dsimp only
      cases r.topology.sink? m.id with
      | none => rfl
      | some sink =>
          change _ = ((r.publish link home sink value >>= fun _ => pure ()) >>= fun _ => pure ()) >>= fun _ => pure kept
          simp only [bind_assoc, pure_bind]
  | transformation =>
      dsimp only
      cases r.topology.step? m.id with
      | none => rfl
      | some step =>
          dsimp only
          cases step value with
          | error e => rfl
          | ok result => cases result <;> rfl

/-- What is offered to some children one after another: the last of them comes first in what is kept. -/
theorem offers_eq (value : Json) (ms : List NodeRef) (kept : List (NodeRef × Json)) :
    ms.foldlM (r.offer link home value) kept =
      r.perform link home (.all (ms.map (r.topology.offer value))) >>= fun _ =>
        pure (ms.reverse.filterMap (r.topology.carried value) ++ kept) := by
  induction ms generalizing kept with
  | nil => rfl
  | cons m ms ih =>
      have hcarried : (m :: ms).reverse.filterMap (r.topology.carried value) ++ kept =
          ms.reverse.filterMap (r.topology.carried value) ++ ((r.topology.carried value m).toList ++ kept) := by
        rw [List.reverse_cons, List.filterMap_append, List.append_assoc]
        cases hm : r.topology.carried value m <;> simp [hm]
      change r.offer link home value kept m >>= (fun kept => ms.foldlM (r.offer link home value) kept) =
        r.perform link home (r.topology.offer value m ++ .all (ms.map (r.topology.offer value))) >>= _
      rw [hcarried, offer_eq, perform_append, bind_assoc, bind_assoc]
      simp only [pure_bind, ih]

theorem descend_eq (d : ℕ) (n : NodeRef) (value : Json) :
    r.descend link home d n value = r.perform link home (r.topology.agenda d n value) := by
  induction d generalizing n value with
  | zero => rfl
  | succ d ih =>
      rw [descend, Topology.agenda, offers_eq, perform_append, perform_all, bind_assoc, List.reverse_reverse,
        List.append_nil]
      simp only [pure_bind, ih, perform_all]

/-- The work on an item is to report its record and to perform its agenda. -/
theorem accept_eq (a : Arrival) :
    r.accept link home a = r.receive a >>= fun _ => r.perform link home (r.agenda a) := by
  obtain ⟨input, topic, item⟩ := a
  cases item with
  | error e => rfl
  | ok payload =>
      have hvalue : (⟨input, topic, .ok payload⟩ : Arrival).value = Record.decode payload := rfl
      simp only [accept, handle, receive, agenda, Arrival.record?, hvalue]
      cases Record.decode payload with
      | error e => rfl
      | ok value => simp only [descend_eq]

end Runner

end Pipeworks
