import Pipeworks.Proofs.Worker.Sequence
import Mathlib.Algebra.GroupWithZero.Nat

/-!
The work on a record as a loop. What is pending stands on a stack; one turn takes the value on top and offers it to the
children of its node, and what the steps make of it is put on top. The wiring of a cluster has no cycle, whatever its
flows are, so after a number of turns that the wiring alone determines nothing is pending, and what was done is what
`descend` does.
-/

namespace Pipeworks

variable {σ κ : Type}

namespace Runner

/-- One turn of the work on what is pending, the top of the stack first. -/
def turn (link : Link σ κ) (r : Runner) (home : κ) : List (NodeRef × Json) → Work σ κ (List (NodeRef × Json))
  | [] => return []
  | (n, value) :: pending => (r.topology.children n).reverse.foldlM (r.offer link home value) pending

def turns (link : Link σ κ) (r : Runner) (home : κ) : ℕ → List (NodeRef × Json) → Work σ κ (List (NodeRef × Json))
  | 0, pending => return pending
  | k + 1, pending => r.turn link home pending >>= r.turns link home k

/-- As many turns as a value at a node may take, if no path from the node has `d` edges. -/
def turnsFrom (t : Topology) : ℕ → NodeRef → ℕ
  | 0, _ => 0
  | d + 1, n => ((t.children n).map (turnsFrom t d)).sum + 1

variable {link : Link σ κ} {r : Runner} {home : κ}

@[simp] theorem turns_nil (k : ℕ) : r.turns link home k [] = pure [] := by
  induction k with
  | zero => rfl
  | succ k ih => exact ih

/-- A turn does what is to be done at once, and puts what the steps made of the value on top of the rest. -/
theorem turn_cons (n : NodeRef) (value : Json) (pending : List (NodeRef × Json)) :
    r.turn link home ((n, value) :: pending) =
      r.perform link home (.all ((r.topology.children n).reverse.map (r.topology.offer value))) >>= fun _ =>
        pure ((r.topology.children n).filterMap (r.topology.carried value) ++ pending) := by
  rw [turn, offers_eq, List.reverse_reverse]

/-! ### The end of the work -/

def Clears (link : Link σ κ) (r : Runner) (home : κ) (k : ℕ) (pending : List (NodeRef × Json)) (a : Agenda) : Prop :=
  ∀ j, r.turns link home (k + j) pending = r.perform link home a >>= fun _ => pure []

namespace Clears

variable {k k' : ℕ} {pending : List (NodeRef × Json)} {a : Agenda}

theorem nil : Clears link r home 0 [] ∅ := fun j => turns_nil (0 + j)

theorem mono (h : Clears link r home k pending a) (hk : k ≤ k') : Clears link r home k' pending a := by
  intro j
  have heq : k' + j = k + (k' - k + j) := by omega
  rw [heq]
  exact h _

end Clears

variable {load : String → Step}

/-- A value on top is carried down to its end before what is below it is looked at. -/
theorem clears_cons (htopology : r.topology = Topology.build load r.cluster) (d : ℕ) (n : NodeRef) (value : Json)
    (hd : r.topology.edges.ahead n < d) {k : ℕ} {pending : List (NodeRef × Json)} {a : Agenda}
    (hpending : Clears link r home k pending a) :
    Clears link r home (turnsFrom r.topology d n + k) ((n, value) :: pending) (r.topology.agenda d n value ++ a) := by
  induction d generalizing n value k pending a with
  | zero => exact absurd hd (Nat.not_lt_zero _)
  | succ d ih =>
      have hchild : ∀ m ∈ r.topology.children n, r.topology.edges.ahead m < d := by
        intro m hm
        have hlt := Edges.ahead_lt (htopology ▸ Topology.acyclic_build load r.cluster) (Edges.mem_next.mp hm)
        omega
      -- the values that are kept are pending one above the other, each at another child
      have hkept : ∀ (ms : List NodeRef), (∀ m ∈ ms, m ∈ r.topology.children n) →
          Clears link r home ((ms.map (turnsFrom r.topology d)).sum + k)
            (ms.filterMap (r.topology.carried value) ++ pending)
            (.all ((ms.filterMap (r.topology.carried value)).map fun x => r.topology.agenda d x.1 x.2) ++ a) := by
        intro ms hms
        induction ms with
        | nil =>
            rw [List.map_nil, List.sum_nil, Nat.zero_add]
            exact hpending
        | cons m ms ihms =>
            have hrest := ihms fun m' hm' => hms m' (List.mem_cons_of_mem m hm')
            have hm : r.topology.edges.ahead m < d := hchild m (hms m List.mem_cons_self)
            rw [List.map_cons, List.sum_cons]
            cases hcarried : r.topology.carried value m with
            | none =>
                rw [List.filterMap_cons_none hcarried]
                exact hrest.mono (by omega)
            | some x =>
                obtain rfl := Topology.eq_of_carried hcarried
                rw [List.filterMap_cons_some hcarried, Nat.add_assoc, List.map_cons, Agenda.all_cons, Agenda.append_assoc]
                exact ih x.1 x.2 hm hrest
      intro j
      have hcount : turnsFrom r.topology (d + 1) n + k + j =
          ((r.topology.children n).map (turnsFrom r.topology d)).sum + k + j + 1 := by
        rw [turnsFrom]
        omega
      have hall := hkept (r.topology.children n) (fun m hm => hm) j
      rw [hcount, turns, turn_cons, Topology.agenda, Agenda.append_assoc, perform_append, bind_assoc, bind_assoc]
      simp only [pure_bind, hall]

/-- The wiring of any cluster, whatever its flows are, and the work on a record that goes along it. The wired flows
have no cycle; an input of the cluster leads to every node that has children and to every child; a child is a
transformation with a step or an output with a sink, and so no input; and the wired flows are some of the flows of the
cluster, in their order. A record that arrives at a node is worked on until nothing is pending, in a number of turns
that is known before the record, the brokers and the client are. -/
theorem wiring_sound_and_work_ends (load : String → Step) (c : Cluster) :
    (∀ n, ¬(Topology.build load c).edges.OnCycle n) ∧
      (∀ n m, m ∈ (Topology.build load c).children n →
        (∃ i ∈ c.inputs, Edges.Walk (Topology.build load c).edges (.input i.id) n) ∧
        (∃ i ∈ c.inputs, Edges.Walk (Topology.build load c).edges (.input i.id) m) ∧
        m.kind ≠ .input ∧
        ((∃ id step, m = .transformation id ∧ (Topology.build load c).step? id = some step) ∨
          ∃ id sink, m = .output id ∧ (Topology.build load c).sink? id = some sink)) ∧
      (Topology.build load c).edges.Sublist (c.flows.map Flow.ends) ∧
      ∀ n, ∃ k, ∀ (σ κ : Type) (link : Link σ κ) (pipeline : PipelineId) (streamEvents : Bool) (home : κ) (topic : String)
        (payload : ByteArray) (value : Json), Record.decode payload = .ok value → ∀ j,
        let r : Runner := ⟨pipeline, c, Topology.build load c, streamEvents⟩
        (do r.handle link home n topic payload; return []) =
          (do r.emit "input" topic value; r.turns link home (k + j) [(n, value)] : Work σ κ (List (NodeRef × Json))) := by
  refine ⟨Topology.acyclic_build load c, fun n m hm => ?_, Topology.edges_build_sublist load c, fun n => ?_⟩
  · have hedge := Edges.mem_next.mp hm
    obtain ⟨i, hi, hwalk⟩ := Topology.fed_of_mem_edges hedge
    have hfitted := Topology.fitted_of_mem_children hm
    refine ⟨⟨i, hi, hwalk⟩, ⟨i, hi, hwalk.snoc hedge⟩, ?_, hfitted⟩
    obtain ⟨id, step, rfl, -⟩ | ⟨id, sink, rfl, -⟩ := hfitted <;> simp
  · refine ⟨turnsFrom (Topology.build load c) ((Topology.build load c).edges.length + 1) n, ?_⟩
    intro σ κ link pipeline streamEvents home topic payload value hvalue j r
    have hdepth : r.topology.edges.ahead n < r.topology.edges.length + 1 := Nat.lt_succ_of_le (Edges.ahead_le _ _)
    have hclears := clears_cons rfl _ n value hdepth (Clears.nil : Clears link r home 0 [] ∅) j
    rw [Nat.add_zero, Agenda.append_empty, ← descend_eq] at hclears
    rw [handle, hvalue]
    dsimp only
    rw [bind_assoc]
    refine congrArg _ (funext fun _ => ?_)
    rw [hclears]

/-- A cluster with a flow of every sort: two that are the same, one that closes a loop, one back into the input, one
from an output, one from a node that nothing leads to, and one to a transformation that is not there. -/
def tangled : Cluster where
  index := 0
  broker := "near"
  group := "tangled"
  inputs := [⟨1, none, "in", "near", none⟩]
  flows := [⟨none, .input 1, .transformation 2⟩, ⟨none, .input 1, .transformation 2⟩,
    ⟨none, .transformation 2, .transformation 3⟩, ⟨none, .transformation 3, .transformation 2⟩,
    ⟨none, .transformation 3, .input 1⟩, ⟨none, .transformation 3, .output 4⟩, ⟨none, .output 4, .output 5⟩,
    ⟨none, .transformation 6, .output 5⟩, ⟨none, .transformation 3, .transformation 7⟩]
  transformations := [⟨2, none, "double", none, none⟩, ⟨3, none, "keep", none, none⟩, ⟨6, none, "keep", none, none⟩]
  outputs := [⟨4, none, "out", "near", none⟩, ⟨5, none, "out", "far", none⟩]

/-- Its second transformation has one child, which the input leads to and which has a sink, and the work on a record
ends in as many turns as are needed, or more. -/
theorem tangled_sound_and_work_ends :
    (Topology.build double tangled).children (.transformation 3) = [.output 4] ∧
      (∃ i ∈ tangled.inputs, Edges.Walk (Topology.build double tangled).edges (.input i.id) (.output 4)) ∧
      (∃ sink, (Topology.build double tangled).sink? 4 = some sink) ∧
      ∃ k, ∀ j, let r : Runner := ⟨1, tangled, Topology.build double tangled, true⟩
        (do r.handle Hub.link "near" (.input 1) "in" (Record.encode (.int 2)); return []) =
          (do r.emit "input" "in" (.int 2); r.turns Hub.link "near" (k + j) [(.input 1, .int 2)] :
            Work Hub String (List (NodeRef × Json))) := by
  obtain ⟨-, hchildren, -, hwork⟩ := wiring_sound_and_work_ends double tangled
  have hkids : (Topology.build double tangled).children (.transformation 3) = [.output 4] := by decide
  have hchild : .output 4 ∈ (Topology.build double tangled).children (.transformation 3) := by
    rw [hkids]
    exact List.mem_singleton.mpr rfl
  obtain ⟨-, hfed, -, ⟨id, step, hkind, -⟩ | ⟨id, sink, hid, hsink⟩⟩ := hchildren _ _ hchild
  · exact absurd hkind (by simp)
  · obtain rfl : 4 = id := congrArg NodeRef.id hid
    obtain ⟨k, hends⟩ := hwork (.input 1)
    exact ⟨hkids, hfed, ⟨sink, hsink⟩, k, hends Hub String Hub.link 1 true "near" "in" _ (.int 2) rfl⟩

end Runner

end Pipeworks
