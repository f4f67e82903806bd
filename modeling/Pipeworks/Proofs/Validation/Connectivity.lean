import Pipeworks.Validation.Basic
import Pipeworks.Proofs.Appearance
import Mathlib.Data.List.Induction

/-!
What the check of the brokers asks and reports. The roster that the loop over the inputs and outputs builds has every
broker once, where it appears first, and with it the nodes that use it; the slots say where a broker stands. So each
broker is asked once, and each one that does not answer makes one error.
-/

namespace Pipeworks

/-! ### The roster -/

/-- The brokers of some endpoints, each once, in the order of their first appearance. -/
def brokersOf (es : List (String × NodeRef)) : List String := (es.map Prod.fst).eraseDups

def usersOf (es : List (String × NodeRef)) (a : String) : List NodeRef := (es.filter (·.1 = a)).map Prod.snd

section

variable {es : List (String × NodeRef)} {e : String × NodeRef} {a : String}

theorem brokersOf_append_of_mem (h : e.1 ∈ brokersOf es) : brokersOf (es ++ [e]) = brokersOf es := by
  have hmem : ∃ n, (e.1, n) ∈ es := by simpa [brokersOf] using h
  simp [brokersOf, List.eraseDups_append, List.removeAll, hmem]

theorem brokersOf_append_of_not_mem (h : e.1 ∉ brokersOf es) : brokersOf (es ++ [e]) = brokersOf es ++ [e.1] := by
  have hnone : ¬∃ n, (e.1, n) ∈ es := by simpa [brokersOf] using h
  simp [brokersOf, List.eraseDups_append, List.removeAll, List.eraseDups_cons, hnone]

theorem usersOf_append_self (es : List (String × NodeRef)) (e : String × NodeRef) :
    usersOf (es ++ [e]) e.1 = usersOf es e.1 ++ [e.2] := by
  simp [usersOf]

theorem usersOf_append_of_ne (h : e.1 ≠ a) : usersOf (es ++ [e]) a = usersOf es a := by
  simp [usersOf, h]

theorem usersOf_eq_nil (h : a ∉ brokersOf es) : usersOf es a = [] := by
  have hnone : ∀ e ∈ es, e.1 ≠ a := fun e he heq => h (List.mem_eraseDups.mpr (List.mem_map.mpr ⟨e, he, heq⟩))
  simpa [usersOf] using hnone

end

namespace Roster

variable {r : Roster} {es : List (String × NodeRef)} {bs : List String} {a : String} {k : Nat}

structure Holds (r : Roster) (bs : List String) (es : List (String × NodeRef)) : Prop where
  users : r.users = bs.map fun a => (a, usersOf es a)
  slots : ∀ a k, r.slots.lookup a = some k ↔ bs[k]? = some a

theorem Holds.mem_of_lookup (h : r.Holds bs es) (hk : r.slots.lookup a = some k) : a ∈ bs :=
  List.mem_of_getElem? ((h.slots a k).mp hk)

theorem Holds.not_mem_of_lookup (h : r.Holds bs es) (hnone : r.slots.lookup a = none) : a ∉ bs := by
  intro ha
  obtain ⟨k, hk⟩ := List.mem_iff_getElem?.mp ha
  simp [(h.slots a k).mpr hk] at hnone

theorem Holds.append (h : r.Holds bs es) (hnew : a ∉ bs) (hnone : usersOf es a = []) :
    Holds { users := r.users ++ [(a, [])], slots := (a, r.users.length) :: r.slots } (bs ++ [a]) es := by
  have hlength : r.users.length = bs.length := by rw [h.users, List.length_map]
  constructor
  case users => simp [h.users, hnone]
  case slots =>
    intro b k
    have hlast : (bs ++ [a])[k]? = some b ↔ bs[k]? = some b ∨ k = bs.length ∧ b = a := by
      rw [List.getElem?_append]
      split_ifs with hk
      · simp [Nat.ne_of_lt hk]
      · rw [List.getElem?_eq_none (Nat.le_of_not_lt hk), List.getElem?_singleton]
        split_ifs with hzero
        · simp [show k = bs.length by omega, eq_comm]
        · simp [show k ≠ bs.length by omega]
    rw [hlast, ← h.slots, hlength]
    by_cases hb : b = a
    · have hold : r.slots.lookup a ≠ some k := fun hk => hnew (h.mem_of_lookup hk)
      simp [hb, hold, eq_comm]
    · have hother : (b == a) = false := beq_false_of_ne hb
      simp [List.lookup_cons, hother, hb]

/-- Where a broker stands once it has a slot. -/
theorem Holds.slot {e : String × NodeRef} (h : r.Holds (brokersOf es) es) :
    (r.slot e.1).2.Holds (brokersOf (es ++ [e])) es ∧ (brokersOf (es ++ [e]))[(r.slot e.1).1]? = some e.1 := by
  cases hslot : r.slots.lookup e.1 with
  | some k =>
      rw [brokersOf_append_of_mem (h.mem_of_lookup hslot)]
      simp only [Roster.slot, hslot]
      exact ⟨h, (h.slots e.1 k).mp hslot⟩
  | none =>
      have hnew := h.not_mem_of_lookup hslot
      have hlength : r.users.length = (brokersOf es).length := by rw [h.users, List.length_map]
      rw [brokersOf_append_of_not_mem hnew]
      simp only [Roster.slot, hslot]
      exact ⟨h.append hnew (usersOf_eq_nil hnew), by simp [hlength]⟩

theorem Holds.modify {e : String × NodeRef} (h : r.Holds bs es) (hk : bs[k]? = some e.1) :
    Holds { r with users := r.users.modify k fun u => (u.1, u.2 ++ [e.2]) } bs (es ++ [e]) := by
  refine ⟨List.ext_getElem? fun j => ?_, h.slots⟩
  rw [h.users, List.getElem?_modify, List.getElem?_map, List.getElem?_map]
  cases hj : bs[j]? with
  | none => rfl
  | some a =>
      by_cases hkj : k = j
      · obtain rfl : e.1 = a := Option.some.inj (hk.symm.trans (hkj ▸ hj))
        simp [hkj, usersOf_append_self]
      · have hne : e.1 ≠ a := by
          rintro rfl
          exact hkj (Option.some.inj (((h.slots e.1 k).mpr hk).symm.trans ((h.slots e.1 j).mpr hj)))
        simp [hkj, usersOf_append_of_ne hne]

theorem Holds.enter (h : r.Holds (brokersOf es) es) (e : String × NodeRef) :
    (r.enter e).Holds (brokersOf (es ++ [e])) (es ++ [e]) :=
  h.slot.1.modify h.slot.2

theorem holds_foldl_enter (es : List (String × NodeRef)) : (es.foldl enter {}).Holds (brokersOf es) es := by
  induction es using List.reverseRecOn with
  | nil => exact ⟨rfl, by simp [brokersOf]⟩
  | append_singleton es e ih =>
      rw [List.foldl_append]
      exact ih.enter e

end Roster

/-! ### The answers -/

namespace Graph

variable {g : Graph}

def addresses (g : Graph) : List String := brokersOf g.endpoints

theorem brokers_endpoints (g : Graph) : g.endpoints.map Prod.fst = (g.inputs ++ g.outputs).map (·.broker) := by
  simp [endpoints, Function.comp_def]

theorem mem_addresses {a : String} : a ∈ g.addresses ↔ ∃ e ∈ g.inputs ++ g.outputs, e.broker = a := by
  rw [addresses, brokersOf, List.mem_eraseDups, brokers_endpoints, List.mem_map]

theorem usersOf_endpoints (g : Graph) (a : String) : usersOf g.endpoints a =
    (g.inputs.filter (·.broker = a)).map (.input ·.id) ++ (g.outputs.filter (·.broker = a)).map (.output ·.id) := by
  simp [usersOf, endpoints, List.filter_map, Function.comp_def]

theorem users_roster (g : Graph) : g.roster.users = g.addresses.map fun a => (a, usersOf g.endpoints a) :=
  (Roster.holds_foldl_enter g.endpoints).users

def answered (g : Graph) (answers : List Bool) : List String :=
  ((g.addresses.zip answers).filter fun p => !p.2).map fun p =>
    unreachableBroker p.1 ((usersOf g.endpoints p.1).map g.label)

/-- Whatever the probe does beside answering, it does it once for each broker. -/
theorem checkConnectivity_eq {m : Type → Type} [Monad m] [LawfulMonad m] (g : Graph) (probe : String → m Bool) :
    g.checkConnectivity probe = g.answered <$> g.addresses.mapM probe := by
  simp only [checkConnectivity, users_roster, List.mapM_map, Function.comp_def, bind_pure_comp]
  congr 1
  funext answers
  simp [answered, List.zip_map_left, List.filter_map, Function.comp_def]

theorem connectivity_eq_answered (g : Graph) (reachable : String → Bool) :
    g.connectivity reachable = g.answered (g.addresses.map reachable) := by
  simp [connectivity, checkConnectivity_eq]

theorem connectivity_eq (g : Graph) (reachable : String → Bool) :
    g.connectivity reachable = (g.addresses.filter fun a => !reachable a).map fun a =>
      unreachableBroker a ((usersOf g.endpoints a).map g.label) := by
  have hzip : g.addresses.zip (g.addresses.map reachable) = g.addresses.map fun a => (a, reachable a) := by
    simpa using List.zip_map' (f := id) (g := reachable) (l := g.addresses)
  simp [connectivity_eq_answered, answered, hzip, List.filter_map, Function.comp_def]

/-- A probe that also writes down whom it asks. -/
def recording (reachable : String → Bool) (a : String) : StateM (List String) Bool := do
  modify (· ++ [a])
  return reachable a

theorem mapM_recording (reachable : String → Bool) (as asked : List String) :
    (as.mapM (recording reachable)).run asked = (pure (as.map reachable, asked ++ as) : Id _) := by
  induction as generalizing asked with
  | nil => simp
  | cons a as ih => simp [recording, ih]

/--
The check asks for every broker of the inputs and outputs exactly once, in the order in which they appear first. It has
exactly one error for each of them that does not answer, in the same order, which names the inputs and then the outputs
that use this broker, as they are stored. The label of a node is looked up by its number.
-/
theorem one_error_per_unreachable_broker (g : Graph) (reachable : String → Bool) : ∃ addresses : List String,
    (∀ a, a ∈ addresses ↔ ∃ e ∈ g.inputs ++ g.outputs, e.broker = a) ∧
      (addresses.Pairwise fun a b =>
        ((g.inputs ++ g.outputs).map (·.broker)).idxOf a < ((g.inputs ++ g.outputs).map (·.broker)).idxOf b) ∧
      (g.checkConnectivity (recording reachable)).run [] = (g.connectivity reachable, addresses) ∧
      g.connectivity reachable = (addresses.filter fun a => !reachable a).map fun a =>
        unreachableBroker a ((g.inputs.filter (·.broker = a)).map (fun e => g.label (.input e.id)) ++
          (g.outputs.filter (·.broker = a)).map (fun e => g.label (.output e.id))) := by
  refine ⟨g.addresses, fun a => mem_addresses, ?order, ?asked, ?errors⟩
  case order =>
    rw [← brokers_endpoints]
    exact pairwise_idxOf_eraseDups (g.endpoints.map Prod.fst)
  case asked =>
    rw [checkConnectivity_eq, StateT.run_map, mapM_recording, connectivity_eq_answered]
    rfl
  case errors =>
    rw [connectivity_eq]
    simp [usersOf_endpoints, Function.comp_def]

/-- Two brokers are down. The nodes of the first one stand apart, and one of them is an output. -/
example :
    let inputs : List Endpoint := [⟨1, none, "x", "b2", none⟩, ⟨2, none, "y", "b1", none⟩, ⟨3, none, "z", "b2", none⟩]
    let outputs : List Endpoint := [⟨4, some "sums", "u", "b2", none⟩, ⟨5, none, "v", "b3", none⟩]
    let g : Graph := { pipeline := 1, name := "shared", inputs, outputs, transformations := [], flows := [] }
    g.connectivity (fun a => a = "b1") =
      ["Cannot reach broker at b2 (used by input_1, input_3, output 'sums')",
        "Cannot reach broker at b3 (used by output_5)"] := by
  decide +kernel

end Graph

end Pipeworks
