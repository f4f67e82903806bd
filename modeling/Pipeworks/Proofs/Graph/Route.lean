import Pipeworks.Broker.Record
import Pipeworks.Script.Step
import Pipeworks.Proofs.Validation.WellFormed
import Mathlib.Data.List.Nodup

/-!
Routes of records. A route leads along flows from a node through transformations to an output; it is given by the
places of its flows, so two flows with the same ends make two routes. The steps on a route turn a value into
another one or drop it, and what is left at the end is delivered. Up to a bound on their length all routes are
enumerated, each once, and without cycles no route is longer than the flows that it may use.
-/

namespace Pipeworks

structure Delivery where
  broker : String
  topic : String
  payload : ByteArray

theorem NodeRef.eq_of_kind {n : NodeRef} {kind : NodeKind} (h : n.kind = kind) : n = ⟨kind, n.id⟩ := h ▸ rfl

namespace Graph

variable (g : Graph) (load : String → Step)

/-- What the transformation of a number does: the first record of the number counts. -/
def stepAt (id : Int) : Step := fun value =>
  match g.transformation? id with
  | none => .ok none
  | some t => load t.source value

def deliveryAt? (id : Int) (value : Json) : Option Delivery :=
  (g.output? id).map fun o => ⟨o.broker, o.topic, Record.encode value⟩

def flowAt (k : Fin g.flows.length) : Flow := g.flows[k]

/-- A route from a node: flows through transformations, the last one to an output. -/
inductive IsRoute : NodeRef → List (Fin g.flows.length) → Prop where
  | last {n : NodeRef} {k : Fin g.flows.length} {id : Int} :
      (g.flowAt k).source = n → (g.flowAt k).target = .output id → IsRoute n [k]
  | step {n : NodeRef} {k : Fin g.flows.length} {id : Int} {p : List (Fin g.flows.length)} :
      (g.flowAt k).source = n → (g.flowAt k).target = .transformation id → IsRoute (.transformation id) p →
      IsRoute n (k :: p)

/-- What a value that travels on a route delivers, if no step on the way drops it. -/
def deliver? : List (Fin g.flows.length) → Json → Option Delivery
  | [], _ => none
  | k :: p, value =>
    match (g.flowAt k).target.kind with
    | .input => none
    | .transformation =>
      match g.stepAt load (g.flowAt k).target.id value with
      | .ok (some next) => deliver? p next
      | _ => none
    | .output => g.deliveryAt? (g.flowAt k).target.id value

/-- A value at one node makes another value arrive at a node, the steps between them dropping neither. -/
inductive Arrives : NodeRef → Json → NodeRef → Json → Prop where
  | here (n : NodeRef) (value : Json) : Arrives n value n value
  | step {n m : NodeRef} {id : Int} {value next last : Json} :
      (n, .transformation id) ∈ g.edges → g.stepAt load id value = .ok (some next) →
      Arrives (.transformation id) next m last → Arrives n value m last

/-- No step fails on what arrives at it when a value starts at a node. -/
def Undisturbed (n : NodeRef) (value : Json) : Prop :=
  ∀ m last, g.Arrives load n value m last →
    ∀ id e, (m, .transformation id) ∈ g.edges → g.stepAt load id last ≠ .error e

def outgoing (n : NodeRef) : List (Fin g.flows.length) :=
  (List.finRange g.flows.length).filter fun k => decide ((g.flowAt k).source = n)

def routes : ℕ → NodeRef → List (List (Fin g.flows.length))
  | 0, _ => []
  | d + 1, n =>
    (g.outgoing n).flatMap fun k =>
      match (g.flowAt k).target.kind with
      | .input => []
      | .transformation => (routes d (g.flowAt k).target).map (k :: ·)
      | .output => [[k]]

def deliveries : ℕ → NodeRef → Json → List Delivery
  | 0, _, _ => []
  | d + 1, n, value =>
    (g.edges.next n).flatMap fun m =>
      match m.kind with
      | .input => []
      | .transformation =>
        match g.stepAt load m.id value with
        | .ok (some next) => deliveries d m next
        | _ => []
      | .output => (g.deliveryAt? m.id value).toList

variable {g} {load} {n : NodeRef} {p : List (Fin g.flows.length)} {d : ℕ}

/-! ### The enumeration of routes -/

theorem flowAt_mem (k : Fin g.flows.length) : g.flowAt k ∈ g.flows := List.getElem_mem k.isLt

theorem mem_outgoing {k : Fin g.flows.length} : k ∈ g.outgoing n ↔ (g.flowAt k).source = n := by
  simp [outgoing]

theorem map_outgoing (g : Graph) (n : NodeRef) :
    (g.outgoing n).map (fun k => (g.flowAt k).target) = g.edges.next n := by
  have hflows : (List.finRange g.flows.length).map g.flowAt = g.flows := List.map_get_finRange g.flows
  rw [edges_eq, Edges.next_ofFlows]
  conv_rhs => rw [← hflows]
  rw [List.filter_map, List.map_map, outgoing]
  rfl

theorem mem_routes : p ∈ g.routes d n ↔ g.IsRoute n p ∧ p.length ≤ d := by
  induction d generalizing n p with
  | zero =>
      constructor
      · intro h
        simp [routes] at h
      · rintro ⟨h, hlen⟩
        cases h <;> simp at hlen
  | succ d ih =>
      rw [routes, List.mem_flatMap]
      constructor
      · -- the kind of the end of the first flow tells which part of the enumeration the route is in
        rintro ⟨k, hk, hp⟩
        have hsource := mem_outgoing.mp hk
        cases hkind : (g.flowAt k).target.kind with
        | input =>
            rw [hkind] at hp
            exact absurd hp (List.not_mem_nil)
        | transformation =>
            rw [hkind] at hp
            obtain ⟨q, hq, rfl⟩ := List.mem_map.mp hp
            obtain ⟨hroute, hlen⟩ := ih.mp hq
            have htarget : (g.flowAt k).target = .transformation (g.flowAt k).target.id := NodeRef.eq_of_kind hkind
            exact ⟨.step hsource htarget (htarget ▸ hroute), Nat.succ_le_succ hlen⟩
        | output =>
            rw [hkind] at hp
            obtain rfl := List.mem_singleton.mp hp
            have htarget : (g.flowAt k).target = .output (g.flowAt k).target.id := NodeRef.eq_of_kind hkind
            exact ⟨.last hsource htarget, by simp⟩
      · rintro ⟨h, hlen⟩
        cases h with
        | @last _ k id hsource htarget =>
            exact ⟨k, mem_outgoing.mpr hsource, by simp [htarget]⟩
        | @step _ k id q hsource htarget hroute =>
            have hq := ih.mpr ⟨hroute, Nat.le_of_succ_le_succ hlen⟩
            exact ⟨k, mem_outgoing.mpr hsource, by simpa [htarget] using hq⟩

/-- Every route is enumerated once: its first flow tells from which part of the enumeration it comes. -/
theorem nodup_routes (g : Graph) (d : ℕ) (n : NodeRef) : (g.routes d n).Nodup := by
  induction d generalizing n with
  | zero => exact List.nodup_nil
  | succ d ih =>
      rw [routes, List.nodup_flatMap]
      constructor
      · intro k _
        cases (g.flowAt k).target.kind with
        | input => exact List.nodup_nil
        | transformation => exact (ih _).map fun _ _ h => (List.cons.inj h).2
        | output => exact List.nodup_singleton _
      · refine ((List.nodup_finRange _).filter _).imp ?_
        intro k k' hne q hq hq'
        have hhead : ∀ j : Fin g.flows.length, (q ∈ match (g.flowAt j).target.kind with
            | .input => []
            | .transformation => (g.routes d (g.flowAt j).target).map (j :: ·)
            | .output => [[j]]) → q.head? = some j := by
          intro j hj
          split at hj
          · simp at hj
          · obtain ⟨r, -, rfl⟩ := List.mem_map.mp hj
            rfl
          · rw [List.mem_singleton.mp hj]
            rfl
        exact hne (Option.some.inj ((hhead k hq).symm.trans (hhead k' hq')))

theorem filterMap_routes (g : Graph) (load : String → Step) (d : ℕ) (n : NodeRef) (value : Json) :
    (g.routes d n).filterMap (g.deliver? load · value) = g.deliveries load d n value := by
  induction d generalizing n value with
  | zero => rfl
  | succ d ih =>
      rw [routes, deliveries, ← map_outgoing, List.flatMap_map, List.filterMap_flatMap]
      congr 1
      funext k
      cases hkind : (g.flowAt k).target.kind with
      | input => rfl
      | transformation =>
          simp only [List.filterMap_map]
          cases hstep : g.stepAt load (g.flowAt k).target.id value with
          | error e => simp [Function.comp_def, deliver?, hkind, hstep]
          | ok result =>
              cases result with
              | none => simp [Function.comp_def, deliver?, hkind, hstep]
              | some next => simpa [Function.comp_def, deliver?, hkind, hstep] using ih (g.flowAt k).target next
      | output =>
          cases hdelivery : g.deliveryAt? (g.flowAt k).target.id value <;> simp [deliver?, hkind, hdelivery]

/-! ### The length of a route -/

/-- Every flow on a route ends at a node to which a walk of at least one edge leads. -/
theorem IsRoute.walk (h : g.IsRoute n p) {k : Fin g.flows.length} (hk : k ∈ p) :
    ∃ m, Edges.Walk g.edges n m ∧ (m, (g.flowAt k).target) ∈ g.edges := by
  induction h with
  | @last n j id hsource htarget =>
      obtain rfl := List.mem_singleton.mp hk
      exact ⟨n, .here n, mem_edges.mpr ⟨_, flowAt_mem _, hsource, rfl⟩⟩
  | @step n j id q hsource htarget _ ih =>
      have hedge : (n, (g.flowAt j).target) ∈ g.edges := mem_edges.mpr ⟨_, flowAt_mem _, hsource, rfl⟩
      rcases List.mem_cons.mp hk with rfl | hk
      · exact ⟨n, .here n, hedge⟩
      · obtain ⟨m, hwalk, hm⟩ := ih hk
        exact ⟨m, .step (htarget ▸ hedge) hwalk, hm⟩

theorem IsRoute.nodup (hacyclic : ∀ m, ¬g.edges.OnCycle m) (h : g.IsRoute n p) :
    (p.map fun k => (g.flowAt k).target).Nodup := by
  induction h with
  | last => exact List.nodup_singleton _
  | @step n k id q _ htarget hroute ih =>
      refine List.nodup_cons.mpr ⟨fun hmem => ?_, ih⟩
      obtain ⟨j, hj, (hjk : (g.flowAt j).target = (g.flowAt k).target)⟩ := List.mem_map.mp hmem
      obtain ⟨m, hwalk, hm⟩ := hroute.walk hj
      have hback : (m, NodeRef.transformation id) ∈ g.edges := by
        rw [← htarget, ← hjk]
        exact hm
      exact hacyclic _ (.of_last hwalk hback)

theorem IsRoute.length_le {es : Edges} (hacyclic : ∀ m, ¬g.edges.OnCycle m)
    (hes : ∀ m x, Edges.Walk g.edges n m → (m, x) ∈ g.edges → (m, x) ∈ es) (h : g.IsRoute n p) :
    p.length ≤ es.length := by
  have hsub : (p.map fun k => (g.flowAt k).target) ⊆ es.map Prod.snd := by
    intro x hx
    obtain ⟨k, hk, rfl⟩ := List.mem_map.mp hx
    obtain ⟨m, hwalk, hm⟩ := h.walk hk
    exact List.mem_map.mpr ⟨_, hes m _ hwalk hm, rfl⟩
  simpa using (List.subperm_of_subset (h.nodup hacyclic) hsub).length_le

theorem WellFormed.mem_routes (h : g.WellFormed) : p ∈ g.routes (g.edges.length + 1) n ↔ g.IsRoute n p := by
  rw [Graph.mem_routes]
  exact and_iff_left_of_imp fun hp => Nat.le_succ_of_le (hp.length_le h.acyclic fun _ _ _ he => he)

end Graph

end Pipeworks
