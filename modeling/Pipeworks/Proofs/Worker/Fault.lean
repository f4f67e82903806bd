import Pipeworks.Proofs.Worker.Sequence

/-!
What a record has published when a fault ends the work on it. The work goes along the topology in the order in which a
record is carried to its end, and a fault breaks it off somewhere: what was published is then the beginning of the
traversal, up to the point of the fault, and nothing else.
-/

namespace Pipeworks

variable {σ κ : Type}

namespace Topology

/-- What may have been published at some moment of a traversal: all that is on the way to that moment. -/
inductive Begun (t : Topology) (broker : String) (kids : NodeRef → List NodeRef) :
    List NodeRef → Json → List Publication → Prop where
  | here (siblings : List NodeRef) (value : Json) : Begun t broker kids siblings value []
  | output {id : Int} {sink : Sink} {siblings : List NodeRef} {value : Json} {out : List Publication} :
      t.sink? id = some sink → Begun t broker kids siblings value out →
      Begun t broker kids (.output id :: siblings) value ((sink.channel broker, Record.encode value) :: out)
  | dropped {id : Int} {step : Step} {siblings : List NodeRef} {value : Json} {out : List Publication} :
      t.step? id = some step → step value = .ok none → Begun t broker kids siblings value out →
      Begun t broker kids (.transformation id :: siblings) value out
  | passed {id : Int} {step : Step} {siblings : List NodeRef} {value next : Json} {below out : List Publication} :
      t.step? id = some step → step value = .ok (some next) →
      Traversal t broker kids (kids (.transformation id)) next below → Begun t broker kids siblings value out →
      Begun t broker kids (.transformation id :: siblings) value (below ++ out)
  | inside {id : Int} {step : Step} {siblings : List NodeRef} {value next : Json} {out : List Publication} :
      t.step? id = some step → step value = .ok (some next) →
      Begun t broker kids (kids (.transformation id)) next out →
      Begun t broker kids (.transformation id :: siblings) value out

variable {t : Topology} {broker : String} {kids : NodeRef → List NodeRef} {value : Json} {out : List Publication}

/-- Where the traversal comes to its end, what was published at some moment is the beginning of the whole. -/
theorem Begun.isPrefix {siblings : List NodeRef} {whole : List Publication}
    (h : t.Begun broker kids siblings value out) (hwhole : t.Traversal broker kids siblings value whole) :
    out <+: whole := by
  -- the traversal tells which way the beginning took; it may have stopped anywhere, or below a transformation
  induction hwhole generalizing out with
  | done =>
      cases h with
      | here => exact List.prefix_rfl
  | output hsink _ ih =>
      cases h with
      | here => exact List.nil_prefix
      | output hsink' hrest =>
          obtain rfl := Option.some.inj (hsink.symm.trans hsink')
          exact List.cons_prefix_cons.mpr ⟨rfl, ih hrest⟩
  | dropped hstep hresult _ ih =>
      cases h with
      | here => exact List.nil_prefix
      | dropped _ _ hrest => exact ih hrest
      | passed hstep' hresult' _ _ =>
          obtain rfl := Option.some.inj (hstep.symm.trans hstep')
          cases hresult.symm.trans hresult'
      | inside hstep' hresult' _ =>
          obtain rfl := Option.some.inj (hstep.symm.trans hstep')
          cases hresult.symm.trans hresult'
  | passed hstep hresult hbelow _ ihbelow ih =>
      cases h with
      | here => exact List.nil_prefix
      | dropped hstep' hresult' _ =>
          obtain rfl := Option.some.inj (hstep.symm.trans hstep')
          cases hresult.symm.trans hresult'
      | passed hstep' hresult' hbelow' hrest =>
          obtain rfl := Option.some.inj (hstep.symm.trans hstep')
          obtain rfl := Option.some.inj (Except.ok.inj (hresult.symm.trans hresult'))
          obtain rfl := hbelow.unique hbelow'
          exact (List.prefix_append_right_inj _).mpr (ih hrest)
      | inside hstep' hresult' hbelow' =>
          obtain rfl := Option.some.inj (hstep.symm.trans hstep')
          obtain rfl := Option.some.inj (Except.ok.inj (hresult.symm.trans hresult'))
          exact (ihbelow hbelow').trans (List.prefix_append _ _)

/-- A traversal has begun with each beginning of what it publishes. -/
theorem Traversal.begun {siblings : List NodeRef} {whole : List Publication}
    (h : t.Traversal broker kids siblings value whole) (hout : out <+: whole) :
    t.Begun broker kids siblings value out := by
  induction h generalizing out with
  | done value =>
      obtain rfl := List.prefix_nil.mp hout
      exact .here [] value
  | @output id _ siblings value _ hsink _ ih =>
      obtain rfl | ⟨rest, rfl, hrest⟩ := List.prefix_cons_iff.mp hout
      · exact .here _ value
      · exact .output hsink (ih hrest)
  | dropped hstep hresult _ ih => exact .dropped hstep hresult (ih hout)
  | @passed _ _ _ _ _ below _ hstep hresult hbelow _ ihbelow ih =>
      obtain hinside | ⟨rest, rfl⟩ := List.prefix_or_prefix_of_prefix hout (List.prefix_append below _)
      · exact .inside hstep hresult (ihbelow hinside)
      · exact .passed hstep hresult hbelow (ih ((List.prefix_append_right_inj below).mp hout))

/-- A traversal that has begun had begun before. -/
theorem Begun.of_prefix {siblings : List NodeRef} {whole : List Publication}
    (h : t.Begun broker kids siblings value whole) (hout : out <+: whole) :
    t.Begun broker kids siblings value out := by
  induction h generalizing out with
  | here siblings value =>
      obtain rfl := List.prefix_nil.mp hout
      exact .here siblings value
  | @output id _ siblings value _ hsink _ ih =>
      obtain rfl | ⟨rest, rfl, hrest⟩ := List.prefix_cons_iff.mp hout
      · exact .here _ value
      · exact .output hsink (ih hrest)
  | dropped hstep hresult _ ih => exact .dropped hstep hresult (ih hout)
  | @passed _ _ _ _ _ below _ hstep hresult hbelow _ ih =>
      obtain hinside | ⟨rest, rfl⟩ := List.prefix_or_prefix_of_prefix hout (List.prefix_append below _)
      · exact .inside hstep hresult (hbelow.begun hinside)
      · exact .passed hstep hresult hbelow (ih ((List.prefix_append_right_inj below).mp hout))
  | inside hstep hresult _ ih => exact .inside hstep hresult (ih hout)

/-- Outputs in front have published first. -/
theorem Begun.outputs (ms : List NodeRef) (hfitted : ∀ m ∈ ms, t.Fitted m) {siblings : List NodeRef}
    (h : t.Begun broker kids siblings value out) :
    t.Begun broker kids (ms.filter (·.kind = .output) ++ siblings) value
      ((ms.flatMap fun m => (t.offer value m).errands).map (Errand.publication broker) ++ out) := by
  induction ms with
  | nil => exact h
  | cons m ms ih =>
      have hrest := ih fun m' hm' => hfitted m' (List.mem_cons_of_mem _ hm')
      obtain ⟨id, step, rfl, hstep⟩ | ⟨id, sink, rfl, hsink⟩ := hfitted m List.mem_cons_self
      · rw [List.filter_cons_of_neg (by simp), List.flatMap_cons, errands_offer_transformation]
        exact hrest
      · rw [List.filter_cons_of_pos (by simp), List.flatMap_cons, offer_output hsink]
        exact .output hsink hrest

/-- Transformations publish what is published below them, one after another, up to the one below which the traversal
is broken off. -/
theorem Begun.transformations (ms : List NodeRef) (hfitted : ∀ m ∈ ms, t.Fitted m)
    (hcalm : ∀ m ∈ ms, (t.offer value m).fault = none) (below : NodeRef × Json → List Publication)
    {earlier later : List (NodeRef × Json)} {x : NodeRef × Json}
    (hcarried : ms.filterMap (t.carried value) = earlier ++ x :: later)
    (hwhole : ∀ y ∈ earlier, t.Traversal broker kids (kids y.1) y.2 (below y))
    (hlast : t.Begun broker kids (kids x.1) x.2 out) :
    t.Begun broker kids (ms.filter (·.kind = .transformation)) value (earlier.flatMap below ++ out) := by
  induction ms generalizing earlier with
  | nil => simp at hcarried
  | cons m ms ih =>
      have hothers : ∀ m' ∈ ms, t.Fitted m' := fun m' hm' => hfitted m' (List.mem_cons_of_mem _ hm')
      have hfine : ∀ m' ∈ ms, (t.offer value m').fault = none := fun m' hm' => hcalm m' (List.mem_cons_of_mem _ hm')
      obtain ⟨id, step, rfl, hstep⟩ | ⟨id, sink, rfl, hsink⟩ := hfitted m List.mem_cons_self
      · rw [List.filter_cons_of_pos (by simp)]
        have hcalm := hcalm _ List.mem_cons_self
        rw [fault_offer_transformation hstep] at hcalm
        rcases hresult : step value with e | _ | next
        · rw [hresult] at hcalm
          cases hcalm
        · rw [List.filterMap_cons_none (carried_transformation hstep hresult)] at hcarried
          exact .dropped hstep hresult (ih hothers hfine hcarried hwhole)
        · rw [List.filterMap_cons_some (carried_transformation hstep hresult)] at hcarried
          -- the value is carried on below this transformation, or it is the one that is broken off
          cases earlier with
          | nil =>
              obtain ⟨rfl, -⟩ := List.cons.inj hcarried
              exact .inside hstep hresult hlast
          | cons y earlier =>
              obtain ⟨rfl, hafter⟩ := List.cons.inj hcarried
              obtain ⟨hfirst, hwhole⟩ := List.forall_mem_cons.mp hwhole
              rw [List.flatMap_cons, List.append_assoc]
              exact .passed hstep hresult hfirst (ih hothers hfine hafter hwhole)
      · rw [List.filter_cons_of_neg (by simp)]
        rw [List.filterMap_cons_none (carried_output t value id)] at hcarried
        exact ih hothers hfine hcarried hwhole

/-- The errands of an agenda are those of its traversal, up to the point of the fault if there is one. -/
theorem begun_errands {load : String → Step} {c : Cluster} (ht : t = build load c) {d : ℕ} {n : NodeRef}
    (hd : t.edges.ahead n < d) :
    t.Begun broker t.served (t.served n) value ((t.agenda d n value).errands.map (Errand.publication broker)) := by
  induction d generalizing n value with
  | zero => exact absurd hd (Nat.not_lt_zero _)
  | succ d ih =>
      have hfitted : ∀ m ∈ t.children n, t.Fitted m := by
        rw [ht]
        exact fun m => fitted_of_mem_children
      have hchild : ∀ x ∈ (t.children n).filterMap (t.carried value), t.edges.ahead x.1 < d := by
        intro x hx
        obtain ⟨m, hm, hx'⟩ := List.mem_filterMap.mp hx
        obtain rfl := eq_of_carried hx'
        have hlt := Edges.ahead_lt (ht ▸ acyclic_build load c) (Edges.mem_next.mp hm)
        omega
      -- no fault at the children, or one at a child, or one below a child
      obtain ⟨-, -, hagenda⟩ | ⟨earlier, m, later, text, hsplit, htext, hagenda⟩ |
        ⟨earlier, x, later, text, hsplit, hcalm, hearlier, htext, hagenda⟩ := agenda_cases t d n value
      · exact (traversal_of_fault ht hd (congrArg Agenda.fault hagenda)).begun List.prefix_rfl
      · -- the outputs before the transformation that fails have published
        have hmem {m' : NodeRef} (hm' : m' ∈ earlier ++ [m]) : m' ∈ t.children n := by
          refine List.mem_reverse.mp (hsplit ▸ ?_)
          rw [List.append_cons]
          exact List.mem_append_left _ hm'
        have hbegun : t.Begun broker t.served _ value _ :=
          Begun.outputs (earlier ++ [m]) (fun m' hm' => hfitted m' (hmem hm'))
            (.here (later.filter (·.kind = .output) ++ (t.children n).filter (·.kind = .transformation)) value)
        rw [hagenda, served, hsplit, List.append_cons, List.filter_append, List.append_assoc]
        rw [List.append_nil, List.flatMap_append, List.flatMap_singleton] at hbegun
        exact hbegun
      · rw [hagenda, List.map_append, List.map_append, List.map_flatMap (l := earlier)]
        have hx : x ∈ (t.children n).filterMap (t.carried value) :=
          hsplit ▸ List.mem_append_right _ List.mem_cons_self
        refine Begun.outputs _ (fun m hm => hfitted m (List.mem_reverse.mp hm))
          (Begun.transformations _ hfitted hcalm _ hsplit (fun y hy => ?_) (ih (hchild x hx)))
        exact traversal_of_fault ht (hchild y (hsplit ▸ List.mem_append_left _ hy)) (hearlier y hy)

end Topology

namespace Runner

variable {load : String → Step} {r : Runner} {a : Arrival} {out : List Publication}

/-- What an item published before a fault may be `out`: nothing, or the beginning of its traversal. -/
def Interrupts (r : Runner) (a : Arrival) (out : List Publication) : Prop :=
  out = [] ∨ ∃ value, a.value = .ok value ∧
    r.topology.Begun r.cluster.broker r.topology.served (r.topology.served a.input) value out

/-- Where the item could have been worked on to its end, it is the beginning of what that publishes. -/
theorem Interrupts.isPrefix {whole : List Publication} (h : r.Interrupts a out) (hwhole : r.Completes a whole) :
    out <+: whole := by
  obtain ⟨value, hvalue, htraversal⟩ := hwhole
  obtain rfl | ⟨value', hvalue', hbegun⟩ := h
  · exact List.nil_prefix
  · obtain rfl := Except.ok.inj (hvalue.symm.trans hvalue')
    exact hbegun.isPrefix htraversal

theorem interrupts_agenda (htopology : r.topology = Topology.build load r.cluster)
    (hout : out <+: (r.agenda a).errands.map (Errand.publication r.cluster.broker)) : r.Interrupts a out := by
  cases hvalue : a.value with
  | error e =>
      rw [(agenda_of_no_value hvalue).1] at hout
      exact .inl (List.prefix_nil.mp hout)
  | ok value =>
      rw [agenda_of_value hvalue] at hout
      have hbegun : r.topology.Begun r.cluster.broker _ _ value _ :=
        Topology.begun_errands htopology (Nat.lt_succ_of_le (Edges.ahead_le r.topology.edges a.input))
      exact .inr ⟨value, hvalue, hbegun.of_prefix hout⟩

theorem interrupts_of_accept (htopology : r.topology = Topology.build load r.cluster) {link : Link σ κ} {home : κ}
    {s s' : Session σ κ} {e : Error} (hrun : r.accept link home a s = .error e s') :
    ∃ out, r.Interrupts a out ∧ s'.published = s.published ++ out := by
  obtain ⟨out, hout, hpublished⟩ := published_accept_error htopology hrun
  exact ⟨out, interrupts_agenda htopology hout, hpublished⟩

end Runner

end Pipeworks
