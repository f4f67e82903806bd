import Pipeworks.Graph.Reach
import Pipeworks.Proofs.Appearance
import Mathlib.Data.List.Perm.Subperm
import Mathlib.Tactic.Common

/-!
Walks along edges, and the search that finds what they lead to. The search visits every node at most once and
its bound is never met, so it finds exactly the nodes that some walk from a root leads to.
-/

namespace Pipeworks.Edges

variable {es : Edges} {a b c : NodeRef}

@[simp] theorem mem_next : b ∈ es.next a ↔ (a, b) ∈ es := by
  simp [next]

def ofFlows (flows : List Flow) : Edges := flows.map Flow.ends

@[simp] theorem mem_ofFlows {flows : List Flow} :
    (a, b) ∈ ofFlows flows ↔ ∃ f ∈ flows, f.source = a ∧ f.target = b := by
  simp [ofFlows, Flow.ends]

theorem next_ofFlows (flows : List Flow) (n : NodeRef) :
    (ofFlows flows).next n = (flows.filter fun f => decide (f.source = n)).map (·.target) := by
  rw [next, ofFlows, List.filter_map, List.map_map]
  rfl

/-! ### Walks -/

namespace Walk

theorem single (h : (a, b) ∈ es) : Walk es a b := .step h (.here b)

theorem trans (h : Walk es a b) (h' : Walk es b c) : Walk es a c := by
  induction h with
  | here => exact h'
  | step he _ ih => exact .step he (ih h')

theorem snoc (h : Walk es a b) (he : (b, c) ∈ es) : Walk es a c := h.trans (.single he)

theorem mono {es' : Edges} (hsub : es ⊆ es') (h : Walk es a b) : Walk es' a b := by
  induction h with
  | here => exact .here _
  | step he _ ih => exact .step (hsub he) ih

theorem last (h : Walk es a c) : a = c ∨ ∃ b, Walk es a b ∧ (b, c) ∈ es := by
  induction h with
  | here => exact .inl rfl
  | @step a b c he _ ih =>
      refine .inr ?_
      rcases ih with rfl | ⟨m, hm, hmc⟩
      · exact ⟨a, .here a, he⟩
      · exact ⟨m, .step he hm, hmc⟩

theorem stays {P : NodeRef → Prop} (hP : ∀ x y, (x, y) ∈ es → P x → P y) (h : Walk es a b) (ha : P a) :
    P b := by
  induction h with
  | here => exact ha
  | step he _ ih => exact ih (hP _ _ he ha)

end Walk

/-- A node that a cycle leads to, or that lies on one. -/
def Blocked (es : Edges) (n : NodeRef) : Prop := ∃ m, es.OnCycle m ∧ Walk es m n

theorem OnCycle.blocked (h : es.OnCycle a) : es.Blocked a := ⟨a, h, .here a⟩

theorem Blocked.step (h : es.Blocked a) (he : (a, b) ∈ es) : es.Blocked b := by
  obtain ⟨m, hm, hwalk⟩ := h
  exact ⟨m, hm, hwalk.snoc he⟩

theorem OnCycle.of_last (hab : Walk es a b) (hba : (b, a) ∈ es) : es.OnCycle a := by
  cases hab with
  | here => exact ⟨a, hba, .here a⟩
  | step he hrest => exact ⟨_, he, hrest.snoc hba⟩

theorem OnCycle.mono {es' : Edges} (hsub : es ⊆ es') (h : es.OnCycle a) : es'.OnCycle a := by
  obtain ⟨m, hm, hwalk⟩ := h
  exact ⟨m, hsub hm, hwalk.mono hsub⟩

/-- Where every node of a finite set has a predecessor in the set, one comes upon a cycle by going back: the nodes
gone back over so far are `path`, and `a` is the last of them. -/
theorem blocked_of_path {P : NodeRef → Prop} {nodes : List NodeRef} {n : NodeRef}
    (hP : ∀ x, P x → x ∈ nodes ∧ ∃ p, P p ∧ (p, x) ∈ es) (k : ℕ) (a : NodeRef) (path : List NodeRef)
    (hk : nodes.length < k + path.length) (ha : P a) (hnodup : path.Nodup)
    (hpath : ∀ y ∈ path, P y ∧ Walk es a y ∧ Walk es y n) (han : Walk es a n) : es.Blocked n := by
  induction k generalizing a path with
  | zero =>
      -- a path without repetitions is no longer than `nodes`
      have hlen := (List.subperm_of_subset hnodup fun y hy => (hP y (hpath y hy).1).1).length_le
      omega
  | succ k ih =>
      obtain ⟨p, hp, hpa⟩ := (hP a ha).2
      -- either a node of the path is met again, or the path gets longer
      by_cases hmem : p ∈ path
      · exact ⟨p, ⟨a, hpa, (hpath p hmem).2.1⟩, .step hpa han⟩
      · refine ih p (p :: path) (by simp only [List.length_cons]; omega) hp (List.nodup_cons.mpr ⟨hmem, hnodup⟩)
          (fun y hy => ?_) (.step hpa han)
        rcases List.mem_cons.mp hy with rfl | hy
        · exact ⟨hp, .here _, .step hpa han⟩
        · exact ⟨(hpath y hy).1, .step hpa (hpath y hy).2.1, (hpath y hy).2.2⟩

theorem blocked_of_predecessors {P : NodeRef → Prop} (nodes : List NodeRef) {n : NodeRef}
    (hP : ∀ x, P x → x ∈ nodes ∧ ∃ p, P p ∧ (p, x) ∈ es) (hn : P n) : es.Blocked n :=
  blocked_of_path hP (nodes.length + 1) n [] (by simp) hn List.nodup_nil (by simp) (.here n)

/-! ### What the search finds -/

/-- The ends of edges that the search has not seen yet, with repetitions. -/
def unseen (es : Edges) (seen : List NodeRef) : Nat := es.countP fun e => decide (e.2 ∉ seen)

def fresh (es : Edges) (seen : List NodeRef) (n : NodeRef) : List NodeRef :=
  ((es.next n).filter (· ∉ seen)).eraseDups

theorem mem_fresh {seen : List NodeRef} {n : NodeRef} : b ∈ es.fresh seen n ↔ (n, b) ∈ es ∧ b ∉ seen := by
  simp [fresh]

/-- Every node that a visit finds pays with an edge of its own. -/
theorem length_fresh_add_unseen_le (es : Edges) (seen : List NodeRef) (n : NodeRef) :
    (es.fresh seen n).length + es.unseen (seen ++ es.fresh seen n) ≤ es.unseen seen := by
  set new := es.fresh seen n
  have hpaid : new.length ≤ (es.filter fun e => decide (e.2 ∉ seen) && decide (e.2 ∈ new)).length := by
    have hsub : new ⊆ (es.filter fun e => decide (e.2 ∉ seen) && decide (e.2 ∈ new)).map Prod.snd := by
      intro b hb
      have hb' := mem_fresh.mp hb
      exact List.mem_map.mpr ⟨(n, b), by simp [hb', hb], rfl⟩
    exact List.length_map Prod.snd ▸ (List.subperm_of_subset (nodup_eraseDups _) hsub).length_le
  have hrest : es.unseen (seen ++ new) =
      (es.filter fun e => decide (e.2 ∉ seen) && !decide (e.2 ∈ new)).length := by
    simp only [unseen, List.countP_eq_length_filter, List.mem_append, not_or, Bool.decide_and,
      decide_not]
  rw [hrest, unseen, List.countP_eq_countP_filter_add es _ fun e => decide (e.2 ∈ new)]
  simp only [List.countP_eq_length_filter, List.filter_filter]
  omega

/-- What `explore` returns when its bound is not met: it contains the nodes seen before, every node in it is led
to from one of them, and edges do not leave it. -/
theorem explore_spec (es : Edges) (fuel : ℕ) (todo seen : List NodeRef) (hfuel : todo.length + es.unseen seen < fuel)
    (htodo : todo ⊆ seen) (hclosed : ∀ x ∈ seen, x ∉ todo → ∀ y, (x, y) ∈ es → y ∈ seen) :
    seen ⊆ es.explore fuel todo seen ∧
      (∀ y ∈ es.explore fuel todo seen, ∃ x ∈ seen, Walk es x y) ∧
      ∀ x ∈ es.explore fuel todo seen, ∀ y, (x, y) ∈ es → y ∈ es.explore fuel todo seen := by
  induction fuel generalizing todo seen with
  | zero => omega
  | succ fuel ih =>
      cases todo with
      | nil =>
          simp only [explore]
          exact ⟨List.Subset.refl _, fun y hy => ⟨y, hy, .here y⟩, fun x hx => hclosed x hx (by simp)⟩
      | cons n todo =>
          set new := es.fresh seen n
          change seen ⊆ es.explore fuel (todo ++ new) (seen ++ new) ∧
            (∀ y ∈ es.explore fuel (todo ++ new) (seen ++ new), _) ∧
            ∀ x ∈ es.explore fuel (todo ++ new) (seen ++ new), _
          have hn : n ∈ seen := htodo (by simp)
          -- the bound goes down: each node that is found anew pays with an edge of its own
          have hpaid : new.length + es.unseen (seen ++ new) ≤ es.unseen seen :=
            length_fresh_add_unseen_le es seen n
          obtain ⟨hsub, hwalk, hedge⟩ := ih (todo ++ new) (seen ++ new)
            (by simp only [List.length_append, List.length_cons] at *; omega)
            (List.append_subset.mpr ⟨fun x hx => by simp [htodo (List.mem_cons_of_mem n hx)], by simp⟩)
            (by
              intro x hx hxt y hxy
              have hxseen : x ∈ seen := (List.mem_append.mp hx).resolve_right fun h => hxt (by simp [h])
              by_cases hy : y ∈ seen
              · simp [hy]
              · by_cases hxn : x = n
                · exact List.mem_append_right _ (mem_fresh.mpr ⟨hxn ▸ hxy, hy⟩)
                · refine absurd (hclosed x hxseen ?_ y hxy) hy
                  simp only [List.mem_append, not_or] at hxt
                  simp [hxn, hxt.1])
          refine ⟨fun x hx => hsub (by simp [hx]), fun y hy => ?_, hedge⟩
          obtain ⟨x, hx, hxy⟩ := hwalk y hy
          rcases List.mem_append.mp hx with hx | hx
          · exact ⟨x, hx, hxy⟩
          · exact ⟨n, hn, .step (mem_fresh.mp hx).1 hxy⟩

theorem mem_reached {roots : List NodeRef} : b ∈ es.reached roots ↔ ∃ a ∈ roots, Walk es a b := by
  have hbound : es.unseen roots ≤ es.length := List.countP_le_length
  obtain ⟨hsub, hwalk, hedge⟩ := explore_spec es (roots.length + es.length + 1) roots roots (by omega)
    (List.Subset.refl _) (fun x hx h => absurd hx h)
  constructor
  · exact hwalk b
  · rintro ⟨a, ha, hab⟩
    exact hab.stays (fun x y hxy hx => hedge x hx y hxy) (hsub ha)

theorem reaches_iff : es.reaches a b = true ↔ Walk es a b := by
  simp [reaches, mem_reached]

theorem blocked_iff : es.Blocked b ↔ ∃ e ∈ es, es.reaches e.2 e.1 = true ∧ es.reaches e.1 b = true := by
  simp only [reaches_iff]
  constructor
  · rintro ⟨m, ⟨x, hmx, hxm⟩, hmb⟩
    exact ⟨(m, x), hmx, hxm, hmb⟩
  · rintro ⟨⟨m, x⟩, hmx, hxm, hmb⟩
    exact ⟨m, ⟨x, hmx, hxm⟩, hmb⟩

instance : DecidablePred es.Blocked := fun _ => decidable_of_iff _ blocked_iff.symm

end Pipeworks.Edges
