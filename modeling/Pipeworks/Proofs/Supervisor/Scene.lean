import Pipeworks.Supervisor.Scene

/-!
What holds at every scene that moves lead to, and what becomes of a call that goes on.
-/

namespace Pipeworks

namespace Scene

/-- What holds at first and is preserved by every move holds at every scene. -/
theorem Reachable.invariant {config : Config} {P : Move → Prop} {I : Scene → Prop} (hstart : I (ofConfig config))
    (hplay : ∀ x m x', P m → I x → x.play m = some x' → I x') {x : Scene} (h : Reachable config P x) : I x := by
  induction h with
  | start => exact hstart
  | move _ hm hplayed ih => exact hplay _ _ _ hm ih hplayed

theorem Reachable.plays {config : Config} {P : Move → Prop} {x x' : Scene} (h : Reachable config P x) (ms : List Move)
    (hms : ∀ m ∈ ms, P m) (hplayed : ms.foldlM Scene.play x = some x') : Reachable config P x' := by
  induction ms generalizing x with
  | nil => exact Option.some.inj hplayed ▸ h
  | cons m ms ih =>
      rw [List.foldlM_cons] at hplayed
      obtain ⟨y, hy, hrest⟩ := Option.bind_eq_some_iff.mp hplayed
      exact ih (h.move (hms m (by simp)) hy) (fun m' hm' => hms m' (by simp [hm'])) hrest

/-- A call that goes on stands somewhere among the others, and makes place for its next stage or vanishes. -/
theorem proceed_eq_some {x x' : Scene} {k : Nat} {env : Surroundings} (h : x.proceed k env = some x') :
    ∃ earlier c later, x.calls = earlier ++ c :: later ∧
      ((∃ a, x.supervisor.step env c = .answer a x'.supervisor ∧ x'.calls = earlier ++ later) ∨
        ∃ c', x.supervisor.step env c = .later c' x'.supervisor ∧ x'.calls = earlier ++ c' :: later) := by
  obtain ⟨c, hc, hstep⟩ := Option.bind_eq_some_iff.mp h
  obtain ⟨hk, rfl⟩ := List.getElem?_eq_some_iff.mp hc
  refine ⟨x.calls.take k, x.calls[k], x.calls.drop (k + 1), by simp, ?_⟩
  split at hstep
  · rename_i a s hs
    obtain rfl := Option.some.inj hstep
    exact .inl ⟨a, hs, List.eraseIdx_eq_take_drop_succ _ _⟩
  · rename_i c s hs
    obtain rfl := Option.some.inj hstep
    exact .inr ⟨c, hs, List.set_eq_take_append_cons_drop .. |>.trans (if_pos hk)⟩
  · exact absurd hstep (by simp)

end Scene

end Pipeworks
