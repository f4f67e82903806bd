import Pipeworks.Proofs.Supervisor.Aging

/-!
Histories. A history is all that happened up to a scene, each move with the scene before it and the scene after it. What
happened since a generation is there is its span; a generation that stands has stood through all of it.
-/

namespace Pipeworks

namespace History

variable {config : Config} {τ : List Deed} {x x' : Scene} {m : Move} {g : Nat}

theorem reachable (h : History config τ x) : Scene.Reachable config (·.isPatient = true) x := by
  induction h with
  | start => exact .start
  | move _ hm hplay ih => exact ih.move hm hplay

/-- Moves that are made one after the other go down in a history. -/
theorem exists_of_plays (ms : List Move) (hms : ∀ m ∈ ms, m.isPatient = true) (h : History config τ x)
    (hplayed : ms.foldlM Scene.play x = some x') : ∃ τ', History config τ' x' := by
  induction ms generalizing τ x with
  | nil => exact ⟨τ, Option.some.inj hplayed ▸ h⟩
  | cons m ms ih =>
      rw [List.foldlM_cons] at hplayed
      obtain ⟨y, hy, hrest⟩ := Option.bind_eq_some_iff.mp hplayed
      exact ih (fun m' hm' => hms m' (List.mem_cons_of_mem _ hm')) (h.move (hms m List.mem_cons_self) hy) hrest

theorem past (h : History config τ x) :
    ∀ d ∈ τ, Scene.Reachable config (·.isPatient = true) d.before ∧ d.before.supervisor.Ages x.supervisor := by
  induction h with
  | start => exact fun d hd => absurd hd List.not_mem_nil
  | @move τ x x' m hpast hm hplay ih =>
      have hages := Scene.ages_play hm hplay
      intro d hd
      rcases List.mem_append.mp hd with hd | hd
      · obtain ⟨hreach, hages'⟩ := ih d hd
        exact ⟨hreach, hages'.trans hages⟩
      · obtain rfl := List.mem_singleton.mp hd
        exact ⟨hpast.reachable, hages⟩

/-! ### What happened since a generation is there -/

def span (τ : List Deed) (g : Nat) : List Deed :=
  τ.filter fun d => g < d.before.supervisor.generations.length

theorem length_le (h : History config τ x) : ∀ d ∈ τ,
    d.before.supervisor.generations.length ≤ x.supervisor.generations.length :=
  fun d hd => (h.past d hd).2.length_le

theorem span_eq_nil (h : History config τ x) (hg : x.supervisor.generations.length ≤ g) :
    span (τ ++ [⟨x, m, x'⟩]) g = [] := by
  refine List.filter_eq_nil_iff.mpr fun d hd => ?_
  rw [decide_eq_true_eq, not_lt]
  rcases List.mem_append.mp hd with hd | hd
  · exact le_trans (h.length_le d hd) hg
  · obtain rfl := List.mem_singleton.mp hd
    exact hg

/-- A generation that stands has stood since it is there. -/
theorem stood (h : History config τ x) {id : PipelineId} (hg : x.Stands id g) : ∀ d ∈ span τ g,
    Scene.Reachable config (·.isPatient = true) d.before ∧ d.move.isPatient = true ∧
      d.before.play d.move = some d.after ∧ d.before.Stands id g := by
  induction h with
  | start => exact fun d hd => absurd hd List.not_mem_nil
  | @move τ x x' m hpast hm hplay ih =>
      intro d hd
      rcases hg.before hpast.reachable hm hplay with ⟨y, hnew, -, -⟩ | ⟨hold, -⟩
      · rw [hpast.span_eq_nil hnew.ge] at hd
        exact absurd hd List.not_mem_nil
      · rcases List.mem_append.mp (List.mem_of_mem_filter hd) with hmem | hlast
        · exact ih hold d (List.mem_filter.mpr ⟨hmem, (List.mem_filter.mp hd).2⟩)
        · obtain rfl := List.mem_singleton.mp hlast
          exact ⟨hpast.reachable, hm, hplay, hold⟩

theorem span_append {d : Deed} (hg : g < d.before.supervisor.generations.length) :
    span (τ ++ [d]) g = span τ g ++ [d] := by
  rw [span, List.filter_append, List.filter_cons_of_pos (by simpa using hg), List.filter_nil]
  rfl

end History

end Pipeworks
