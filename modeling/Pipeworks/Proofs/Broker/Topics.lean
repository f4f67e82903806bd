import Pipeworks.Broker.Traffic
import Mathlib.Tactic.Common

/-!
The topics of a hub. Whatever is done to a hub, a topic keeps its records, and only one that is produced joins them.
-/

namespace Pipeworks.Hub

variable {h : Hub} {c : Channel}

theorem records_eq (h : Hub) (c : Channel) :
    h.records c = ((h.logs.find? (·.1 = c)).map (·.2)).getD #[] := rfl

theorem find?_of_not_any (hany : ¬h.logs.any (·.1 = c) = true) : h.logs.find? (·.1 = c) = none :=
  List.find?_eq_none.mpr fun entry hmem hentry => hany (List.any_eq_true.mpr ⟨entry, hmem, hentry⟩)

theorem records_produce_eq (h : Hub) (c c' : Channel) (record : Record) :
    (h.produce c record).records c' = if c' = c then (h.records c).push record else h.records c' := by
  have hkey : (fun entry : Channel × Array Record => decide (entry.1 = c')) ∘
      (fun entry : Channel × Array Record =>
        if entry.1 = c then (entry.1, entry.2.push record) else (entry.1, entry.2)) =
      fun entry => decide (entry.1 = c') := by
    funext entry
    simp only [Function.comp_apply]
    split_ifs <;> rfl
  by_cases hany : (h.logs.any (·.1 = c)) = true
  · have hlogs : (h.produce c record).logs = h.logs.map fun entry =>
        if entry.1 = c then (entry.1, entry.2.push record) else (entry.1, entry.2) := by
      simp only [produce, hany, if_true]
    rw [records_eq, hlogs, List.find?_map, hkey]
    cases hfind : h.logs.find? (·.1 = c') with
    | none =>
        have hne : c' ≠ c := by
          rintro rfl
          obtain ⟨entry, hmem, hentry⟩ := List.any_eq_true.mp hany
          exact List.find?_eq_none.mp hfind entry hmem hentry
        simp [records_eq, hfind, hne]
    | some entry =>
        have hentry : entry.1 = c' := by simpa using List.find?_some hfind
        by_cases hc : c' = c
        · subst hc
          simp [records_eq, hfind, hentry]
        · simp [records_eq, hfind, hentry, hc]
  · have hlogs : (h.produce c record).logs = h.logs ++ [(c, #[record])] := by
      simp only [produce, hany]
      rfl
    have hnone := find?_of_not_any hany
    rw [records_eq, hlogs, List.find?_append]
    by_cases hc : c' = c
    · subst hc
      simp [records_eq, hnone]
    · have hc' : ¬c = c' := fun heq => hc heq.symm
      simp [records_eq, hc, hc']

theorem records_produce (h : Hub) (c c' : Channel) (record : Record) :
    (h.records c').toList <+: ((h.produce c record).records c').toList := by
  rw [records_produce_eq]
  split_ifs with hc
  · rw [hc, Array.toList_push]
    exact List.prefix_append _ _
  · exact List.prefix_rfl

@[simp] theorem records_locate (h : Hub) (c c' : Channel) : (h.locate c).records c' = h.records c' := by
  unfold locate
  split_ifs with hany
  · rfl
  · rw [records_eq, records_eq, List.find?_append]
    by_cases hc : c = c'
    · subst hc
      have hnone := find?_of_not_any hany
      simp [hnone]
    · simp [hc]

@[simp] theorem records_setDown (h : Hub) (broker : String) (down : Bool) (c : Channel) :
    (h.setDown broker down).records c = h.records c := by
  cases down <;> rfl

/-- A topic that was looked for gets its first record like one that is new. -/
theorem produce_locate (h : Hub) (c : Channel) (record : Record) :
    (h.locate c).produce c record = h.produce c record := by
  unfold locate
  split_ifs with hany
  · rfl
  · have hmap : h.logs.map (fun entry : Channel × Array Record =>
        if entry.1 = c then (entry.1, entry.2.push record) else (entry.1, entry.2)) = h.logs := by
      refine (List.map_congr_left fun entry hmem => ?_).trans (List.map_id _)
      exact if_neg fun heq => hany (List.any_eq_true.mpr ⟨entry, hmem, by simpa using heq⟩)
    have hany' : (h.logs ++ [(c, #[])]).any (·.1 = c) = true := by simp
    simp only [produce, hany, hany', if_true, List.map_append, List.map_cons, List.map_nil]
    erw [hmap]
    rfl

theorem next?_eq_some {s s' : Subscription} {record : Record} (hnext : h.next? s = some (record, s')) :
    (h.records s.channel)[s.offset]? = some record ∧ s' = { s with offset := s.offset + 1 } := by
  obtain ⟨r, hr, heq⟩ := Option.map_eq_some_iff.mp hnext
  obtain ⟨rfl, rfl⟩ := Prod.mk.inj heq
  exact ⟨hr, rfl⟩

theorem next?_eq_none {s : Subscription} : h.next? s = none ↔ (h.records s.channel)[s.offset]? = none :=
  Option.map_eq_none_iff

end Pipeworks.Hub
