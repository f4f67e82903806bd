import Pipeworks.Proofs.Supervisor.Standing

/-!
What stays whatever happens. Processes and generations that were started are there ever after: a process only gets
older, a generation keeps its processes, and nobody but its monitor changes the stage of the monitor.
-/

namespace Pipeworks

namespace Supervisor

variable {s s' s'' : Supervisor} {g : Nat}

/-- What was started is there later: the processes, and the generations with their processes. -/
structure Ages (s s' : Supervisor) : Prop where
  later : ∀ (i : Nat) p, s.processes[i]? = some p →
    ∃ q, s'.processes[i]? = some q ∧ Subprocess.Later s.now s'.now p q
  crews : ∃ more, s'.generations.map Generation.crew = s.generations.map Generation.crew ++ more

namespace Ages

theorem trans (h : s.Ages s') (h' : s'.Ages s'') : s.Ages s'' := by
  refine ⟨fun i p hp => ?_, ?_⟩
  · obtain ⟨q, hq, hlater⟩ := h.later i p hp
    obtain ⟨r, hr, hlater'⟩ := h'.later i q hq
    exact ⟨r, hr, hlater.trans hlater'⟩
  · obtain ⟨more, hmore⟩ := h.crews
    obtain ⟨more', hmore'⟩ := h'.crews
    exact ⟨more ++ more', by rw [hmore', hmore, List.append_assoc]⟩

theorem of_aged (haged : Aged s.now s'.now s.processes s'.processes)
    (hcrews : s'.generations.map Generation.crew = s.generations.map Generation.crew) : s.Ages s' :=
  ⟨fun _ _ hp => haged.exists_later hp, [], by rw [hcrews, List.append_nil]⟩

theorem of_quiet (h : s.Quiet s') : s.Ages s' := of_aged h.aged h.crews

theorem of_grown (h : s.Grown s') : s.Ages s' := by
  refine ⟨fun i p hp => ⟨p, ?_, ?_⟩, ?_⟩
  · rw [h.getElem?_processes (List.getElem?_eq_some_iff.mp hp).1, hp]
  · rw [h.now]
    exact .refl _ _
  · obtain ⟨xs, hxs⟩ := h.generations
    exact ⟨xs.map Generation.crew, by rw [hxs, List.map_append]⟩

theorem of_effect {c : Call} {c' : Option Call} (h : Effect s c s' c') : s.Ages s' := by
  have hcrews (s : Supervisor) : s.generations.map Generation.crew = s.cores.map Generation.crew := by
    rw [cores, List.map_map]
    rfl
  refine ⟨fun i p hp => ?_, ?_⟩
  · obtain ⟨hnow, qs, ps, haged, hps, -⟩ := h.aged
    obtain ⟨q, hq, hlater⟩ := haged.exists_later hp
    rw [hnow, hps, List.getElem?_append_left (List.getElem?_eq_some_iff.mp hq).1]
    exact ⟨q, hq, hlater⟩
  · obtain ⟨xs, hxs, -⟩ := h.cores
    exact ⟨xs.map Generation.crew, by rw [hcrews, hcrews, hxs, List.map_append]⟩

theorem gone (h : s.Ages s') {i : Nat} (hi : s.Gone i) : s'.Gone i := by
  obtain ⟨p, hp, hend⟩ := hi
  obtain ⟨q, hq, hlater⟩ := h.later i p hp
  exact ⟨q, hq, fun hrun => hend (hlater.alive hrun)⟩

theorem length_processes (h : s.Ages s') : s.processes.length ≤ s'.processes.length := by
  by_contra hlt
  obtain ⟨q, hq, -⟩ := h.later _ _ (List.getElem?_eq_getElem (not_le.mp hlt))
  exact absurd (List.getElem?_eq_some_iff.mp hq).1 (lt_irrefl _)

theorem length_le (h : s.Ages s') : s.generations.length ≤ s'.generations.length := by
  obtain ⟨more, hmore⟩ := h.crews
  have hlength := congrArg List.length hmore
  rw [List.length_map, List.length_append, List.length_map] at hlength
  omega

theorem crew_eq (h : s.Ages s') (hg : g < s.generations.length) : s'.crew g = s.crew g := by
  have hcrew (s : Supervisor) :
      s.crew g = (((s.generations.map Generation.crew)[g]?).map fun crew => crew.2.map (·.process)).getD [] := by
    rw [crew, List.getElem?_map, Option.map_map]
    rfl
  obtain ⟨more, hmore⟩ := h.crews
  rw [hcrew, hcrew, hmore, List.getElem?_append_left (by rwa [List.length_map])]

end Ages

end Supervisor

namespace Scene

variable {x x' : Scene} {m : Move} {g : Nat}

theorem ages_play (hm : m.isPatient = true) (hplay : x.play m = some x') : x.supervisor.Ages x'.supervisor := by
  cases m with
  | ask c =>
      rw [play] at hplay
      split_ifs at hplay
      obtain rfl := Option.some.inj hplay
      exact .of_quiet (.refl _)
  | proceed k env =>
      obtain ⟨c, c', others, -, heffect, -⟩ := effect_of_proceed hplay
      exact .of_effect heffect
  | giveUp k => exact absurd hm (by simp [Move.isPatient])
  | watch g timerFirst =>
      obtain ⟨s, hs, rfl⟩ := Option.map_eq_some_iff.mp hplay
      exact .of_quiet (.stepMonitor hs)
  | pass time =>
      obtain rfl := Option.some.inj hplay
      exact .of_quiet (.pass _ _)
  | signal process number =>
      obtain rfl := Option.some.inj hplay
      exact .of_quiet (.signal _ _ _)
  | ingest e =>
      obtain rfl := Option.some.inj hplay
      exact .of_quiet (.ingest _ _)

/-- What others do leaves a monitor where it is, and the monitor of a generation that is made has not begun. -/
theorem core_play (hm : m.isPatient = true) (hplay : x.play m = some x')
    (hothers : ∀ timerFirst, m ≠ .watch g timerFirst) :
    x'.supervisor.cores[g]? = x.supervisor.cores[g]? ∨
      x.supervisor.generations.length ≤ g ∧ ∀ y, x'.supervisor.cores[g]? = some y → y.monitor = .fresh := by
  cases m with
  | ask c =>
      rw [play] at hplay
      split_ifs at hplay
      obtain rfl := Option.some.inj hplay
      exact .inl rfl
  | proceed k env =>
      obtain ⟨c, c', others, -, heffect, -⟩ := effect_of_proceed hplay
      obtain ⟨xs, hxs, hfresh⟩ := heffect.cores
      have hlength : x.supervisor.cores.length = x.supervisor.generations.length := List.length_map _
      rw [hxs, List.getElem?_append]
      split_ifs with hlt
      · exact .inl rfl
      · exact .inr ⟨hlength ▸ not_lt.mp hlt, fun y hy => hfresh y (List.mem_of_getElem? hy)⟩
  | giveUp k => exact absurd hm (by simp [Move.isPatient])
  | watch g' timerFirst =>
      obtain ⟨s, hs, rfl⟩ := Option.map_eq_some_iff.mp hplay
      refine .inl ?_
      rw [Supervisor.cores, Supervisor.cores, List.getElem?_map, List.getElem?_map,
        Supervisor.touchesOnly_stepMonitor hs g fun heq => hothers timerFirst (heq ▸ rfl)]
  | pass time =>
      obtain rfl := Option.some.inj hplay
      exact .inl rfl
  | signal process number =>
      obtain rfl := Option.some.inj hplay
      exact .inl rfl
  | ingest e =>
      obtain rfl := Option.some.inj hplay
      exact .inl rfl

end Scene

end Pipeworks
