import Pipeworks.Proofs.Supervisor.Steps

/-!
Which processes were asked to stop. Only a shutdown asks, and it asks one process at a time; whoever looks at a process,
time and signals ask nobody.
-/

namespace Pipeworks

namespace Subprocess

variable (now : Moment) (p : Subprocess)

@[simp] theorem stopRequested_isAlive : (p.isAlive now).2.stopRequested = p.stopRequested := rfl

@[simp] theorem stopRequested_exitedUnexpectedly :
    (p.exitedUnexpectedly now).2.stopRequested = p.stopRequested := by
  rw [exitedUnexpectedly]
  split_ifs <;> rfl

@[simp] theorem stopRequested_failed : (p.failed now).2.stopRequested = p.stopRequested :=
  stopRequested_exitedUnexpectedly now p

theorem stopRequested_launch {label : String} {r : Except FileError Program} (h : launch label now r = .ok p) :
    p.stopRequested = false := by
  cases r with
  | error e => exact absurd h (by simp [launch])
  | ok program =>
      obtain rfl := Except.ok.inj h
      rfl

end Subprocess

theorem Teardown.sublist_of_next_later {t t' : Teardown} {s s' : Supervisor} (h : t.next s = .later t' s') :
    t'.processes.Sublist t.processes := by
  obtain ⟨i, rest, hprocesses, ⟨-, rfl, -⟩ | ⟨p, q, -, -, -, ⟨limit, rfl⟩ | ⟨stage, rfl, -⟩ | ⟨rfl, -⟩⟩⟩ :=
    next_later_cases h
  · exact hprocesses ▸ List.sublist_cons_self i rest
  · exact hprocesses ▸ List.Sublist.refl _
  · exact hprocesses ▸ List.Sublist.refl _
  · exact hprocesses ▸ List.sublist_cons_self i rest

namespace Supervisor

variable {s s' s'' : Supervisor} {g : Nat}

def requests (s : Supervisor) : List Bool := s.processes.map (·.stopRequested)

def Asked (s : Supervisor) (i : Nat) : Prop := s.requests[i]? = some true

theorem requests_set {ps : List Subprocess} {i : Nat} {p q : Subprocess} (hp : ps[i]? = some p)
    (hq : q.stopRequested = p.stopRequested) : (ps.set i q).map (·.stopRequested) = ps.map (·.stopRequested) := by
  apply List.ext_getElem?
  intro j
  rw [List.getElem?_map, List.getElem?_map, List.getElem?_set]
  split_ifs with hij hlt
  · rw [← hij, hp, Option.map_some, Option.map_some, hq]
  · rw [← hij, List.getElem?_eq_none (not_lt.mp hlt)]
  · rfl

theorem requests_findAnswer {α : Type} {ask : Subprocess → Option α × Subprocess}
    (hask : ∀ p, (ask p).2.stopRequested = p.stopRequested) (ms : List Member) (ps : List Subprocess) :
    (Member.findAnswer ask ms ps).2.map (·.stopRequested) = ps.map (·.stopRequested) := by
  induction ms generalizing ps with
  | nil => rfl
  | cons m ms ih =>
      cases hp : ps[m.process]? with
      | none =>
          simp only [Member.findAnswer, hp]
          exact ih ps
      | some p =>
          have hkept := hask p
          rcases hanswer : ask p with ⟨_ | a, q⟩
          · simp only [Member.findAnswer, hp, hanswer]
            rw [hanswer] at hkept
            exact (ih _).trans (requests_set hp hkept)
          · simp only [Member.findAnswer, hp, hanswer]
            rw [hanswer] at hkept
            exact requests_set hp hkept

theorem requests_anyOf {ask : Subprocess → Bool × Subprocess}
    (hask : ∀ p, (ask p).2.stopRequested = p.stopRequested) (ms : List Member) (ps : List Subprocess) :
    (Member.anyOf ask ms ps).2.map (·.stopRequested) = ps.map (·.stopRequested) :=
  requests_findAnswer hask ms ps

theorem requests_signal (s : Supervisor) (process number : Nat) : (s.signal process number).requests = s.requests := by
  apply List.ext_getElem?
  intro j
  change ((s.processes.modify process _).map (·.stopRequested))[j]? = (s.processes.map (·.stopRequested))[j]?
  rw [List.getElem?_map, List.getElem?_map, List.getElem?_modify]
  cases s.processes[j]? with
  | none => rfl
  | some p =>
      change some (if process = j then p.receive s.now number else p).stopRequested = some p.stopRequested
      split_ifs <;> rfl

theorem Asked.of_next_later {t t' : Teardown} (h : t.next s = .later t' s') {i : Nat} (hi : s'.Asked i) :
    s.Asked i ∨ ∃ rest, t.processes = i :: rest := by
  obtain ⟨j, rest, hprocesses, ⟨-, -, rfl⟩ | ⟨p, q, -, rfl, -⟩⟩ := Teardown.next_later_cases h
  · exact .inl hi
  · by_cases hij : j = i
    · exact .inr ⟨rest, hij ▸ hprocesses⟩
    · rw [Asked, requests, List.map_set, List.getElem?_set_ne hij] at hi
      exact .inl hi

end Supervisor

end Pipeworks
