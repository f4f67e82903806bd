import Pipeworks.Proofs.Duration

/-!
How durations may be spelled. A spelling is a number and a unit right behind it, with blanks around both or not. Every
spelling is read, and nothing else: the units are looked for one after another at the end of a text, but none of them
is the end of one that is looked for later, and none has a digit, so that the first one found is the one that stands
there.
-/

namespace Pipeworks

namespace Duration

variable {units : List (String × Nat)} {cs number : List Char} {unit : String} {factor n : Nat} {d : Duration}

/-! ### Units -/

structure Distinct (units : List (String × Nat)) : Prop where
  /-- No unit has a digit. -/
  letters : ∀ u ∈ units, ∀ c ∈ u.1.toList, c.isDigit = false
  /-- None is the end of one that is looked for later. -/
  apart : units.Pairwise fun u v => ¬u.1.toList <:+ v.1.toList

theorem distinct_units : Distinct Duration.units where
  letters := by simp [Duration.units]
  apart := by simp [Duration.units, List.suffix_cons_iff]

theorem exists_digit_of_denotes (h : Text.Denotes number n) : ∃ front c, number = front ++ [c] ∧ c.isDigit = true := by
  obtain ⟨ds, hnumber, hne, hdigits, -⟩ := h
  have hlast := hdigits _ (List.getLast_mem hne)
  have hds := (List.dropLast_append_getLast hne).symm
  rcases hnumber with rfl | rfl
  · exact ⟨_, _, hds, hlast⟩
  · exact ⟨'+' :: ds.dropLast, _, congrArg ('+' :: ·) hds, hlast⟩

/-- A text that ends with a number and a unit does not end with a unit that is looked for before that one. -/
theorem not_suffix_of_spelled {u v : List Char} (hletters : ∀ c ∈ u, c.isDigit = false) (hapart : ¬u <:+ v)
    (h : Text.Denotes number n) : ¬u <:+ number ++ v := by
  intro hends
  rcases List.suffix_or_suffix_of_suffix hends (List.suffix_append number v) with hwithin | ⟨w, rfl⟩
  · exact hapart hwithin
  · -- what stands before the later unit is the end of the number
    obtain ⟨front, c, rfl, hdigit⟩ := exists_digit_of_denotes h
    obtain ⟨rest, hrest⟩ := hends
    rw [← List.append_assoc] at hrest
    have hend : rest ++ w = front ++ [c] := List.append_cancel_right hrest
    rcases w.eq_nil_or_concat with rfl | ⟨w', c', rfl⟩
    · exact hapart (List.suffix_refl v)
    · rw [List.concat_eq_append, ← List.append_assoc] at hend
      obtain rfl : c' = c := by simpa using (List.append_inj' hend rfl).2
      rw [hletters c' (by simp)] at hdigit
      cases hdigit

/-- A text is read with the first unit found at its end if and only if it is a number and one of the units. -/
theorem parseWith_eq_ok_iff (hunits : Distinct units) : parseWith units cs = .ok d ↔
    ∃ unit factor number n, (unit, factor) ∈ units ∧ cs = number ++ unit.toList ∧ n < Text.bound64 ∧
      Text.Denotes number n ∧ d = ofMillis (n * factor) := by
  induction units with
  | nil => simp [parseWith]
  | cons first rest ih =>
      obtain ⟨first, times⟩ := first
      obtain ⟨hfirst, hrest⟩ := List.pairwise_cons.mp hunits.apart
      have hletters := List.forall_mem_cons.mp hunits.letters
      rw [parseWith]
      cases hdrop : Text.dropEnding? cs first.toList with
      | none =>
          rw [ih ⟨hletters.2, hrest⟩]
          refine exists₄_congr fun unit factor number n =>
            ⟨fun h => ⟨List.mem_cons_of_mem _ h.1, h.2⟩, fun h => ⟨?_, h.2⟩⟩
          refine (List.mem_cons.mp h.1).resolve_left fun heq => ?_
          obtain ⟨rfl, rfl⟩ := Prod.mk.inj heq
          rw [Text.dropEnding?_eq_some_iff.mpr h.2.1] at hdrop
          cases hdrop
      | some found =>
          obtain rfl := Text.dropEnding?_eq_some_iff.mp hdrop
          dsimp only
          refine ⟨fun h => ?_, ?_⟩
          · cases hread : Text.readUnsigned Text.bound64 found with
            | error e =>
                rw [hread] at h
                cases h
            | ok n =>
                rw [hread] at h
                obtain ⟨hn, hdenotes⟩ := Text.readUnsigned_eq_ok_iff.mp hread
                exact ⟨first, times, found, n, List.mem_cons_self, rfl, hn, hdenotes, (Except.ok.inj h).symm⟩
          · rintro ⟨unit, factor, number, n, hunit, htext, hn, hdenotes, rfl⟩
            rcases List.mem_cons.mp hunit with heq | hlater
            · obtain ⟨rfl, rfl⟩ := Prod.mk.inj heq
              obtain rfl := List.append_cancel_right htext
              simp only [Text.readUnsigned_eq_ok_iff.mpr ⟨hn, hdenotes⟩]
            · -- a later unit cannot be meant, since then this one would not have been found at the end
              exact absurd ⟨found, htext⟩ (not_suffix_of_spelled hletters.1 (hfirst _ hlater) hdenotes)

/-! ### Spellings -/

/-- A text that spells a number of a unit: the number, the unit right behind it, and blanks around both or not. -/
def Spells (text : String) (n : Nat) (unit : String) : Prop :=
  ∃ before number after, text.toList = before ++ (number ++ unit.toList) ++ after ∧
    (∀ c ∈ before, Text.isBlank c = true) ∧ (∀ c ∈ after, Text.isBlank c = true) ∧ Text.Denotes number n

theorem trim_spelled (h : Text.Denotes number n) (hunit : (unit, factor) ∈ Duration.units) :
    Text.trim (number ++ unit.toList) = number ++ unit.toList := by
  have hhead : ∃ c cs, number = c :: cs ∧ Text.isBlank c = false := by
    obtain ⟨ds, hnumber, hne, hdigits, -⟩ := h
    obtain ⟨d, ds, rfl⟩ := List.exists_cons_of_ne_nil hne
    rcases hnumber with rfl | rfl
    · exact ⟨d, ds, rfl, Text.isBlank_of_isDigit (hdigits d List.mem_cons_self)⟩
    · exact ⟨'+', d :: ds, rfl, by decide⟩
  have hlast : ∀ u ∈ Duration.units, ∃ front c, u.1.toList = front ++ [c] ∧ Text.isBlank c = false := by
    simp only [Duration.units, List.forall_mem_cons]
    exact ⟨⟨['m'], 's', rfl, by decide⟩, ⟨[], 's', rfl, by decide⟩, ⟨[], 'm', rfl, by decide⟩,
      ⟨[], 'h', rfl, by decide⟩, ⟨[], 'd', rfl, by decide⟩, List.forall_mem_nil _⟩
  obtain ⟨c, cs, rfl, hc⟩ := hhead
  obtain ⟨front, e, hend, he⟩ := hlast _ hunit
  rw [hend, List.cons_append, ← List.append_assoc]
  exact Text.trim_of_not_blank hc he (cs ++ front)

theorem spells_iff (s : String) (hunit : (unit, factor) ∈ Duration.units) :
    Spells s n unit ↔ ∃ number, Text.trim s.toList = number ++ unit.toList ∧ Text.Denotes number n := by
  constructor
  · rintro ⟨before, number, after, htext, hbefore, hafter, hdenotes⟩
    refine ⟨number, ?_, hdenotes⟩
    rw [htext, Text.trim_append_blanks hbefore hafter, trim_spelled hdenotes hunit]
  · rintro ⟨number, htrim, hdenotes⟩
    obtain ⟨before, after, htext, hbefore, hafter⟩ := Text.exists_eq_trim s.toList
    exact ⟨before, number, after, htrim ▸ htext, hbefore, hafter, hdenotes⟩

/-- A text is read exactly if it spells a number below the bound of 64 bits of one of the five units, and then it is read
as so many times the milliseconds of the unit. -/
theorem parse_eq_ok_iff_spells (s : String) (d : Duration) :
    parse s = .ok d ↔ ∃ n unit factor,
      (unit, factor) ∈ [("ms", 1), ("s", 1000), ("m", 60000), ("h", 3600000), ("d", 86400000)] ∧
        n < Text.bound64 ∧ Spells s n unit ∧ d = ofMillis (n * factor) := by
  rw [parse, parseWith_eq_ok_iff distinct_units]
  constructor
  · rintro ⟨unit, factor, number, n, hunit, htext, hn, hdenotes, rfl⟩
    exact ⟨n, unit, factor, hunit, hn, (spells_iff s hunit).mpr ⟨number, htext, hdenotes⟩, rfl⟩
  · rintro ⟨n, unit, factor, hunit, hn, hspells, rfl⟩
    obtain ⟨number, htext, hdenotes⟩ := (spells_iff s hunit).mp hspells
    exact ⟨unit, factor, number, n, hunit, htext, hn, hdenotes, rfl⟩

/-- Blanks of any kind may stand around, but none between the number and the unit, and the unit that is found first is
not given up for another one. -/
example : parse "\u3000+007m\t" = .ok (ofSecs 420) ∧ parse "7 m" = .error (.invalidNumber .invalidDigit) ∧
    parse "7sms" = .error (.invalidNumber .invalidDigit) := by
  decide +kernel

end Duration

end Pipeworks
