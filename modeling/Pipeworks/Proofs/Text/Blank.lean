import Pipeworks.Text.Blank
import Mathlib.Data.List.TakeWhile
import Mathlib.Tactic.Common

/-!
What stands at the ends of a text, and its parts between separators. What is left when an end is cut off is told by what
went: nothing but characters of one kind, and all of them.
-/

namespace Pipeworks.Text

variable {cs ending number core front : List Char} {p : Char → Bool}

/-! ### Dropping characters of one kind -/

theorem dropWhile_eq_iff {rest : List Char} : cs.dropWhile p = rest ↔
    (∃ front, cs = front ++ rest ∧ ∀ c ∈ front, p c = true) ∧ ∀ c ∈ rest.head?, p c = false := by
  constructor
  · rintro rfl
    refine ⟨⟨cs.takeWhile p, List.takeWhile_append_dropWhile.symm, fun c hc => List.mem_takeWhile_imp hc⟩,
      fun c hc => ?_⟩
    have hhead := List.head?_dropWhile_not p cs
    rw [Option.mem_def.mp hc] at hhead
    simpa using hhead
  · rintro ⟨⟨front, rfl, hfront⟩, hhead⟩
    rw [List.dropWhile_append_of_pos hfront]
    cases rest with
    | nil => rfl
    | cons c rest => exact List.dropWhile_cons_of_neg (by simp [hhead c rfl])

theorem reverse_dropWhile_eq_iff : (cs.reverse.dropWhile p).reverse = front ↔
    (∃ back, cs = front ++ back ∧ ∀ c ∈ back, p c = true) ∧ ∀ c ∈ front.getLast?, p c = false := by
  rw [List.reverse_eq_iff, dropWhile_eq_iff, List.head?_reverse]
  refine and_congr_left fun _ => ⟨?_, ?_⟩
  · rintro ⟨back, hcs, hback⟩
    have hsplit : cs = front ++ back.reverse := by
      rw [← List.reverse_inj, hcs, List.reverse_append, List.reverse_reverse]
    exact ⟨back.reverse, hsplit, fun c hc => hback c (List.mem_reverse.mp hc)⟩
  · rintro ⟨back, rfl, hback⟩
    exact ⟨back.reverse, List.reverse_append, fun c hc => hback c (List.mem_reverse.mp hc)⟩

/-! ### Blanks -/

theorem isBlank_of_isDigit {c : Char} (h : c.isDigit = true) : isBlank c = false := by
  have hrange : 48 ≤ c.toNat ∧ c.toNat ≤ 57 := by simpa [Char.isDigit, UInt32.le_iff_toNat_le] using h
  simp only [isBlank, Bool.or_eq_false_iff, Bool.and_eq_false_iff, decide_eq_false_iff_not, beq_eq_false_iff_ne]
  omega

theorem trimEnd_append_blanks {after : List Char} (hafter : ∀ c ∈ after, isBlank c = true) (cs : List Char) :
    trimEnd (cs ++ after) = trimEnd cs := by
  rw [trimEnd, trimEnd, List.reverse_append,
    List.dropWhile_append_of_pos fun c hc => hafter c (List.mem_reverse.mp hc)]

theorem trim_append_blanks {before after : List Char} (hbefore : ∀ c ∈ before, isBlank c = true)
    (hafter : ∀ c ∈ after, isBlank c = true) (cs : List Char) : trim (before ++ cs ++ after) = trim cs := by
  rw [trim, trim, List.append_assoc, List.dropWhile_append_of_pos hbefore, List.dropWhile_append]
  split_ifs with hblank
  · rw [List.isEmpty_iff.mp hblank]
    exact trimEnd_append_blanks (fun c hc => hafter c (List.dropWhile_subset _ hc)) []
  · exact trimEnd_append_blanks hafter _

theorem exists_eq_trim (cs : List Char) : ∃ before after, cs = before ++ trim cs ++ after ∧
    (∀ c ∈ before, isBlank c = true) ∧ ∀ c ∈ after, isBlank c = true := by
  obtain ⟨⟨before, hbefore, hfront⟩, -⟩ := dropWhile_eq_iff.mp (rfl : cs.dropWhile isBlank = _)
  obtain ⟨⟨after, hafter, hback⟩, -⟩ := reverse_dropWhile_eq_iff.mp (rfl : trimEnd (cs.dropWhile isBlank) = _)
  exact ⟨before, after, by rw [trim, List.append_assoc, ← hafter, ← hbefore], hfront, hback⟩

def Bare (cs : List Char) : Prop := (∀ c ∈ cs.head?, isBlank c = false) ∧ ∀ c ∈ cs.getLast?, isBlank c = false

theorem bare_trim (cs : List Char) : Bare (trim cs) := by
  obtain ⟨-, hhead⟩ := dropWhile_eq_iff.mp (rfl : cs.dropWhile isBlank = _)
  obtain ⟨⟨back, hback, -⟩, hlast⟩ := reverse_dropWhile_eq_iff.mp (rfl : trimEnd (cs.dropWhile isBlank) = _)
  refine ⟨fun c hc => hhead c ?_, hlast⟩
  rw [trim] at hc
  rw [hback, List.head?_append, Option.mem_def.mp hc]
  rfl

theorem trim_of_bare (h : Bare cs) : trim cs = cs := by
  have hdrop : cs.dropWhile isBlank = cs := dropWhile_eq_iff.mpr ⟨⟨[], rfl, List.forall_mem_nil _⟩, h.1⟩
  rw [trim, hdrop, trimEnd]
  exact reverse_dropWhile_eq_iff.mpr ⟨⟨[], (List.append_nil cs).symm, List.forall_mem_nil _⟩, h.2⟩

/-- A text is trimmed to what stands between the blanks at its ends. -/
theorem trim_eq_iff : trim cs = core ↔ Bare core ∧ ∃ before after, cs = before ++ core ++ after ∧
    (∀ c ∈ before, isBlank c = true) ∧ ∀ c ∈ after, isBlank c = true := by
  constructor
  · rintro rfl
    exact ⟨bare_trim cs, exists_eq_trim cs⟩
  · rintro ⟨hbare, before, after, rfl, hbefore, hafter⟩
    rw [trim_append_blanks hbefore hafter, trim_of_bare hbare]

theorem trim_eq_nil_iff : trim cs = [] ↔ ∀ c ∈ cs, isBlank c = true := by
  rw [trim_eq_iff]
  constructor
  · rintro ⟨-, before, after, rfl, hbefore, hafter⟩
    simpa [or_imp, forall_and] using And.intro hbefore hafter
  · exact fun h => ⟨by simp [Bare], cs, [], by simp, h, List.forall_mem_nil _⟩

theorem trim_of_not_blank {c : Char} (hc : isBlank c = false) {d : Char} (hd : isBlank d = false) (cs : List Char) :
    trim (c :: (cs ++ [d])) = c :: (cs ++ [d]) := by
  refine trim_of_bare ⟨by simpa using hc, ?_⟩
  rw [← List.cons_append, List.getLast?_concat]
  simpa using hd

/-! ### Endings and parts -/

theorem dropEnding?_append (cs ending : List Char) : dropEnding? (cs ++ ending) ending = some cs := by
  rw [dropEnding?, if_pos (List.isSuffixOf_iff_suffix.mpr (List.suffix_append cs ending))]
  simp

theorem dropEnding?_eq_some_iff : dropEnding? cs ending = some number ↔ cs = number ++ ending := by
  refine ⟨fun h => ?_, ?_⟩
  · rw [dropEnding?] at h
    split_ifs at h with hends
    obtain ⟨front, rfl⟩ := List.isSuffixOf_iff_suffix.mp hends
    have hfront : front = number := by simpa using h
    rw [hfront]
  · rintro rfl
    exact dropEnding?_append number ending

theorem cutAt_eq_splitOn (sep : Char) (cs : List Char) : cutAt sep cs = cs.splitOn sep := by
  induction cs with
  | nil => simp [cutAt]
  | cons c cs ih =>
      obtain ⟨part, parts, hparts⟩ := List.exists_cons_of_ne_nil (List.splitOn_ne_nil sep cs)
      rw [cutAt, ih, List.splitOn_cons_eq_if_modifyHead, hparts]
      simp

end Pipeworks.Text
