import Pipeworks.Text.Unsigned
import Mathlib.Tactic.Common

/-!
Decimal digits and the numbers that they denote. The digits of a number are read as that number, if it is below the
bound of the reader, and nothing else is read but digits with a plus sign in front of them or without one.
-/

namespace Pipeworks.Text

variable {c : Char} {cs : List Char} {n bound : Nat}

theorem isDigit_of_mem_toDigits (h : c ∈ Nat.toDigits 10 n) : c.isDigit = true :=
  Nat.isDigit_of_mem_toDigits (by decide) (by decide) h

theorem le_ofDigitChars (cs : List Char) (n : Nat) : n ≤ Nat.ofDigitChars 10 cs n := by
  have hpos : 1 * n ≤ 10 ^ cs.length * n := Nat.mul_le_mul_right n (Nat.pow_pos (by decide))
  rw [Nat.ofDigitChars_eq_ofDigitChars_zero]
  omega

theorem toDigits_head_ne_zero (h : Nat.toDigits 10 n = c :: cs) (hn : n ≠ 0) : c ≠ '0' := by
  induction n using Nat.base_induction 10 (by decide) generalizing cs with
  | single m hm =>
      rw [Nat.toDigits_of_lt_base hm] at h
      cases h
      simpa using hn
  | digit m k hk hm ih =>
      rw [← Nat.toDigits_append_toDigits (by decide) hm hk] at h
      cases hd : Nat.toDigits 10 m with
      | nil => exact absurd hd Nat.toDigits_ne_nil
      | cons d ds =>
          rw [hd] at h
          cases h
          exact ih hd (by omega)

theorem readDigits_eq (hcs : ∀ c ∈ cs, c.isDigit = true) (hn : Nat.ofDigitChars 10 cs n < bound) :
    readDigits bound n cs = .ok (Nat.ofDigitChars 10 cs n) := by
  induction cs generalizing n with
  | nil => rfl
  | cons c cs ih =>
      have hc : digitVal? c = some (c.toNat - '0'.toNat) := by simp [digitVal?, hcs c (by simp)]
      rw [Nat.ofDigitChars_cons, Nat.mul_comm] at hn ⊢
      have hle := le_ofDigitChars cs (n * 10 + (c.toNat - '0'.toNat))
      simp only [readDigits, hc]
      rw [if_pos (Nat.lt_of_le_of_lt hle hn)]
      exact ih (fun c hc => hcs c (by simp [hc])) hn

/-- Digits of a number that does not fit are refused, at the digit at which it grows too large. -/
theorem readDigits_eq_tooLarge (hcs : ∀ c ∈ cs, c.isDigit = true) (hn : n < bound)
    (hlarge : bound ≤ Nat.ofDigitChars 10 cs n) : readDigits bound n cs = .error .tooLarge := by
  induction cs generalizing n with
  | nil => exact absurd hn (Nat.not_lt.mpr hlarge)
  | cons c cs ih =>
      have hc : digitVal? c = some (c.toNat - '0'.toNat) := by simp [digitVal?, hcs c (by simp)]
      rw [Nat.ofDigitChars_cons, Nat.mul_comm] at hlarge
      simp only [readDigits, hc]
      split_ifs with hfits
      · exact ih (fun c hc => hcs c (by simp [hc])) hfits hlarge
      · rfl

/-- Whatever is read is digits, and the number that they denote. -/
theorem readDigits_eq_ok_iff {m : Nat} : readDigits bound n cs = .ok m ↔
    (∀ c ∈ cs, c.isDigit = true) ∧ Nat.ofDigitChars 10 cs n = m ∧ (cs = [] ∨ m < bound) := by
  refine ⟨fun h => ?_, ?_⟩
  · induction cs generalizing n with
    | nil => exact ⟨List.forall_mem_nil _, Except.ok.inj h, .inl rfl⟩
    | cons c cs ih =>
        rw [readDigits, digitVal?] at h
        split_ifs at h with hdigit
        dsimp only at h
        split_ifs at h with hfits
        obtain ⟨hdigits, hvalue, hbound⟩ := ih h
        refine ⟨List.forall_mem_cons.mpr ⟨hdigit, hdigits⟩, ?_, .inr ?_⟩
        · rw [Nat.ofDigitChars_cons, Nat.mul_comm, hvalue]
        · rcases hbound with rfl | hbound
          · exact hvalue ▸ hfits
          · exact hbound
  · rintro ⟨hdigits, rfl, rfl | hbound⟩
    · rfl
    · exact readDigits_eq hdigits hbound

/-- A number as it may be written: with a plus sign or without one, in one or more digits. -/
def Denotes (cs : List Char) (n : Nat) : Prop :=
  ∃ ds, (cs = ds ∨ cs = '+' :: ds) ∧ ds ≠ [] ∧ (∀ c ∈ ds, c.isDigit = true) ∧ Nat.ofDigitChars 10 ds 0 = n

/-- A number is read exactly as it may be written, if it is below the bound. -/
theorem readUnsigned_eq_ok_iff {m : Nat} : readUnsigned bound cs = .ok m ↔ m < bound ∧ Denotes cs m := by
  have hplus : ¬('+' : Char).isDigit = true := by decide
  have hread {ds : List Char} (hds : ds ≠ []) : readDigits bound 0 ds = .ok m ↔
      m < bound ∧ (∀ c ∈ ds, c.isDigit = true) ∧ Nat.ofDigitChars 10 ds 0 = m := by
    rw [readDigits_eq_ok_iff, or_iff_right hds]
    tauto
  unfold readUnsigned
  split
  · simp [Denotes]
  · refine iff_of_false (by simp) ?_
    rintro ⟨-, ds, rfl | hds, hne, hdigits, -⟩
    · exact hplus (hdigits _ List.mem_cons_self)
    · exact hne (List.cons.inj hds).2.symm
  · rename_i ds hne
    rw [hread (by simpa using hne)]
    refine and_congr_right fun _ => ⟨fun h => ⟨ds, .inr rfl, by simpa using hne, h⟩, ?_⟩
    rintro ⟨ds', rfl | hds, -, hdigits, hvalue⟩
    · exact absurd (hdigits _ List.mem_cons_self) hplus
    · exact (List.cons.inj hds).2 ▸ ⟨hdigits, hvalue⟩
  · rename_i hempty _ hsigned
    rw [hread hempty]
    refine and_congr_right fun _ => ⟨fun h => ⟨cs, .inl rfl, hempty, h⟩, ?_⟩
    rintro ⟨ds, rfl | rfl, -, h⟩
    · exact h
    · exact absurd rfl (hsigned ds)

/-- There is no sign to skip in front of the digits of a number. -/
theorem readUnsigned_toDigits_eq (bound n : Nat) :
    readUnsigned bound (Nat.toDigits 10 n) = readDigits bound 0 (Nat.toDigits 10 n) := by
  have hplus : ∀ cs, Nat.toDigits 10 n ≠ '+' :: cs := by
    intro cs h
    exact absurd (isDigit_of_mem_toDigits (n := n) (c := '+') (by simp [h])) (by decide)
  unfold readUnsigned
  split
  · rename_i h; exact absurd h Nat.toDigits_ne_nil
  · rename_i h; exact absurd h (hplus _)
  · rename_i h; exact absurd h (hplus _)
  · rfl

theorem readUnsigned_toDigits (hn : n < bound) : readUnsigned bound (Nat.toDigits 10 n) = .ok n := by
  have hread : readDigits bound 0 (Nat.toDigits 10 n) = .ok (Nat.ofDigitChars 10 (Nat.toDigits 10 n) 0) :=
    readDigits_eq (fun c => isDigit_of_mem_toDigits) (by rwa [Nat.ofDigitChars_ten_toDigits])
  rw [readUnsigned_toDigits_eq, hread, Nat.ofDigitChars_ten_toDigits]

theorem readUnsigned_toDigits_of_le (hbound : 0 < bound) (hn : bound ≤ n) :
    readUnsigned bound (Nat.toDigits 10 n) = .error .tooLarge := by
  rw [readUnsigned_toDigits_eq]
  exact readDigits_eq_tooLarge (fun c => isDigit_of_mem_toDigits) hbound (by rwa [Nat.ofDigitChars_ten_toDigits])

end Pipeworks.Text
