import Pipeworks.Proofs.Json.Free
import Pipeworks.Proofs.Json.Spelling

/-!
Doubles within a value. The text of a finite double has the letters of numerals only, so if it is read as that double
when it stands alone, it is read as that double within any text.
-/

namespace Pipeworks

open Text (Symbol)

namespace Decimal

abbrev Lettered (cs : List Char) : Prop := ∀ c ∈ cs, Json.Numeral.isLetter c = true

theorem lettered_of_all {cs : List Char} (h : cs.all Json.Numeral.isLetter = true) : Lettered cs :=
  List.all_eq_true.mp h

/-- Without an exponent a decimal is digits, zeros and a point, with one a sign and digits more. -/
theorem lettered_digits (d : Digits) : Lettered (json.digits d).toList := by
  have hds : Lettered (Nat.toDigits 10 d.digits) := fun c => Json.Number.isLetter_of_mem_toDigits
  have hzeros : ∀ n, Lettered (List.replicate n '0') := fun n c hc => (List.mem_replicate.mp hc).2 ▸ by decide
  have hexp : ∀ n : Nat, Lettered (toString n).toList := fun n c hc => by
    rw [Nat.toString_eq_repr, Nat.toList_repr] at hc
    exact Json.Number.isLetter_of_mem_toDigits hc
  unfold Layout.digits
  simp only
  -- Three layouts without an exponent, by where the point goes, and then the one with it.
  split
  · split
    · simp only [String.toList_append, String.toList_ofList, List.forall_mem_append, Lettered]
      exact ⟨⟨hds, hzeros _⟩, lettered_of_all (by decide)⟩
    · split
      · rw [String.toList_ofList]
        simp only [List.splitAt_eq, List.forall_mem_append, List.forall_mem_cons, Lettered]
        exact ⟨fun c hc => hds c (List.mem_of_mem_take hc), by decide, fun c hc => hds c (List.mem_of_mem_drop hc)⟩
      · rw [String.toList_ofList]
        simp only [List.cons_append, List.forall_mem_append, List.forall_mem_cons, Lettered]
        exact ⟨by decide, by decide, hzeros _, hds⟩
  · simp only [String.toList_append, String.toList_ofList, List.forall_mem_append, Lettered]
    refine ⟨⟨⟨?_, lettered_of_all (by decide)⟩, ?_⟩, hexp _⟩
    · split
      · rename_i c heq
        rw [heq] at hds
        exact hds
      · rename_i c cs _ heq
        rw [heq] at hds
        simp only [List.forall_mem_cons, Lettered] at hds ⊢
        exact ⟨hds.1, by decide, hds.2⟩
      · simp
    · split_ifs <;> exact lettered_of_all (by decide)

theorem lettered_float {x : Float} (hnan : x.isNaN = false) (hinf : x.isInf = false) :
    Lettered (json.float x).toList := by
  simp only [Layout.float, hnan, hinf, Bool.false_eq_true, if_false, String.toList_append, List.forall_mem_append,
    Lettered]
  refine ⟨?_, lettered_digits _⟩
  split_ifs <;> exact lettered_of_all (by decide)

end Decimal

namespace Json

variable {s rest : List Symbol}

namespace Numeral

theorem dropDigits_suffix (s : List Symbol) : dropDigits s <:+ s := List.dropWhile_suffix _

theorem signed_suffix (s : List Symbol) : (signed s).2 <:+ s := by
  cases s with
  | nil => exact List.suffix_rfl
  | cons x s =>
      rw [signed_cons]
      split_ifs
      · exact List.suffix_cons x s
      · exact List.suffix_cons x s
      · exact List.suffix_rfl

theorem skimExponent_suffix (h : skimExponent s = .ok rest) : rest <:+ s := by
  rw [skimExponent_eq] at h
  split_ifs at h
  cases h
  exact (dropDigits_suffix _).trans (signed_suffix s)

theorem skimExponentOrEnd_suffix (h : skimExponentOrEnd s = .ok rest) : rest <:+ s := by
  cases s with
  | nil =>
      cases h
      exact List.suffix_rfl
  | cons x s =>
      rw [skimExponentOrEnd_cons] at h
      split_ifs at h
      · exact (skimExponent_suffix h).trans (List.suffix_cons x s)
      · cases h
        exact List.suffix_rfl

theorem skimAfterInteger_suffix (h : skimAfterInteger s = .ok rest) : rest <:+ s := by
  cases s with
  | nil => exact skimExponentOrEnd_suffix h
  | cons x s =>
      rw [skimAfterInteger_cons] at h
      split_ifs at h
      · exact (skimExponentOrEnd_suffix h).trans ((dropDigits_suffix s).trans (List.suffix_cons x s))
      · exact skimExponentOrEnd_suffix h

theorem skimUnsigned_suffix (h : skimUnsigned s = .ok rest) : rest <:+ s := by
  cases s with
  | nil => cases h
  | cons x s =>
      rw [skimUnsigned_cons] at h
      split_ifs at h
      · exact (skimAfterInteger_suffix h).trans (List.suffix_cons x s)
      · exact (skimAfterInteger_suffix h).trans (dropDigits_suffix _)

theorem skim_suffix (h : skim s = .ok rest) : rest <:+ s := by
  cases s with
  | nil => exact skimUnsigned_suffix h
  | cons x s =>
      rw [skim_cons] at h
      split_ifs at h
      · exact (skimUnsigned_suffix h).trans (List.suffix_cons x s)
      · exact skimUnsigned_suffix h

end Numeral

theorem skipGap_letters {cs : List Char} (h : ∀ c ∈ cs, Numeral.isLetter c = true) :
    skipGap (cs.map some) = cs.map some := by
  cases cs with
  | nil => rfl
  | cons c cs => exact skipGap_cons (isGap_of_isLetter (h c (by simp))) _

/-- At a letter of numerals the parser finds a number up to where skimming ends, or nothing. -/
theorem Doc.parse_letter {c : Char} (hc : Numeral.isLetter c = true) (fuel : Nat) (s : List Symbol) :
    (∃ rest, Numeral.skim (some c :: s) = .ok rest ∧
      parse (fuel + 1) (some c :: s) = (.number (Numeral.read (some c :: s)), some rest)) ∨
    ∃ e e', parse (fuel + 1) (some c :: s) = stop e e' := by
  have hskip : skipGap (some c :: s) = some c :: s := skipGap_cons (isGap_of_isLetter hc) s
  by_cases hstart : some c = some '-' ∨ (Numeral.digit? (some c)).isSome = true
  · rw [parse_numeral hstart hskip, numeral]
    cases hskim : Numeral.skim (some c :: s) with
    | ok rest => exact .inl ⟨rest, rfl, rfl⟩
    | error e => cases Numeral.read (some c :: s) <;> exact .inr ⟨_, _, rfl⟩
  · refine .inr ⟨.expectedValue, .expectedValue, ?_⟩
    simp only [Numeral.isSome_digit?, Option.some.injEq, not_or, Bool.not_eq_true] at hstart
    simp only [Numeral.isLetter, Bool.or_eq_true, beq_iff_eq, hstart.1, hstart.2] at hc
    rw [parse, hskip]
    rcases hc with ((((hc | hc) | rfl) | rfl) | rfl) | rfl
    · exact absurd hc (by decide)
    · exact absurd hc id
    all_goals rfl

/-- A numeral that is read alone, as a document, is read anywhere. -/
theorem Number.legible_of_decode {n : Number} (hletters : ∀ c ∈ n.chars, Numeral.isLetter c = true)
    (h : (Document.ofSymbols (n.chars.map some)).decode Decoder.json = .ok (.num n)) : n.Legible := by
  obtain ⟨hroot, htrailing⟩ := Document.decode_eq_ok.mp h
  cases hchars : n.chars with
  | nil => rw [hchars] at hroot; cases hroot
  | cons c cs =>
      have hc : Numeral.isLetter c = true := hletters c (by simp [hchars])
      rw [hchars, List.map_cons, Document.ofSymbols] at hroot htrailing
      rcases Doc.parse_letter hc (3 * (some c :: cs.map some).length + 2) (cs.map some) with
        ⟨rest, hskim, hparse⟩ | ⟨e, e', hparse⟩
      · rw [hparse] at hroot htrailing
        rw [← List.map_cons, ← hchars] at hroot hskim
        have hread : Numeral.read (n.chars.map some) = .ok n := by
          cases hread : Numeral.read (n.chars.map some) with
          | error e => rw [hread] at hroot; cases hroot
          | ok n' => rw [hread] at hroot; cases hroot; rfl
        -- What skimming leaves is an end of the numeral, so it would be no gap, and a gap is all that may follow.
        have hrest : rest = [] := by
          obtain ⟨t, ht⟩ := Numeral.skim_suffix hskim
          obtain ⟨ds, es, hcs, -, rfl⟩ := List.map_eq_append_iff.mp ht.symm
          have hgap := skipGap_letters fun c hc => hletters c (hcs ▸ List.mem_append_right ds hc)
          change (!(skipGap (es.map some)).isEmpty) = false at htrailing
          rw [hgap] at htrailing
          simpa using htrailing
        exact ⟨hletters, hread, hrest ▸ hskim⟩
      · rw [hparse] at hroot
        cases hroot

def ReadsBack (x : Float) : Prop := decodeText Decoder.json (Decimal.json.float x) = .ok (.float x)

theorem Number.legible_float {x : Float} (hnan : x.isNaN = false) (hinf : x.isInf = false)
    (h : ReadsBack x) : (Number.float x).Legible :=
  legible_of_decode (Decimal.lettered_float hnan hinf) h

theorem ReadsBack.finite {x : Float} (h : ReadsBack x) : x.isNaN = false ∧ x.isInf = false := by
  have hnull : Decimal.json.float x ≠ "null" := by
    intro hnull
    rw [ReadsBack, hnull] at h
    cases h
  cases hnan : x.isNaN with
  | true =>
      refine absurd ?_ hnull
      rw [Decimal.Layout.float, if_pos hnan]
      rfl
  | false =>
      cases hinf : x.isInf with
      | false => exact ⟨rfl, rfl⟩
      | true =>
          refine absurd ?_ hnull
          simp only [Decimal.Layout.float, hnan, hinf, if_true, Bool.false_eq_true, if_false]
          rfl

example : ReadsBack 0.5 := rfl

abbrev Lasting (j : Json) : Prop :=
  j.All fun
    | .int _ => True
    | .float x => ReadsBack x

theorem Lasting.legible {j : Json} (hj : j.Lasting) (hfits : j.All Number.Fits) : j.Legible := by
  refine (hj.and hfits).imp ?_
  rintro (i | x) ⟨hx, hi⟩
  · exact Number.legible_int hi
  · exact Number.legible_float hx.finite.1 hx.finite.2 hx

end Json

end Pipeworks
