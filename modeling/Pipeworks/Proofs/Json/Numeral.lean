import Pipeworks.Json.Numeral
import Pipeworks.Json.Printer
import Pipeworks.Proofs.Text.Unsigned

/-!
Numbers and their texts. What follows a numeral does not disturb its readers as long as it cannot be taken for more of
it (`Ended`), so a number whose text is read back alone is read back within any text (`Number.Legible`). The integers
of 64 bits are such numbers.
-/

namespace Pipeworks.Json

open Text (Symbol)

namespace Numeral

def isLetter (c : Char) : Bool :=
  c.isDigit || c == '-' || c == '+' || c == '.' || c == 'e' || c == 'E'

theorem printable_of_isLetter {c : Char} (h : isLetter c = true) : 32 ≤ c.toNat := by
  simp only [isLetter, Bool.or_eq_true, beq_iff_eq] at h
  rcases h with ((((h | rfl) | rfl) | rfl) | rfl) | rfl
  · have hlow : '0'.toNat ≤ c.toNat := by simp [Char.isDigit] at h; exact h.1
    exact Nat.le_trans (by decide) hlow
  all_goals decide

def Ended : List Symbol → Prop
  | some c :: _ => isLetter c = false
  | _ => True

@[simp] theorem ended_nil : Ended [] := trivial

@[simp] theorem ended_cons {c : Char} {s : List Symbol} : Ended (some c :: s) ↔ isLetter c = false := Iff.rfl

variable {r s : List Symbol}

theorem isSome_digit? (c : Char) : (digit? (some c)).isSome = c.isDigit := by
  simp only [digit?]
  split <;> simp_all

theorem Ended.head (h : Ended r) {x : Symbol} (hx : r.head? = some x) : digit? x = none := by
  match r, x with
  | some c :: _, _ =>
      cases hx
      simp only [ended_cons, isLetter, Bool.or_eq_false_iff] at h
      rw [← Option.not_isSome_iff_eq_none, isSome_digit?, h.1.1.1.1.1]
      simp
  | none :: _, _ =>
      cases hx
      rfl

theorem Ended.head_ne {x : Symbol} (h : Ended (x :: r)) {c : Char} (hc : isLetter c = true) : x ≠ some c := by
  rintro rfl
  exact absurd (hc.symm.trans h) (by decide)

theorem Ended.startsWithDigit (h : Ended r) : startsWithDigit r = false := by
  cases r with
  | nil => rfl
  | cons x r => simp [Numeral.startsWithDigit, h.head rfl]

theorem Ended.dropDigits (h : Ended r) : dropDigits r = r := by
  cases r with
  | nil => rfl
  | cons x r => simp [Numeral.dropDigits, h.head rfl]

theorem startsWithDigit_append (h : Ended r) (s : List Symbol) : startsWithDigit (s ++ r) = startsWithDigit s := by
  cases s with
  | nil => exact h.startsWithDigit
  | cons x s => rfl

theorem dropDigits_append (h : Ended r) (s : List Symbol) : dropDigits (s ++ r) = dropDigits s ++ r := by
  induction s with
  | nil => exact h.dropDigits
  | cons x s ih =>
      simp only [dropDigits, List.cons_append, List.dropWhile_cons] at ih ⊢
      split
      · exact ih
      · rfl

/-! ### What a reader does at its next symbol -/

theorem skimExponentOrEnd_cons (x : Symbol) (s : List Symbol) :
    skimExponentOrEnd (x :: s) = if x = some 'e' ∨ x = some 'E' then skimExponent s else .ok (x :: s) := by
  rw [skimExponentOrEnd.eq_def]
  split <;> simp_all

theorem skimAfterInteger_cons (x : Symbol) (s : List Symbol) :
    skimAfterInteger (x :: s) =
      if x = some '.' then
        if startsWithDigit s then skimExponentOrEnd (dropDigits s) else .error .invalidNumber
      else skimExponentOrEnd (x :: s) := by
  rw [skimAfterInteger.eq_def]
  split <;> simp_all

theorem skimUnsigned_cons (x : Symbol) (s : List Symbol) :
    skimUnsigned (x :: s) =
      if x = some '0' then
        if startsWithDigit s then .error .invalidNumber else skimAfterInteger s
      else if startsWithDigit (x :: s) then skimAfterInteger (dropDigits (x :: s)) else .error .invalidNumber := by
  rw [skimUnsigned.eq_def]
  split <;> simp_all

theorem skim_cons (x : Symbol) (s : List Symbol) :
    skim (x :: s) = if x = some '-' then skimUnsigned s else skimUnsigned (x :: s) := by
  rw [skim.eq_def]
  split <;> simp_all

def signed (s : List Symbol) : Bool × List Symbol :=
  match s with
  | some '+' :: r => (true, r)
  | some '-' :: r => (false, r)
  | r => (true, r)

theorem signed_cons (x : Symbol) (s : List Symbol) :
    signed (x :: s) = if x = some '+' then (true, s) else if x = some '-' then (false, s) else (true, x :: s) := by
  rw [signed.eq_def]
  split <;> simp_all

theorem skimExponent_eq (s : List Symbol) :
    skimExponent s =
      if startsWithDigit (signed s).2 then .ok (dropDigits (signed s).2) else .error .invalidNumber := by
  cases s with
  | nil => rfl
  | cons x s =>
      rw [signed_cons, skimExponent.eq_def]
      split <;> simp_all

theorem exponent_eq (positive : Bool) (m : Nat) (e : Int) (s : List Symbol) :
    exponent positive m e s =
      match (signed s).2 with
      | [] => .error .eofValue
      | x :: _ =>
        if (digit? x).isNone then .error .invalidNumber
        else
          let n := digitsValue 0 (signed s).2
          if 2147483647 < n then
            if m ≠ 0 ∧ (signed s).1 then .error .numberOutOfRange
            else .ok (.float (if positive then 0.0 else -0.0))
          else scaled positive m (if (signed s).1 then e + n else e - n) := rfl

theorem exponentOrEnd_cons (positive : Bool) (m : Nat) (e : Int) (x : Symbol) (s : List Symbol) :
    exponentOrEnd positive m e (x :: s) =
      if x = some 'e' ∨ x = some 'E' then exponent positive m e s else scaled positive m e := by
  rw [exponentOrEnd.eq_def]
  split <;> simp_all

theorem afterInteger_cons (positive : Bool) (m more : Nat) (x : Symbol) (s : List Symbol) :
    afterInteger positive m more (x :: s) =
      if x = some '.' then fraction positive m more s
      else if x = some 'e' ∨ x = some 'E' then exponent positive m more s
      else afterInteger positive m more [] := by
  rw [afterInteger.eq_def]
  split <;> simp_all [afterInteger]

theorem read_cons (x : Symbol) (s : List Symbol) :
    read (x :: s) = if x = some '-' then unsigned false s else unsigned true (x :: s) := by
  rw [read.eq_def]
  split <;> simp_all

/-! ### What follows a numeral -/

theorem signed_append (h : Ended r) (s : List Symbol) : signed (s ++ r) = ((signed s).1, (signed s).2 ++ r) := by
  cases s with
  | nil =>
      cases r with
      | nil => rfl
      | cons x r =>
          rw [List.nil_append, signed_cons, if_neg (h.head_ne rfl), if_neg (h.head_ne rfl)]
          rfl
  | cons x s =>
      rw [List.cons_append, signed_cons, signed_cons]
      split_ifs <;> rfl

theorem skimExponent_append (h : Ended r) (s : List Symbol) :
    skimExponent (s ++ r) = (skimExponent s).map (· ++ r) := by
  rw [skimExponent_eq, skimExponent_eq, signed_append h, startsWithDigit_append h, dropDigits_append h]
  split_ifs <;> rfl

theorem skimExponentOrEnd_append (h : Ended r) (s : List Symbol) :
    skimExponentOrEnd (s ++ r) = (skimExponentOrEnd s).map (· ++ r) := by
  cases s with
  | nil =>
      cases r with
      | nil => rfl
      | cons x r =>
          rw [List.nil_append, skimExponentOrEnd_cons, if_neg (not_or.mpr ⟨h.head_ne rfl, h.head_ne rfl⟩)]
          rfl
  | cons x s =>
      rw [List.cons_append, skimExponentOrEnd_cons, skimExponentOrEnd_cons, skimExponent_append h]
      split_ifs <;> rfl

theorem skimAfterInteger_append (h : Ended r) (s : List Symbol) :
    skimAfterInteger (s ++ r) = (skimAfterInteger s).map (· ++ r) := by
  cases s with
  | nil =>
      cases r with
      | nil => rfl
      | cons x r =>
          rw [List.nil_append, skimAfterInteger_cons, if_neg (h.head_ne rfl)]
          exact skimExponentOrEnd_append h []
  | cons x s =>
      rw [List.cons_append, skimAfterInteger_cons, skimAfterInteger_cons, startsWithDigit_append h,
        dropDigits_append h, skimExponentOrEnd_append h, ← List.cons_append, skimExponentOrEnd_append h]
      split_ifs <;> rfl

theorem skimUnsigned_append (h : Ended r) (s : List Symbol) :
    skimUnsigned (s ++ r) = (skimUnsigned s).map (· ++ r) := by
  cases s with
  | nil =>
      cases r with
      | nil => rfl
      | cons x r =>
          rw [List.nil_append, skimUnsigned_cons, if_neg (h.head_ne rfl), h.startsWithDigit]
          rfl
  | cons x s =>
      rw [List.cons_append, skimUnsigned_cons, skimUnsigned_cons, ← List.cons_append, startsWithDigit_append h,
        startsWithDigit_append h, dropDigits_append h, skimAfterInteger_append h, skimAfterInteger_append h]
      split_ifs <;> rfl

theorem skim_append (h : Ended r) (s : List Symbol) : skim (s ++ r) = (skim s).map (· ++ r) := by
  cases s with
  | nil =>
      cases r with
      | nil => rfl
      | cons x r =>
          rw [List.nil_append, skim_cons, if_neg (h.head_ne rfl)]
          exact skimUnsigned_append h []
  | cons x s =>
      rw [List.cons_append, skim_cons, skim_cons, ← List.cons_append, skimUnsigned_append h, skimUnsigned_append h]
      split_ifs <;> rfl

theorem digitsValue_append (h : Ended r) (acc : Nat) (s : List Symbol) :
    digitsValue acc (s ++ r) = digitsValue acc s := by
  induction s generalizing acc with
  | nil =>
      cases r with
      | nil => rfl
      | cons x r =>
          simp [digitsValue, h.head rfl]
  | cons x s ih =>
      rw [List.cons_append, digitsValue, digitsValue]
      split
      · rfl
      · exact ih _

theorem significand_append (h : Ended r) (acc taken : Nat) (s : List Symbol) :
    significand acc taken (s ++ r) =
      ((significand acc taken s).1, (significand acc taken s).2.1, (significand acc taken s).2.2.1,
        (significand acc taken s).2.2.2 ++ r) := by
  induction s generalizing acc taken with
  | nil =>
      cases r with
      | nil => rfl
      | cons x r =>
          simp [significand, h.head rfl]
  | cons x s ih =>
      rw [List.cons_append, significand, significand]
      split
      · rfl
      · split_ifs
        · exact ih _ _
        · rw [dropDigits_append h]
          simp only [List.length_cons, List.length_append, Prod.mk.injEq, true_and, and_true]
          omega

theorem exponent_append (h : Ended r) {positive : Bool} {m : Nat} {e : Int} {n : Number}
    (hn : exponent positive m e s = .ok n) : exponent positive m e (s ++ r) = .ok n := by
  rw [exponent_eq] at hn ⊢
  rw [signed_append h, digitsValue_append h]
  cases hs : (signed s).2 with
  | nil => simp [hs] at hn
  | cons x t =>
      rw [hs] at hn
      exact hn

theorem exponentOrEnd_append (h : Ended r) {positive : Bool} {m : Nat} {e : Int} {n : Number}
    (hn : exponentOrEnd positive m e s = .ok n) : exponentOrEnd positive m e (s ++ r) = .ok n := by
  cases s with
  | nil =>
      cases r with
      | nil => exact hn
      | cons x r =>
          rw [List.nil_append, exponentOrEnd_cons, if_neg (not_or.mpr ⟨h.head_ne rfl, h.head_ne rfl⟩)]
          exact hn
  | cons x s =>
      rw [exponentOrEnd_cons] at hn
      rw [List.cons_append, exponentOrEnd_cons]
      split_ifs at hn ⊢
      · exact exponent_append h hn
      · exact hn

theorem fraction_append (h : Ended r) {positive : Bool} {m : Nat} {e : Int} {n : Number}
    (hn : fraction positive m e s = .ok n) : fraction positive m e (s ++ r) = .ok n := by
  cases s with
  | nil => simp [fraction] at hn
  | cons x s =>
      simp only [fraction, List.cons_append] at hn ⊢
      split_ifs at hn ⊢
      rw [← List.cons_append, significand_append h]
      exact exponentOrEnd_append h hn

theorem afterInteger_append (h : Ended r) {positive : Bool} {m more : Nat} {n : Number}
    (hn : afterInteger positive m more s = .ok n) : afterInteger positive m more (s ++ r) = .ok n := by
  cases s with
  | nil =>
      cases r with
      | nil => exact hn
      | cons x r =>
          rw [List.nil_append, afterInteger_cons, if_neg (h.head_ne rfl),
            if_neg (not_or.mpr ⟨h.head_ne rfl, h.head_ne rfl⟩)]
          exact hn
  | cons x s =>
      rw [afterInteger_cons] at hn
      rw [List.cons_append, afterInteger_cons]
      split_ifs at hn ⊢
      · exact fraction_append h hn
      · exact exponent_append h hn
      · exact hn

theorem unsigned_append (h : Ended r) {positive : Bool} {n : Number} (hn : unsigned positive s = .ok n) :
    unsigned positive (s ++ r) = .ok n := by
  cases s with
  | nil => simp [unsigned] at hn
  | cons x s =>
      rw [unsigned] at hn
      rw [List.cons_append, unsigned]
      split at hn
      · simp at hn
      · rw [startsWithDigit_append h]
        split_ifs at hn ⊢
        exact afterInteger_append h hn
      · rw [significand_append h]
        exact afterInteger_append h hn

/-- A numeral that is read alone is read in front of anything that ends it. -/
theorem read_append (h : Ended r) {n : Number} (hn : read s = .ok n) : read (s ++ r) = .ok n := by
  cases s with
  | nil => simp [read, unsigned] at hn
  | cons x s =>
      rw [read_cons] at hn
      rw [List.cons_append, read_cons]
      split_ifs at hn ⊢
      · exact unsigned_append h hn
      · exact unsigned_append h hn

/-- What is read as a numeral begins like one. -/
theorem head_of_read {n : Number} (hn : read s = .ok n) :
    ∃ x t, s = x :: t ∧ (x = some '-' ∨ (digit? x).isSome) := by
  cases s with
  | nil => simp [read, unsigned] at hn
  | cons x t =>
      refine ⟨x, t, rfl, ?_⟩
      rw [read_cons] at hn
      split_ifs at hn with hx
      · exact .inl hx
      · rw [unsigned] at hn
        split at hn <;> simp_all

/-! ### The digits of a number -/

variable {n : Nat} {cs : List Char}

theorem digit?_of_isDigit {c : Char} (h : c.isDigit = true) : digit? (some c) = some (c.toNat - '0'.toNat) := by
  simp [digit?, h]

theorem significand_digits (hcs : ∀ c ∈ cs, c.isDigit = true) {acc : Nat} (taken : Nat)
    (hacc : Nat.ofDigitChars 10 cs acc < limit) :
    significand acc taken (cs.map some) = (Nat.ofDigitChars 10 cs acc, taken + cs.length, 0, []) := by
  induction cs generalizing acc taken with
  | nil => rfl
  | cons c cs ih =>
      rw [Nat.ofDigitChars_cons, Nat.mul_comm] at hacc ⊢
      have hle := Text.le_ofDigitChars cs (acc * 10 + (c.toNat - '0'.toNat))
      simp only [List.map_cons, significand, digit?_of_isDigit (hcs c (by simp))]
      rw [if_pos (Nat.lt_of_le_of_lt hle hacc), ih (fun c hc => hcs c (by simp [hc])) _ hacc, List.length_cons]
      congr 2
      omega

theorem dropDigits_digits (hcs : ∀ c ∈ cs, c.isDigit = true) : dropDigits (cs.map some) = [] := by
  induction cs with
  | nil => rfl
  | cons c cs ih =>
      rw [dropDigits, List.map_cons, List.dropWhile_cons_of_pos (by simp [isSome_digit?, hcs c])]
      exact ih fun c hc => hcs c (by simp [hc])

theorem unsigned_toDigits (positive : Bool) (hn : n < limit) :
    unsigned positive ((Nat.toDigits 10 n).map some) = afterInteger positive n 0 [] := by
  by_cases hzero : n = 0
  · subst hzero
    rfl
  · have hdigits : ∀ c ∈ Nat.toDigits 10 n, c.isDigit = true := fun c => Text.isDigit_of_mem_toDigits
    have hvalue : Nat.ofDigitChars 10 (Nat.toDigits 10 n) 0 = n := Nat.ofDigitChars_ten_toDigits
    cases hcs : Nat.toDigits 10 n with
    | nil => exact absurd hcs Nat.toDigits_ne_nil
    | cons c cs =>
        rw [hcs] at hdigits hvalue
        have hc : c.isDigit = true := hdigits c (by simp)
        have hlead : c.toNat - '0'.toNat ≠ 0 := by
          intro h
          refine Text.toDigits_head_ne_zero hcs hzero (Char.ext (UInt32.toNat_inj.mp ?_))
          have hge : '0'.toNat ≤ c.toNat := by simp [Char.isDigit] at hc; exact hc.1
          exact Nat.le_antisymm (Nat.sub_eq_zero_iff_le.mp h) hge
        rw [Nat.ofDigitChars_cons, Nat.mul_zero, Nat.zero_add] at hvalue
        rw [List.map_cons, unsigned, digit?_of_isDigit hc]
        split
        · simp_all
        · rename_i h; exact absurd (Option.some.inj h) hlead
        · rename_i d _ h
          cases h
          rw [significand_digits (fun c hc => hdigits c (by simp [hc])) 1 (hvalue ▸ hn), hvalue]

theorem skimUnsigned_toDigits (n : Nat) : skimUnsigned ((Nat.toDigits 10 n).map some) = .ok [] := by
  by_cases hzero : n = 0
  · subst hzero
    rfl
  · have hdigits : ∀ c ∈ Nat.toDigits 10 n, c.isDigit = true := fun c => Text.isDigit_of_mem_toDigits
    cases hcs : Nat.toDigits 10 n with
    | nil => exact absurd hcs Nat.toDigits_ne_nil
    | cons c cs =>
        have hlead : some c ≠ some '0' := fun h => Text.toDigits_head_ne_zero hcs hzero (Option.some.inj h)
        rw [hcs] at hdigits
        have hstart : startsWithDigit (some c :: cs.map some) = true := by
          rw [startsWithDigit, isSome_digit?, hdigits c (by simp)]
        have hdrop := dropDigits_digits hdigits
        rw [List.map_cons] at hdrop ⊢
        rw [skimUnsigned_cons, if_neg hlead, if_pos hstart, hdrop]
        rfl

end Numeral

/-- The text of a number is a numeral that both readers take to its end, and the strict one finds the number in it. -/
structure Number.Legible (n : Number) : Prop where
  letters : ∀ c ∈ n.chars, Numeral.isLetter c = true
  read : Numeral.read (n.chars.map some) = .ok n
  skim : Numeral.skim (n.chars.map some) = .ok []

namespace Number

theorem chars_int (i : Int) :
    (Number.int i).chars = if 0 ≤ i then Nat.toDigits 10 i.toNat else '-' :: Nat.toDigits 10 (-i).toNat := by
  rw [chars, Int.toString_eq_repr, Int.repr_eq_if]
  split_ifs
  · exact Nat.toList_repr
  · simp

theorem isLetter_of_isDigit {c : Char} (h : c.isDigit = true) : Numeral.isLetter c = true := by
  simp [Numeral.isLetter, h]

theorem isLetter_of_mem_toDigits {n : Nat} {c : Char} (h : c ∈ Nat.toDigits 10 n) : Numeral.isLetter c = true :=
  isLetter_of_isDigit (Text.isDigit_of_mem_toDigits h)

theorem toDigits_ne_dash {n : Nat} {cs : List Char} : Nat.toDigits 10 n ≠ '-' :: cs := fun h =>
  absurd (Text.isDigit_of_mem_toDigits (n := n) (c := '-') (by simp [h])) (by decide)

theorem chars_int_inj {i i' : Int} (h : (Number.int i).chars = (Number.int i').chars) : i = i' := by
  have hvalue : ∀ {m n : Nat}, Nat.toDigits 10 m = Nat.toDigits 10 n → m = n := fun {m n} heq => by
    rw [← Nat.ofDigitChars_ten_toDigits (n := m), heq, Nat.ofDigitChars_ten_toDigits]
  rw [chars_int, chars_int] at h
  split_ifs at h with hi hi' hi'
  · have := hvalue h
    omega
  · exact absurd h toDigits_ne_dash
  · exact absurd h.symm toDigits_ne_dash
  · have := hvalue (List.cons.inj h).2
    omega

theorem legible_int {i : Int} (h : fitsInteger i = true) : (Number.int i).Legible := by
  simp only [fitsInteger, Bool.and_eq_true, decide_eq_true_eq] at h
  by_cases hi : 0 ≤ i
  · have hlimit : i.toNat < Numeral.limit := by simp only [Numeral.limit]; omega
    have hchars : (Number.int i).chars = Nat.toDigits 10 i.toNat := by rw [chars_int, if_pos hi]
    have hplain : ∀ c cs, Nat.toDigits 10 i.toNat = c :: cs → some c ≠ some '-' := by
      rintro c cs hcs ⟨⟩
      exact toDigits_ne_dash hcs
    have hread := Numeral.unsigned_toDigits true hlimit
    have hskim := Numeral.skimUnsigned_toDigits i.toNat
    refine ⟨by rw [hchars]; exact fun c => isLetter_of_mem_toDigits, ?_, ?_⟩
    all_goals
      rw [hchars]
      cases hcs : Nat.toDigits 10 i.toNat with
      | nil => exact absurd hcs Nat.toDigits_ne_nil
      | cons c cs => ?_
      rw [hcs] at hread hskim
    · rw [List.map_cons, Numeral.read_cons, if_neg (hplain c cs hcs), ← List.map_cons, hread]
      simp [Numeral.afterInteger, Int.toNat_of_nonneg hi]
    · rw [List.map_cons, Numeral.skim_cons, if_neg (hplain c cs hcs), ← List.map_cons, hskim]
  · have hlimit : (-i).toNat < Numeral.limit := by simp only [Numeral.limit]; omega
    have hchars : (Number.int i).chars = '-' :: Nat.toDigits 10 (-i).toNat := by rw [chars_int, if_neg hi]
    refine ⟨?_, ?_, ?_⟩
    · rw [hchars]
      rintro c (_ | ⟨_, hc⟩)
      · decide
      · exact isLetter_of_mem_toDigits hc
    · rw [hchars, List.map_cons, Numeral.read_cons, if_pos rfl, Numeral.unsigned_toDigits false hlimit]
      have hrange : 1 ≤ (-i).toNat ∧ (-i).toNat ≤ 9223372036854775808 := by omega
      have hvalue : -((-i).toNat : Int) = i := by omega
      simp only [Numeral.afterInteger, ne_eq, not_true_eq_false, if_false, Bool.false_eq_true, if_pos hrange, hvalue]
    · rw [hchars, List.map_cons, Numeral.skim_cons, if_pos rfl, Numeral.skimUnsigned_toDigits]

end Number

end Pipeworks.Json
