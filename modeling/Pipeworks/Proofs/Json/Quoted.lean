import Pipeworks.Json.Parser
import Pipeworks.Json.Printer
import Mathlib.Tactic.Common

/-!
Texts in quotes. Every character is written so that both readers take it for itself, so a text is read back from what
is written of it, whatever follows the closing quote.
-/

namespace Pipeworks.Json

open Text (Symbol)

namespace Quoted

variable {r : List Symbol}

theorem hexVal?_hexDigit : ∀ d < 16, hexVal? (some (hexDigit d)) = some d := by
  decide

theorem hex4_control {n : Nat} (hn : n < 32) (r : List Symbol) :
    hex4 (some '0' :: some '0' :: some (hexDigit (n / 16)) :: some (hexDigit (n % 16)) :: r) = .ok n := by
  have hzero : hexVal? (some '0') = some 0 := by decide
  have hhigh := hexVal?_hexDigit (n / 16) (by omega)
  have hlow := hexVal?_hexDigit (n % 16) (by omega)
  have hsum : (0 * 16 + 0) * 16 + n / 16 = n / 16 := by omega
  have hvalue : n / 16 * 16 + n % 16 = n := by omega
  simp only [hex4, List.take_succ_cons, List.take_zero, List.mapM_cons, List.mapM_nil, hzero, hhigh, hlow]
  change Except.ok (((0 * 16 + 0) * 16 + n / 16) * 16 + n % 16) = _
  rw [hsum, hvalue]

theorem unescape_control {c : Char} (hc : c.toNat < 32) (r : List Symbol) :
    unescape (some 'u' :: some '0' :: some '0' :: some (hexDigit (c.toNat / 16)) ::
      some (hexDigit (c.toNat % 16)) :: r) = .ok (c, 5) := by
  have hlow : ¬(0xDC00 ≤ c.toNat ∧ c.toNat ≤ 0xDFFF) := by omega
  have hplain : c.toNat < 0xD800 ∨ 0xDBFF < c.toNat := by omega
  simp only [unescape, hex4_control hc]
  simp [bind, Except.bind, hlow, hplain, pure, Except.pure]

theorem read_plain (acc : List Char) (stray : Bool) {c : Char} (hquote : c ≠ '"') (hslash : c ≠ '\\')
    (hc : 32 ≤ c.toNat) (r : List Symbol) : read acc stray (some c :: r) = read (c :: acc) stray r := by
  rw [read, if_neg (Nat.not_lt.mpr hc)]
  · exact hquote
  · exact hslash

theorem skim_plain {c : Char} (hquote : c ≠ '"') (hslash : c ≠ '\\') (hc : 32 ≤ c.toNat) (r : List Symbol) :
    skim (some c :: r) = skim r := by
  rw [skim, if_neg (Nat.not_lt.mpr hc)]
  · exact hquote
  · exact hslash

theorem read_escape (acc : List Char) (stray : Bool) (c : Char) (r : List Symbol) :
    read acc stray ((escape c).map some ++ r) = read (c :: acc) stray r := by
  unfold escape
  split_ifs with hquote hslash hb hf hn hr ht hcontrol
  all_goals simp only [List.map_cons, List.map_nil, List.cons_append, List.nil_append]
  · subst hquote; rw [read]; rfl
  · subst hslash; rw [read]; rfl
  · subst hb; rw [read]; rfl
  · subst hf; rw [read]; rfl
  · subst hn; rw [read]; rfl
  · subst hr; rw [read]; rfl
  · subst ht; rw [read]; rfl
  · rw [read, unescape_control hcontrol]; rfl
  · exact read_plain acc stray hquote hslash (Nat.le_of_not_lt hcontrol) r

theorem skim_escape (c : Char) (r : List Symbol) : skim ((escape c).map some ++ r) = skim r := by
  unfold escape
  split_ifs with hquote hslash hb hf hn hr ht hcontrol
  all_goals simp only [List.map_cons, List.map_nil, List.cons_append, List.nil_append]
  · rw [skim]; rfl
  · rw [skim]; rfl
  · rw [skim]; rfl
  · rw [skim]; rfl
  · rw [skim]; rfl
  · rw [skim]; rfl
  · rw [skim]; rfl
  · rw [skim, skimEscape, hex4_control hcontrol]; rfl
  · exact skim_plain hquote hslash (Nat.le_of_not_lt hcontrol) r

theorem read_escapes (acc cs : List Char) (r : List Symbol) :
    read acc false ((cs.flatMap escape).map some ++ some '"' :: r) = .ok (String.ofList (acc.reverse ++ cs), r) := by
  induction cs generalizing acc with
  | nil =>
      rw [List.append_nil, List.flatMap_nil, List.map_nil, List.nil_append, read]
      rfl
  | cons c cs ih =>
      rw [List.flatMap_cons, List.map_append, List.append_assoc, read_escape, ih]
      simp

theorem skim_escapes (cs : List Char) (r : List Symbol) :
    skim ((cs.flatMap escape).map some ++ some '"' :: r) = .ok r := by
  induction cs with
  | nil => rw [List.flatMap_nil, List.map_nil, List.nil_append, skim]
  | cons c cs ih => rw [List.flatMap_cons, List.map_append, List.append_assoc, skim_escape, ih]

end Quoted

theorem printable_escape (c : Char) : ∀ d ∈ escape c, 32 ≤ d.toNat := by
  have hhex : ∀ n < 16, 32 ≤ (hexDigit n).toNat := by decide
  have hpair : ∀ e : Char, 32 ≤ e.toNat → ∀ d ∈ ['\\', e], 32 ≤ d.toNat := fun e he => by
    simp only [List.forall_mem_cons]
    exact ⟨by decide, he, by simp⟩
  unfold escape
  split_ifs with hquote hslash hb hf hn hr ht hcontrol
  · exact hpair '"' (by decide)
  · exact hpair '\\' (by decide)
  · exact hpair 'b' (by decide)
  · exact hpair 'f' (by decide)
  · exact hpair 'n' (by decide)
  · exact hpair 'r' (by decide)
  · exact hpair 't' (by decide)
  · have hhigh := hhex (c.toNat / 16) (by omega)
    have hlow := hhex (c.toNat % 16) (by omega)
    simp only [List.forall_mem_cons]
    exact ⟨by decide, by decide, by decide, by decide, hhigh, hlow, by simp⟩
  · simpa using hcontrol

theorem printable_quoted (s : String) : ∀ c ∈ quoted s, 32 ≤ c.toNat := by
  simp only [quoted, List.forall_mem_cons, List.forall_mem_append, List.forall_mem_flatMap]
  exact ⟨by decide, fun c _ => printable_escape c, by decide, by simp⟩

theorem quoted_eq_cons (s : String) : quoted s = '"' :: (s.toList.flatMap escape ++ ['"']) := rfl

theorem Doc.quoted_escapes (s : String) (r : List Symbol) :
    Doc.quoted ((s.toList.flatMap escape).map some ++ some '"' :: r) = .ok (.ok s, r) := by
  rw [Doc.quoted, Quoted.read_escapes, Quoted.skim_escapes]
  simp [Except.map]

end Pipeworks.Json
