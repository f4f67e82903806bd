import Pipeworks.Duration
import Pipeworks.Proofs.Json.Typed
import Pipeworks.Proofs.Text.Blank
import Pipeworks.Proofs.Text.Unsigned

/-!
Durations and their texts. Whatever is read is a whole number of milliseconds, and it is written as such. Below the
bound of 64 bits it is read from the text that is written of it; from there on the text is refused, because the writer
has more room for the milliseconds than the reader.
-/

namespace Pipeworks

namespace Duration

theorem millis_ofMillis (n : Nat) : (ofMillis n).millis = n := Nat.mul_div_cancel n (by decide)

theorem toList_text (n : Nat) : (ofMillis n).text.toList = Nat.toDigits 10 n ++ ['m', 's'] := by
  rw [text, millis_ofMillis, String.toList_append, Nat.toString_eq_repr, Nat.toList_repr]
  rfl

/-- The text of a number of milliseconds is read as that number, if the reader has room for it. -/
theorem parse_text_eq (n : Nat) : parse (ofMillis n).text =
    match Text.readUnsigned Text.bound64 (Nat.toDigits 10 n) with
    | .ok n => .ok (ofMillis n)
    | .error e => .error (.invalidNumber e) := by
  have htrim : Text.trim (Nat.toDigits 10 n ++ ['m', 's']) = Nat.toDigits 10 n ++ ['m', 's'] := by
    cases hds : Nat.toDigits 10 n with
    | nil => exact absurd hds Nat.toDigits_ne_nil
    | cons d ds =>
        have hd : d.isDigit = true := Text.isDigit_of_mem_toDigits (by rw [hds]; simp)
        have := Text.trim_of_not_blank (Text.isBlank_of_isDigit hd) (d := 's') (by decide) (ds ++ ['m'])
        simpa using this
  rw [parse, toList_text, htrim, units, parseWith]
  have hunit : "ms".toList = ['m', 's'] := rfl
  cases hread : Text.readUnsigned Text.bound64 (Nat.toDigits 10 n) <;>
    simp only [hunit, Text.dropEnding?_append, hread, Nat.mul_one]

theorem parse_text {n : Nat} (hn : n < Text.bound64) : parse (ofMillis n).text = .ok (ofMillis n) := by
  rw [parse_text_eq, Text.readUnsigned_toDigits hn]

theorem parse_text_of_le {n : Nat} (hn : Text.bound64 ≤ n) :
    parse (ofMillis n).text = .error (.invalidNumber .tooLarge) := by
  rw [parse_text_eq, Text.readUnsigned_toDigits_of_le (by decide) hn]

theorem restores {n m : Nat} (hn : n < Text.bound64) : decoder.Restores m (ofMillis n).json (ofMillis n) := by
  refine .kept ⟨trivial, Nat.zero_le m, fun p _ => ?_⟩
  simp only [json, Json.Doc.ofJson, parse_text hn]
  rfl

/-! ### What is read -/

theorem parseWith_eq_ofMillis {units : List (String × Nat)} {cs : List Char} {d : Duration}
    (h : parseWith units cs = .ok d) : ∃ n, d = ofMillis n := by
  induction units with
  | nil => cases h
  | cons unit rest ih =>
      rw [parseWith] at h
      split at h
      · exact ih h
      · split at h
        · exact ⟨_, (Except.ok.inj h).symm⟩
        · cases h

/-- A duration that was read, be it from a text or from a document, where a number counts seconds. -/
def IsRead (d : Duration) : Prop :=
  (∃ s, parse s = .ok d) ∨ ∃ p x, decoder p x = .ok d

theorem IsRead.eq_ofMillis {d : Duration} (h : d.IsRead) : ∃ n, d = ofMillis n := by
  obtain ⟨s, hs⟩ | ⟨p, x, hx⟩ := h
  · exact parseWith_eq_ofMillis hs
  · obtain ⟨_, -, hx⟩ := Json.bind_eq_ok.mp hx
    dsimp only at hx
    split at hx
    · split_ifs at hx
      exact ⟨_, (Except.ok.inj hx).symm⟩
    · rename_i s _
      cases hs : parse s with
      | error e =>
          rw [hs] at hx
          cases hx
      | ok d' =>
          rw [hs] at hx
          obtain rfl := Except.ok.inj hx
          exact parseWith_eq_ofMillis hs
    · cases hx

/-! ### What is read again -/

theorem decoder_json (d : Duration) (p : Json.Place) :
    decoder p (Json.Doc.ofJson d.json) = (parse d.text).mapError fun e => .refused e.message := by
  have hkeep : (Json.Doc.ofJson d.json).keep p = .ok () := by
    obtain ⟨origin, depth⟩ := p
    cases origin <;> rfl
  rw [decoder, Json.Decoder.kept, hkeep]
  simp only [json, Json.Doc.ofJson, bind, Except.bind]

theorem decodeText_json (d : Duration) :
    Json.decodeText decoder d.json.compact = (parse d.text).mapError fun e => .refused e.message := by
  rw [Json.decodeText, Json.Document.ofText_compact (j := d.json) trivial, Json.Document.decode]
  rw [← decoder_json d (.top .text)]
  change (decoder (.top .text) (Json.Doc.ofJson d.json) >>= fun a => Except.ok a) = _
  cases decoder (.top .text) (Json.Doc.ofJson d.json) <;> rfl

/-- Whatever a duration was read from, it is read again from the text that is written of it exactly when its
milliseconds are below the bound of 64 bits; otherwise the text is refused, by itself and wherever it stands in a
document. -/
theorem IsRead.read_again {d : Duration} (h : d.IsRead) :
    (parse d.text = if d.millis < Text.bound64 then .ok d else .error (.invalidNumber .tooLarge)) ∧
      (∀ p, decoder p (Json.Doc.ofJson d.json) = if d.millis < Text.bound64 then .ok d else
        .error (.refused "invalid duration: number too large to fit in target type")) ∧
      Json.decodeText decoder d.json.compact = if d.millis < Text.bound64 then .ok d else
        .error (.refused "invalid duration: number too large to fit in target type") := by
  obtain ⟨n, rfl⟩ := h.eq_ofMillis
  rw [decodeText_json, millis_ofMillis]
  simp only [decoder_json]
  split_ifs with hn
  · rw [parse_text hn]
    exact ⟨rfl, fun _ => rfl, rfl⟩
  · rw [parse_text_of_le (Nat.not_lt.mp hn)]
    exact ⟨rfl, fun _ => rfl, rfl⟩

/-- Five minutes are read again. -/
theorem five_minutes_read_again : parse "5m" = .ok (ofSecs 300) ∧ (ofSecs 300).text = "300000ms" ∧
    parse (ofSecs 300).text = .ok (ofSecs 300) ∧
      Json.decodeText decoder (ofSecs 300).json.compact = .ok (ofSecs 300) := by
  have hread : parse "5m" = .ok (ofSecs 300) := by decide +kernel
  have hbound : (ofSecs 300).millis < Text.bound64 := by decide
  obtain ⟨hparse, -, hdecode⟩ := IsRead.read_again (.inl ⟨"5m", hread⟩)
  rw [if_pos hbound] at hparse hdecode
  exact ⟨hread, by decide +kernel, hparse, hdecode⟩

/-- The most seconds that a document may tell are not read again, and from a text already so many that their
milliseconds just pass the bound. -/
theorem not_read_again :
    (¬∀ (s : String) (d : Duration), Json.decodeText decoder s = .ok d →
        Json.decodeText decoder d.json.compact = .ok d) ∧
      ¬∀ (s : String) (d : Duration), parse s = .ok d → parse d.text = .ok d := by
  refine ⟨fun h => ?_, fun h => ?_⟩
  · have hread : Json.decodeText decoder (Json.nat 18446744073709551615).compact =
        .ok (ofSecs 18446744073709551615) := by
      rw [Json.decodeText, Json.Document.ofText_compact (Json.Decoder.legible_nat (by decide))]
      rfl
    have hrefused : parse (ofSecs 18446744073709551615).text = .error (.invalidNumber .tooLarge) :=
      parse_text_of_le (by decide)
    have hagain := h _ _ hread
    rw [decodeText_json, hrefused] at hagain
    cases hagain
  · have hread : parse "18446744073709552s" = .ok (ofSecs 18446744073709552) := by decide +kernel
    have hrefused : parse (ofSecs 18446744073709552).text = .error (.invalidNumber .tooLarge) :=
      parse_text_of_le (by decide)
    have hagain := h _ _ hread
    rw [hrefused] at hagain
    cases hagain

end Duration

end Pipeworks
