import Pipeworks.Broker.Record
import Pipeworks.Proofs.Json.Free
import Pipeworks.Proofs.Json.Spelling

/-!
The codec of records. A value whose numbers are integers survives the way through a payload, and so does what was read
of any payload; the payload that is written for a value is written for no other.
-/

namespace Pipeworks

namespace Json

abbrev Whole (j : Json) : Prop :=
  j.All fun
    | .int _ => True
    | .float _ => False

/-- Integers of 64 bits are read from their texts, wherever they stand. -/
theorem Whole.legible {j : Json} (hj : j.Whole) (hfits : j.All Number.Fits) : j.Legible := by
  refine (hj.and hfits).imp ?_
  rintro (i | x) ⟨hint, hi⟩
  · exact Number.legible_int hi
  · exact hint.elim

end Json

namespace Record

open Json (Decoder Document Number)

variable {payload : ByteArray} {j j' : Json}

theorem decode_eq_ok : decode payload = .ok j ↔ (Document.ofBytes payload).decode Decoder.json = .ok j := by
  rw [decode, Json.decodeBytes]
  cases (Document.ofBytes payload).decode Decoder.json <;> simp [Except.mapError]

theorem decode_encode (hwhole : j.Whole) (hfree : j.Free 127) : decode (encode j) = .ok j := by
  rw [decode_eq_ok, encode, Document.ofBytes_compact (hwhole.legible hfree.fits)]
  exact Document.decode_ofJson hfree.canonical hfree.shallow

theorem encode_inj (hj : j.Whole) (hfits : j.All Number.Fits) (hj' : j'.Whole) (hfits' : j'.All Number.Fits)
    (h : encode j = encode j') : j = j' := by
  have hdoc := congrArg Document.ofBytes h
  rw [encode, encode, Document.ofBytes_compact (hj.legible hfits), Document.ofBytes_compact (hj'.legible hfits')]
    at hdoc
  exact Json.ofJson_injective (congrArg Document.root hdoc)

/-- Values without doubles and their payloads. A value that can be read freely is read from its payload; two values
with the same payload are the same; and what is read of any payload is such a value, so writing it again and reading
that changes nothing any more. -/
theorem codec_round_trips :
    (∀ j : Json, j.Whole → j.Free 127 → decode (encode j) = .ok j) ∧
    (∀ j j' : Json, j.Whole → j.All Number.Fits → j'.Whole → j'.All Number.Fits →
      encode j = encode j' → j = j') ∧
    (∀ (payload : ByteArray) (j : Json), decode payload = .ok j → j.Whole →
      j.Free 127 ∧ decode (encode j) = .ok j ∧ (decode (encode j)).map encode = .ok (encode j)) := by
  refine ⟨fun j => decode_encode, fun j j' => encode_inj, fun payload j hdecode hwhole => ?_⟩
  have hfree : j.Free 127 := Document.free_of_decode (decode_eq_ok.mp hdecode)
  have hagain := decode_encode hwhole hfree
  exact ⟨hfree, hagain, by rw [hagain, Except.map]⟩

end Record

end Pipeworks
