import Pipeworks.Control.Basic
import Pipeworks.Proofs.Broker.Codec
import Pipeworks.Proofs.Control.Stream
import Pipeworks.Proofs.Json.Double
import Pipeworks.Proofs.Json.Typed

/-!
Events on their way from a worker to an observer. An event is read from its text, and what was read of any text is read
again from the text that is written of it, whatever names and fields the first text had: they only differ in what is
left out or called otherwise. Doubles within the data are the exception; a reader may miss the double that was printed.
-/

namespace Pipeworks

open Json (Decoder Number)
open Json.Decoder (Signed64 restores_count restores_int64 restores_json restores_string restores_variant)
open Json.Record (Fills need)

theorem Category.ofName_name (c : Category) : ofName c.name = c := by
  cases c <;> rfl

/-- The name of every category is read as that category, also that of the unknown one. -/
theorem Category.restores {n : Nat} (c : Category) : Category.decoder.Restores n c.json c :=
  restores_variant (by rw [ofName_name])

namespace Event

/-- Numbers of 64 bits, data whose keys ascend, and no more containers within each other than a reader can follow. -/
structure Proper (e : Event) : Prop where
  run : Signed64 e.run
  segment : ∀ n ∈ e.segment, n < 18446744073709551616
  fits : e.data.All Number.Fits
  canonical : e.data.Canonical
  shallow : e.json.depth ≤ 127

variable {e : Event}

theorem depth_json_le : e.json.depth ≤ 127 ↔ e.data.depth ≤ 126 := by
  rw [json, Json.depth_obj_le]
  cases e.segment <;> cases e.topic <;> simp [Json.present, Json.depth, Category.json, Json.nat]

/-! ### What is written is read -/

theorem Proper.restores (h : e.Proper) (hlasting : e.data.Lasting) : decoder.Restores 127 e.json e := by
  have hdata := restores_json (hlasting.legible h.fits) h.canonical (depth_json_le.mp h.shallow)
  refine Fills.restores {}
    ⟨some e.run, e.segment.map some, some e.category, some e.kind, e.topic.map some, some e.data⟩ rfl ?_ ?_
  · refine .given (restores_int64 h.run) (fun _ _ => by simp only [format]; rfl) ?_
    refine .optional (fun n hn => restores_count (h.segment n hn)) (by simp [Json.nat])
      (fun _ _ => by simp only [format]; rfl) (by rfl) ?_
    refine .given e.category.restores (fun _ _ => by simp only [format]; rfl) ?_
    refine .given (restores_string e.kind) (fun _ _ => by simp only [format]; rfl) ?_
    refine .optional (fun topic _ => restores_string topic) (by simp) (fun _ _ => by simp only [format]; rfl)
      (by rfl) ?_
    refine .given hdata (fun _ _ => by simp only [format]; rfl) ?_
    exact .done _
  · simp [format, need, pure, Except.pure, bind, Except.bind]

theorem Proper.decode_text (h : e.Proper) (hlasting : e.data.Lasting) : Json.decodeText decoder e.text = .ok e :=
  (h.restores hlasting).decodeText_compact

/-! ### What is read is proper -/

structure Draft.Proper (d : Draft) : Prop where
  run : ∀ i ∈ d.run, Signed64 i
  segment : ∀ o ∈ d.segment, ∀ n ∈ o, n < 18446744073709551616
  data : ∀ j ∈ d.data, j.Free 126

theorem Draft.Proper.read {key : String} {x : Json.Doc} {d d' : Draft} (hfits : x.Fits) (hd : d.Proper)
    (h : format.read key ⟨.text, 127⟩ x d = some (.ok d')) : d'.Proper := by
  have hrun : Json.Record.once "run_id" d.run Decoder.int64 ⟨.text, 127⟩ x (fun v => { d with run := v }) =
      some (.ok d') → d'.Proper := by
    intro h
    obtain ⟨i, hi, rfl⟩ := Json.Record.once_eq_ok h
    exact ⟨fun _ h => Option.some.inj h ▸ Json.Decoder.int64_eq_ok hi, hd.segment, hd.data⟩
  simp only [format] at h
  split at h
  · exact hrun h
  · exact hrun h
  · obtain ⟨o, ho, rfl⟩ := Json.Record.once_eq_ok h
    refine ⟨hd.run, fun _ h n hn => ?_, hd.data⟩
    obtain rfl := Option.some.inj h
    exact Json.Decoder.count_eq_ok (Json.Decoder.option_eq_ok ho n hn)
  · obtain ⟨_, -, rfl⟩ := Json.Record.once_eq_ok h
    exact ⟨hd.run, hd.segment, hd.data⟩
  · obtain ⟨_, -, rfl⟩ := Json.Record.once_eq_ok h
    exact ⟨hd.run, hd.segment, hd.data⟩
  · obtain ⟨_, -, rfl⟩ := Json.Record.once_eq_ok h
    exact ⟨hd.run, hd.segment, hd.data⟩
  · obtain ⟨j, hj, rfl⟩ := Json.Record.once_eq_ok h
    exact ⟨hd.run, hd.segment, fun _ h => Option.some.inj h ▸ Json.Decoder.json_eq_ok hfits hj⟩
  · cases h

theorem proper_of_decoder {x : Json.Doc} (hfits : x.Fits) (h : decoder (.top .text) x = .ok e) : e.Proper := by
  have hblank : Draft.Proper {} := by constructor <;> simp
  obtain ⟨d, hd, hfinish⟩ := Json.Record.decoder_keeps (I := Draft.Proper) rfl hblank
    (fun _ _ _ _ hfits hd h => hd.read hfits h) hfits h
  obtain ⟨run, hrun, hfinish⟩ := Json.bind_eq_ok.mp hfinish
  obtain ⟨category, -, hfinish⟩ := Json.bind_eq_ok.mp hfinish
  obtain ⟨kind, -, hfinish⟩ := Json.bind_eq_ok.mp hfinish
  obtain rfl := Except.ok.inj hfinish
  have hdata : (d.data.getD .null).Free 126 := by
    cases hj : d.data with
    | none => exact ⟨trivial, trivial, Nat.zero_le _⟩
    | some j => exact hd.data j hj
  refine ⟨?_, fun n hn => ?_, hdata.fits, hdata.canonical, depth_json_le.mpr hdata.shallow⟩
  · cases hi : d.run with
    | none =>
        rw [hi] at hrun
        cases hrun
    | some i =>
        rw [hi] at hrun
        exact Except.ok.inj hrun ▸ hd.run i hi
  · exact hd.segment _ (Option.join_eq_some_iff.mp hn) n rfl

theorem proper_of_decodeText {s : String} (h : Json.decodeText decoder s = .ok e) : e.Proper :=
  proper_of_decoder (Json.Document.fits_ofSymbols _) (Json.Document.decode_eq_ok.mp h).1

end Event

/-! ### On the way -/

open Event (proper_of_decoder proper_of_decodeText)

theorem Control.proper_of_readEvent {r : Request} {e : Event} (h : readEvent r = .ok e) : e.Proper := by
  rw [readEvent] at h
  split at h
  · split at h
    · rename_i e' hread
      obtain rfl := Except.ok.inj h
      exact proper_of_decoder (Json.Document.fits_ofSymbols _) hread
    · cases h
    · cases h
  · cases h

/-- An event of a known category is the next one that is sent. -/
theorem Bus.getElem?_ingest {e : Event} (b : Bus) (h : e.category ≠ .unknown) :
    (b.ingest e).2.broadcast.sent[b.broadcast.sent.size]? = some e := by
  rw [ingest]
  cases hcategory : e.category with
  | unknown => exact absurd hcategory h
  | stream => exact Array.getElem?_push_size
  | lifecycle =>
      dsimp only
      split_ifs
      · change ((b.broadcast.sent.push e).push _)[_]? = _
        rw [Array.getElem?_push, if_neg (by simp), Array.getElem?_push_size]
      · exact Array.getElem?_push_size

/-- What is sent over a connection at a place is the text of the event at that place. -/
theorem Connection.Follows.text_eq {b : Broadcast} {since i : Nat} {c : Connection} {e : Event} {text : String}
    (h : c.Follows b since) (htext : (c.frames ++ c.underway)[i]? = some text) (he : b.sent[since + i]? = some e) :
    text = e.text := by
  obtain ⟨hi, htext⟩ := List.getElem?_eq_some_iff.mp htext
  have hsent := List.prefix_iff_getElem?.mp h.texts i hi
  rw [List.getElem?_map, List.getElem?_drop, Array.getElem?_toList, he, htext] at hsent
  exact (Option.some.inj hsent).symm

namespace Event

/-- An event without doubles is read from its text. Whatever text an event was read of, if its doubles read back from
what is printed of them, the text that is written of the event is read as that event. So an event that a worker hands in
is the next one that is sent, and an observer reads that same event from what it is sent for it. -/
theorem survives_the_wire :
    (∀ e : Event, e.Proper → e.data.Whole → Json.decodeText decoder e.text = .ok e) ∧
    (∀ (s : String) (e : Event), Json.decodeText decoder s = .ok e → e.data.Lasting →
      Json.decodeText decoder e.text = .ok e) ∧
    ∀ (r : Request) (b : Bus) (e : Event), Control.readEvent r = .ok e → e.category ≠ .unknown → e.data.Lasting →
      (b.ingest e).2.broadcast.sent[b.broadcast.sent.size]? = some e ∧
        ∀ (later : Broadcast) (since i : Nat) (c : Connection) (text : String), c.Follows later since →
          later.sent[since + i]? = some e → (c.frames ++ c.underway)[i]? = some text →
          Json.decodeText decoder text = .ok e := by
  refine ⟨fun e he hwhole => ?_, fun s e hread => (proper_of_decodeText hread).decode_text, ?_⟩
  · exact he.decode_text (hwhole.imp fun n hn => by cases n <;> trivial)
  · intro r b e hread hknown hlasting
    refine ⟨b.getElem?_ingest hknown, fun later since i c text hc he htext => ?_⟩
    rw [hc.text_eq htext he]
    exact (Control.proper_of_readEvent hread).decode_text hlasting

/-- A report of a category that nobody knows, of a run that is called by the other name of the field. -/
def foreign : Json :=
  .obj [("type", .str "cpu"), ("pipeline_id", .int 7), ("category", .str "telemetry"), ("topic", .str "x")]

/-- It is read, and its event is read again from a text that calls run and category otherwise and leaves nothing out. -/
theorem foreign_survives_the_wire :
    let e : Event := ⟨7, none, .unknown, "cpu", some "x", .null⟩
    Json.decodeText decoder foreign.compact = .ok e ∧
      e.text = "\x7b\"run_id\":7,\"category\":\"unknown\",\"type\":\"cpu\",\"topic\":\"x\",\"data\":null\x7d" ∧
      Json.decodeText decoder e.text = .ok e := by
  intro e
  have hlegible : foreign.Legible := ⟨trivial, Json.Number.legible_int (i := 7) rfl, trivial, trivial, trivial⟩
  have hread : Json.decodeText decoder foreign.compact = .ok e := by
    rw [Json.decodeText, Json.Document.ofText_compact hlegible]
    rfl
  exact ⟨hread, by decide +kernel, survives_the_wire.2.1 _ e hread trivial⟩

def dataBits? : Except Json.DecodeError Event → Option UInt64
  | .ok ⟨_, _, _, _, _, .num (.float x)⟩ => some x.toBits
  | _ => none

def fine : String :=
  "\x7b\"run_id\":1,\"category\":\"stream\",\"type\":\"output\",\"data\":0.99622830388368595\x7d"

/-- Of that number a double is read of which another text is printed, and of this text the double before it is read. -/
theorem not_survives_the_wire :
    ¬∀ (s : String) (e : Event), Json.decodeText decoder s = .ok e → Json.decodeText decoder e.text = .ok e := by
  intro h
  have hdiffer : dataBits? (Json.decodeText decoder fine >>= fun e => Json.decodeText decoder e.text) ≠
      dataBits? (Json.decodeText decoder fine) := by decide +kernel
  cases hread : Json.decodeText decoder fine with
  | error e =>
      rw [hread] at hdiffer
      exact hdiffer rfl
  | ok e =>
      rw [hread] at hdiffer
      simp only [bind, Except.bind, h fine e hread] at hdiffer
      exact hdiffer rfl

end Event

end Pipeworks
