import Pipeworks.Worker.Spec
import Pipeworks.Proofs.Duration
import Pipeworks.Proofs.Graph.Format
import Pipeworks.Proofs.Json.Double

/-!
The description of a worker on its way into the process. The text that is written of a description has no character
that an environment could not hold, and the description is read back from it, be its role a cluster or a producer.
-/

namespace Pipeworks

open Json (Ascending Decoder Doc Place)
open Json.Decoder (Signed64 restores_bool restores_count restores_float restores_int64 restores_string
  restores_word64)
open Json.Record (Fills need once)

variable {n : Nat}

structure Cluster.Proper (c : Cluster) : Prop where
  index : c.index < Text.bound64
  inputs : ∀ e ∈ c.inputs, e.Proper
  flows : ∀ f ∈ c.flows, f.Proper
  transformations : ∀ t ∈ c.transformations, t.Proper
  outputs : ∀ e ∈ c.outputs, e.Proper

theorem Cluster.Proper.restores {c : Cluster} (h : c.Proper) : decoder.Restores (n + 4) c.json c := by
  refine Fills.restores_all {} ⟨some c.index, some c.broker, some c.group, some c.inputs, some c.flows,
    some c.transformations, some c.outputs⟩ rfl ?_ ?_
  · refine .given (restores_count h.index) (fun _ _ => by simp only [format]; rfl) ?_
    refine .given (restores_string c.broker) (fun _ _ => by simp only [format]; rfl) ?_
    refine .given (restores_string c.group) (fun _ _ => by simp only [format]; rfl) ?_
    refine .given (.list fun e he => (h.inputs e he).restores _) (fun _ _ => by simp only [format]; rfl) ?_
    refine .given (.list fun f hf => (h.flows f hf).restores) (fun _ _ => by simp only [format]; rfl) ?_
    refine .given (.list fun t ht => (h.transformations t ht).restores) (fun _ _ => by simp only [format]; rfl) ?_
    refine .given (.list fun e he => (h.outputs e he).restores _) (fun _ _ => by simp only [format]; rfl) ?_
    exact .done _
  · simp [format, need, pure, Except.pure, bind, Except.bind]

/-- The counts of the producer fit their types, and its frequency is finite and reads back from its text. -/
structure ProducerSpec.Proper (p : ProducerSpec) : Prop where
  channels : p.channels < Text.bound64
  maxRecords : ∀ m ∈ p.maxRecords, m < Text.bound64
  finite : p.frequency.isNaN = false ∧ p.frequency.isInf = false
  readsBack : Json.ReadsBack p.frequency

theorem ProducerSpec.Proper.restores {p : ProducerSpec} (h : p.Proper) :
    format.decoder.Restores (n + 1) p.json p := by
  have hjson : Json.ofFloat p.frequency = .float p.frequency := by
    rw [Json.ofFloat, h.finite.1, h.finite.2]
    rfl
  have hfloat := Json.Number.legible_float h.finite.1 h.finite.2 h.readsBack
  rw [json, hjson]
  refine Fills.restores {}
    ⟨some p.broker, some p.topic, some p.channels, some p.frequency, p.maxRecords.map some⟩ rfl ?_ ?_
  · refine .given (restores_string p.broker) (fun _ _ => by simp only [format]; rfl) ?_
    refine .given (restores_string p.topic) (fun _ _ => by simp only [format]; rfl) ?_
    refine .given (restores_count h.channels) (fun _ _ => by simp only [format]; rfl) ?_
    refine .given (restores_float hfloat) (fun _ _ => by simp only [format]; rfl) ?_
    refine .optional (fun m hm => restores_word64 (h.maxRecords m hm)) (by simp)
      (fun _ _ => by simp only [format]; rfl) (by rfl) ?_
    exact .done _
  · simp [format, need, pure, Except.pure, bind, Except.bind]

def Role.Proper : Role → Prop
  | .cluster c => c.Proper
  | .producer p => p.Proper

namespace WorkerSpec

structure Proper (s : WorkerSpec) : Prop where
  pipeline : Signed64 s.pipeline
  segment : s.segment < Text.bound64
  role : s.role.Proper
  budget : ∃ n < Text.bound64, s.budget = .ofMillis n
  queueCapacity : s.queueCapacity < Text.bound64

/-! ### The role -/

theorem writable_roleFields {r : Role} (h : r.Proper) : ∀ f ∈ roleFields r, f.2.Legible ∧ f.2.depth ≤ n + 4 := by
  cases r with
  | cluster c =>
      have hc := Cluster.Proper.restores (n := n) h
      simp only [roleFields, List.forall_mem_cons]
      exact ⟨(restores_string "cluster").writable, hc.writable, by simp⟩
  | producer p =>
      have hp := ProducerSpec.Proper.restores (n := n + 3) h
      simp only [roleFields, List.forall_mem_cons]
      exact ⟨(restores_string "producer").writable, hp.writable, by simp⟩

def roleMembers (r : Role) : List (String × Doc) := (roleFields r).map fun f => (f.1, Doc.ofJson f.2)

theorem readRole_roleMembers {r : Role} (h : r.Proper) : readRole (roleMembers r) = .ok r := by
  cases r with
  | cluster c =>
      have hc := (Cluster.Proper.restores (n := 0) h).content
      simp only [roleMembers, roleFields, List.map_cons, List.map_nil, readRole, single, Doc.ofJson, roleTag]
      simp [bind, Except.bind, pure, Except.pure, hc]
  | producer p =>
      have hp := (ProducerSpec.Proper.restores (n := 0) h).content
      simp only [roleMembers, roleFields, List.map_cons, List.map_nil, readRole, single, Doc.ofJson, roleTag]
      simp [bind, Except.bind, pure, Except.pure, hp]

/-! ### The fields -/

section Fields

variable {α : Type} {p : Place} {draft : Draft} {k : String} {d : Decoder α} {j : Json} {a : α}

theorem readFields_given {set : Option α → Draft} (hd : d.Restores n j a) (hp : p.Room n)
    (hread : ∀ x, readField k p x draft = once k none d p x set) (others : List (String × Doc))
    (rest : List (Except Json.SyntaxError String × Doc)) :
    readFields p draft others ((.ok k, Doc.ofJson j) :: rest) = readFields p (set (some a)) others rest := by
  rw [readFields]
  simp only [Except.mapError, bind, Except.bind, hread, once, hd.reads p hp]
  rfl

/-- Fields of other names are kept, the last of them in front. -/
theorem readFields_kept (hp : p.Room n) {fields : List (String × Json)}
    (hfields : ∀ f ∈ fields, f.2.depth ≤ n ∧ ∀ x, readField f.1 p x draft = none) (others : List (String × Doc))
    (rest : List (Except Json.SyntaxError String × Doc)) :
    readFields p draft others (Doc.ofFields fields ++ rest) =
      readFields p draft ((fields.map fun f => (f.1, Doc.ofJson f.2)).reverse ++ others) rest := by
  induction fields generalizing others with
  | nil => rfl
  | cons f fields ih =>
      obtain ⟨hshallow, hread⟩ := hfields f (by simp)
      rw [Doc.ofFields, List.cons_append, readFields]
      simp only [Except.mapError, bind, Except.bind, hread, Doc.keep_ofJson hp hshallow]
      rw [ih (fun f hf => hfields f (by simp [hf])), List.map_cons, List.reverse_cons, List.append_assoc,
        List.singleton_append]

/-- The names of the fields of a role are those of no other field. -/
theorem readField_roleFields (r : Role) : ∀ f ∈ roleFields r, ∀ x, readField f.1 p x draft = none := by
  cases r <;> simp [roleFields, readField]

end Fields

def fieldsBefore (s : WorkerSpec) : List (String × Json) :=
  [("pipeline_id", .int s.pipeline), ("segment_index", Json.nat s.segment)]

def fieldsAfter (s : WorkerSpec) : List (String × Json) :=
  [("event_endpoint", Json.ofOption .str s.endpoint), ("emit_stream_events", .bool s.streamEvents),
    ("step_budget", s.budget.json), ("event_queue_capacity", Json.nat s.queueCapacity)]

theorem json_eq (s : WorkerSpec) : s.json = .obj (s.fieldsBefore ++ roleFields s.role ++ s.fieldsAfter) := rfl

variable {s : WorkerSpec}

theorem Proper.restores_budget (h : s.Proper) : Duration.decoder.Restores n s.budget.json s.budget := by
  obtain ⟨m, hm, hbudget⟩ := h.budget
  rw [hbudget]
  exact Duration.restores hm

theorem restores_endpoint (s : WorkerSpec) :
    (Decoder.option Decoder.string).Restores n (Json.ofOption .str s.endpoint) s.endpoint :=
  Decoder.restores_ofOption (fun e _ => restores_string e) (by simp)

theorem Proper.writable_fields (h : s.Proper) :
    ∀ f ∈ s.fieldsBefore ++ roleFields s.role ++ s.fieldsAfter, f.2.Legible ∧ f.2.depth ≤ n + 4 := by
  simp only [fieldsBefore, fieldsAfter, List.forall_mem_append, List.forall_mem_cons]
  refine ⟨⟨⟨?_, ?_, by simp⟩, writable_roleFields h.role⟩, ?_, ?_, ?_, ?_, by simp⟩
  · exact (restores_int64 h.pipeline).writable
  · exact (restores_count h.segment).writable
  · exact (restores_endpoint s).writable
  · exact (restores_bool s.streamEvents).writable
  · exact h.restores_budget.writable
  · exact (restores_count h.queueCapacity).writable

/-- All fields together fill the draft and leave the role. -/
theorem Proper.readFields (h : s.Proper) {p : Place} (hp : p.Room (n + 4)) :
    readFields p {} [] (Doc.ofFields (s.fieldsBefore ++ roleFields s.role ++ s.fieldsAfter)) =
      .ok (⟨some s.pipeline, some s.segment, some s.endpoint, some s.streamEvents, some s.budget,
        some s.queueCapacity⟩, roleMembers s.role) := by
  have hshallow := fun f hf => (writable_roleFields (n := n) h.role f hf).2
  rw [Json.ofFields_append, Json.ofFields_append, fieldsBefore, fieldsAfter]
  refine (readFields_given (restores_int64 h.pipeline) hp (fun _ => by simp only [readField]; rfl) _ _).trans ?_
  refine (readFields_given (restores_count h.segment) hp (fun _ => by simp only [readField]; rfl) _ _).trans ?_
  -- The fields of the role stand between the others; they are put aside until the end.
  refine (readFields_kept hp (fun f hf => ⟨hshallow f hf, readField_roleFields s.role f hf⟩) _ _).trans ?_
  refine (readFields_given (restores_endpoint s) hp (fun _ => by simp only [readField]; rfl) _ _).trans ?_
  refine (readFields_given (restores_bool s.streamEvents) hp (fun _ => by simp only [readField]; rfl) _ _).trans ?_
  refine (readFields_given h.restores_budget hp (fun _ => by simp only [readField]; rfl) _ _).trans ?_
  refine (readFields_given (restores_count h.queueCapacity) hp (fun _ => by simp only [readField]; rfl) _ _).trans ?_
  simp only [Doc.ofFields, WorkerSpec.readFields, List.append_nil, List.reverse_reverse]
  rfl

theorem Proper.restores (h : s.Proper) : decoder.Restores (n + 5) s.json s where
  legible := Json.all_obj.mpr fun f hf => (h.writable_fields (n := n) f hf).1
  shallow := Json.depth_obj_le.mpr fun f hf => (h.writable_fields f hf).2
  reads p hp := by
    obtain ⟨q, hq, hroom⟩ := hp.enter
    rw [json_eq, Doc.ofJson, decoder]
    simp only [hq, bind, Except.bind, h.readFields hroom, Decoder.closing, need, readRole_roleMembers h.role]
    rfl

/-- A description survives the way into the process: its text is read as the description, both as a text and as the
value of the variable, and it has no character that an environment cannot hold. -/
theorem ofText_text (s : WorkerSpec) (h : s.Proper) :
    ofText s.text = .ok s ∧ '\x00' ∉ s.text.toList ∧ ofEnvironment (some s.text) = .ok s := by
  have hread : ofText s.text = .ok s := by
    rw [ofText, text, (h.restores (n := 122)).decodeText_compact]
    rfl
  exact ⟨hread, Json.nul_not_mem_compact (h.restores (n := 0)).legible, hread⟩

def sample : WorkerSpec :=
  ⟨-9223372036854775808, 0,
    .cluster ⟨0, "b", "g\x00", [⟨1, none, "in", "b", some [("v", "int")]⟩], [⟨some 5, .input 1, .transformation 2⟩],
      [⟨2, some "\"double\"", "out = x * 2\n", none, none⟩], []⟩,
    some "tcp://host", false, .ofMillis 250, 18446744073709551615⟩

theorem sample_proper : sample.Proper where
  pipeline := by decide
  segment := by decide
  role := by
    refine ⟨by decide, ?_, ?_, ?_, by simp⟩
    · intro e he
      obtain rfl := List.mem_singleton.mp he
      refine ⟨by decide, fun s hs => ?_⟩
      cases hs
      simp [Ascending]
    · intro f hf
      obtain rfl := List.mem_singleton.mp hf
      refine ⟨fun i hi => ?_, by decide, by decide⟩
      cases hi
      decide
    · intro t ht
      obtain rfl := List.mem_singleton.mp ht
      exact ⟨by decide, (fun s hs => nomatch hs), (fun s hs => nomatch hs)⟩
  budget := ⟨250, by decide, rfl⟩
  queueCapacity := by decide

theorem ofText_text_sample :
    sample.Proper ∧ ofText sample.text = .ok sample ∧ '\x00' ∉ sample.text.toList ∧
      ofEnvironment (some sample.text) = .ok sample :=
  ⟨sample_proper, ofText_text sample sample_proper⟩

end WorkerSpec

end Pipeworks
