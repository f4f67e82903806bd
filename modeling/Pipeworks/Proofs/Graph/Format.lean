import Pipeworks.Graph.Format
import Pipeworks.Proofs.Json.Typed

/-!
The format of graphs. Every node, flow and graph whose numbers are of 64 bits is restored from what is written of it.
-/

namespace Pipeworks

open Json (Ascending Decoder)
open Json.Decoder (Signed64 restores_int64 restores_string restores_variant)
open Json.Record (Fills need)

variable {n : Nat}

namespace Schema

theorem restores {s : Schema} (h : Ascending s) : decoder.Restores (n + 1) s.json s :=
  Decoder.Restores.map h fun e _ => restores_string e.2

theorem json_ne_null (s : Schema) : s.json ≠ .null := fun h => nomatch h

end Schema

theorem NodeKind.restores (k : NodeKind) : NodeKind.decoder.Restores n k.json k :=
  restores_variant (by cases k <;> rfl)

structure Endpoint.Proper (e : Endpoint) : Prop where
  id : Signed64 e.id
  schema : ∀ s ∈ e.schema, Ascending s

theorem Endpoint.Proper.restores {e : Endpoint} (h : e.Proper) (structName : String) :
    (format structName).decoder.Restores (n + 2) e.json e := by
  refine Fills.restores {} ⟨some e.id, e.name.map some, some e.topic, some e.broker, e.schema.map some⟩ rfl ?_ ?_
  · refine .given (restores_int64 h.id) (fun _ _ => by simp only [format]; rfl) ?_
    refine .optional (fun name _ => restores_string name) (by simp) (fun _ _ => by simp only [format]; rfl)
      (by rfl) ?_
    refine .given (restores_string e.topic) (fun _ _ => by simp only [format]; rfl) ?_
    refine .given (restores_string e.broker) (fun _ _ => by simp only [format]; rfl) ?_
    refine .optional (fun s hs => Schema.restores (h.schema s hs)) Schema.json_ne_null
      (fun _ _ => by simp only [format]; rfl) (by rfl) ?_
    exact .done _
  · simp [format, need, pure, Except.pure, bind, Except.bind]

structure Transformation.Proper (t : Transformation) : Prop where
  id : Signed64 t.id
  schemaIn : ∀ s ∈ t.schemaIn, Ascending s
  schemaOut : ∀ s ∈ t.schemaOut, Ascending s

theorem Transformation.Proper.restores {t : Transformation} (h : t.Proper) :
    format.decoder.Restores (n + 2) t.json t := by
  refine Fills.restores {}
    ⟨some t.id, t.name.map some, some t.source, t.schemaIn.map some, t.schemaOut.map some⟩ rfl ?_ ?_
  · refine .given (restores_int64 h.id) (fun _ _ => by simp only [format]; rfl) ?_
    refine .optional (fun name _ => restores_string name) (by simp) (fun _ _ => by simp only [format]; rfl)
      (by rfl) ?_
    refine .given (restores_string t.source) (fun _ _ => by simp only [format]; rfl) ?_
    refine .optional (fun s hs => Schema.restores (h.schemaIn s hs)) Schema.json_ne_null
      (fun _ _ => by simp only [format]; rfl) (by rfl) ?_
    refine .optional (fun s hs => Schema.restores (h.schemaOut s hs)) Schema.json_ne_null
      (fun _ _ => by simp only [format]; rfl) (by rfl) ?_
    exact .done _
  · simp [format, need, pure, Except.pure, bind, Except.bind]

structure Flow.Proper (f : Flow) : Prop where
  id : ∀ i ∈ f.id, Signed64 i
  source : Signed64 f.source.id
  target : Signed64 f.target.id

theorem Flow.Proper.restores {f : Flow} (h : f.Proper) : format.decoder.Restores (n + 1) f.json f := by
  refine Fills.restores {}
    ⟨f.id.map some, some f.source.kind, some f.source.id, some f.target.kind, some f.target.id⟩ rfl ?_ ?_
  · refine .optional (fun i hi => restores_int64 (h.id i hi)) (by simp) (fun _ _ => by simp only [format]; rfl)
      (by rfl) ?_
    refine .given (NodeKind.restores f.source.kind) (fun _ _ => by simp only [format]; rfl) ?_
    refine .given (restores_int64 h.source) (fun _ _ => by simp only [format]; rfl) ?_
    refine .given (NodeKind.restores f.target.kind) (fun _ _ => by simp only [format]; rfl) ?_
    refine .given (restores_int64 h.target) (fun _ _ => by simp only [format]; rfl) ?_
    exact .done _
  · simp [format, need, pure, Except.pure, bind, Except.bind]

namespace Graph

/-- All numbers of the graph are of 64 bits, and the fields of its schemas ascend. -/
structure Proper (g : Graph) : Prop where
  pipeline : Signed64 g.pipeline
  inputs : ∀ e ∈ g.inputs, e.Proper
  outputs : ∀ e ∈ g.outputs, e.Proper
  transformations : ∀ t ∈ g.transformations, t.Proper
  flows : ∀ f ∈ g.flows, f.Proper

theorem Proper.restores {g : Graph} (h : g.Proper) : decoder.Restores (n + 4) g.json g := by
  refine Fills.restores_all {}
    ⟨some g.pipeline, some g.name, some g.inputs, some g.outputs, some g.transformations, some g.flows⟩ rfl ?_ ?_
  · refine .given (restores_int64 h.pipeline) (fun _ _ => by simp only [format]; rfl) ?_
    refine .given (restores_string g.name) (fun _ _ => by simp only [format]; rfl) ?_
    refine .given (.list fun e he => (h.inputs e he).restores _) (fun _ _ => by simp only [format]; rfl) ?_
    refine .given (.list fun e he => (h.outputs e he).restores _) (fun _ _ => by simp only [format]; rfl) ?_
    refine .given (.list fun t ht => (h.transformations t ht).restores) (fun _ _ => by simp only [format]; rfl) ?_
    refine .given (.list fun f hf => (h.flows f hf).restores) (fun _ _ => by simp only [format]; rfl) ?_
    exact .done _
  · simp [format, need, pure, Except.pure, bind, Except.bind]

end Graph

end Pipeworks
