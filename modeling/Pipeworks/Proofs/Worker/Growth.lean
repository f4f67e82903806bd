import Pipeworks.Proofs.Broker.Topics
import Pipeworks.Proofs.Worker.Judgement

/-!
The logs behind the subscriptions of a worker. A subscription reads a log from its first item on, and whatever the
worker does, whether it ends well or with an error, no log loses an item or gets another one in its place.
-/

namespace Pipeworks

variable {σ κ α : Type}

/-! ### Topics that grow -/

def Extends (log : σ → κ → String → List α) (w w' : σ) : Prop := ∀ k topic, log w k topic <+: log w' k topic

theorem Extends.rfl {log : σ → κ → String → List α} {w : σ} : Extends log w w := fun _ _ => List.prefix_rfl

theorem Extends.trans {log : σ → κ → String → List α} {w w' w'' : σ} (h : Extends log w w') (h' : Extends log w' w'') :
    Extends log w w'' :=
  fun k topic => (h k topic).trans (h' k topic)

/-- The logs behind the subscriptions of a client. A subscription gives the items of a log from the first one on, and
each is a payload or a failure. What is done through the link adds to the logs, if anything. -/
structure Link.Logs (link : Link σ κ) where
  log : σ → κ → String → List (Except Error ByteArray)
  connect (broker : String) (w : σ) : Extends log w (link.connect broker w).2
  subscribe (k : κ) (topic group : String) (w : σ) : Extends log w (link.subscribe k topic group w).2
  publish (k : κ) (topic : String) (record : Record) (w : σ) : Extends log w (link.publish k topic record w).2

namespace Hub

def journal : link.Logs where
  log h k topic := (h.records ⟨k, topic⟩).toList.map fun record => .ok record.payload
  connect _ _ := .rfl
  subscribe _ _ _ _ := .rfl
  publish k topic record h := by
    intro k' topic'
    by_cases hdown : k ∈ h.down
    · simp only [link, publish, requireUp, hdown]
      exact List.prefix_rfl
    · simp only [link, publish, requireUp, hdown]
      exact (records_produce h ⟨k, topic⟩ ⟨k', topic'⟩ record).map _

end Hub

/-- However the calls of some work are answered, the logs are at least what they were. -/
theorem Link.Logs.extends_of_leads {link : Link σ κ} (logs : link.Logs) {calls : Link.Transcript κ} {w w' : σ}
    (h : link.Leads calls w w') : Extends logs.log w w' := by
  induction calls generalizing w with
  | nil => exact h ▸ .rfl
  | cons call calls ih =>
      obtain ⟨w₁, hanswer, hrest⟩ := h
      refine Extends.trans ?_ (ih hrest)
      cases call with
      | connect broker answer =>
          have hgrown := logs.connect broker w
          rw [show link.connect broker w = _ from hanswer] at hgrown
          exact hgrown
      | subscribe client topic group answer =>
          have hgrown := logs.subscribe client topic group w
          rw [show link.subscribe client topic group w = _ from hanswer] at hgrown
          exact hgrown
      | publish client topic record answer =>
          have hgrown := logs.publish client topic record w
          rw [show link.publish client topic record w = _ from hanswer] at hgrown
          exact hgrown

end Pipeworks
