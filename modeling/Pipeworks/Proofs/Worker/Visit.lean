import Pipeworks.Proofs.Worker.Agenda
import Mathlib.Data.List.Nodup

/-!
Visits to the brokers. For each publication that is taken up some calls are made, and the clients that they may use are
those that the calls before them have opened. So no broker is connected to twice.
-/

namespace Pipeworks

open Link (Exchange Transcript)

variable {σ κ : Type}

structure Visit (κ : Type) where
  wanted : Publication
  calls : Transcript κ

def Visit.allCalls (visits : List (Visit κ)) : Transcript κ := visits.flatMap (·.calls)

def Visit.opened (visits : List (Visit κ)) : List (String × κ) :=
  (Visit.allCalls visits).filterMap Exchange.opened?

/-- The calls that are made for a publication when some bridges are open. What is for the broker of the cluster itself
goes through the client of the cluster. What is for another broker goes through the bridge to it, and only if there is
none that broker is connected to. -/
inductive Visit.Made (own : String) (home : κ) (bridges : List (String × κ)) : Visit κ → Prop where
  | near {channel : Channel} {payload : ByteArray} (answer : Except Error Unit) : channel.broker = own →
      Made own home bridges ⟨(channel, payload), [.publish home channel.topic (.ofPayload payload) answer]⟩
  | again {channel : Channel} {payload : ByteArray} {client : κ} (answer : Except Error Unit) : channel.broker ≠ own →
      (channel.broker, client) ∈ bridges →
      Made own home bridges ⟨(channel, payload), [.publish client channel.topic (.ofPayload payload) answer]⟩
  | first {channel : Channel} {payload : ByteArray} (client : κ) (answer : Except Error Unit) : channel.broker ≠ own →
      channel.broker ∉ bridges.map (·.1) →
      Made own home bridges ⟨(channel, payload),
        [.connect channel.broker (.ok client), .publish client channel.topic (.ofPayload payload) answer]⟩
  | refused {channel : Channel} {payload : ByteArray} (e : Error) : channel.broker ≠ own →
      channel.broker ∉ bridges.map (·.1) →
      Made own home bridges ⟨(channel, payload), [.connect channel.broker (.error e)]⟩

def Visit.Granted (v : Visit κ) : Prop := ∀ call ∈ v.calls, call.Granted

/-- Visits one after another: each is made with the bridges that were open at first and those that were opened since,
and there is only another one when all calls were granted. -/
def Visit.InTurn (own : String) (home : κ) (bridges : List (String × κ)) (visits : List (Visit κ)) : Prop :=
  ∀ before v after, visits = before ++ v :: after →
    v.Made own home (bridges ++ opened before) ∧ ∀ u ∈ before, u.Granted

namespace Visit

variable {own : String} {home : κ} {bridges : List (String × κ)} {visits visits' : List (Visit κ)} {v : Visit κ}

theorem allCalls_append (visits visits' : List (Visit κ)) :
    allCalls (visits ++ visits') = allCalls visits ++ allCalls visits' :=
  List.flatMap_append

theorem opened_append (visits visits' : List (Visit κ)) :
    opened (visits ++ visits') = opened visits ++ opened visits' := by
  rw [opened, allCalls_append, List.filterMap_append, opened, opened]

theorem InTurn.nil : InTurn own home bridges ([] : List (Visit κ)) := by
  intro before v after hsplit
  exact absurd hsplit.symm (by simp)

theorem InTurn.single (h : v.Made own home bridges) : InTurn own home bridges [v] := by
  intro before u after hsplit
  obtain ⟨rfl, hlast⟩ | ⟨rest, rfl, hrest⟩ := List.cons_eq_append_iff.mp hsplit
  · obtain ⟨rfl, -⟩ := List.cons.inj hlast
    refine ⟨?_, by simp⟩
    rw [show opened ([] : List (Visit κ)) = [] from rfl, List.append_nil]
    exact h
  · exact absurd hrest (by simp)

theorem InTurn.append (h : InTurn own home bridges visits) (hgranted : ∀ v ∈ visits, v.Granted)
    (h' : InTurn own home (bridges ++ opened visits) visits') : InTurn own home bridges (visits ++ visits') := by
  intro before v after hsplit
  -- the visit is among the later ones, or it is the first of these, or it is among the earlier ones
  obtain ⟨others, rfl, hothers⟩ | ⟨others, rfl, hothers⟩ := List.append_eq_append_iff.mp hsplit
  · obtain ⟨hmade, hbefore⟩ := h' others v after hothers
    rw [opened_append, ← List.append_assoc]
    exact ⟨hmade, List.forall_mem_append.mpr ⟨hgranted, hbefore⟩⟩
  · cases others with
    | nil =>
        obtain ⟨hmade, -⟩ := h' [] v after (by simpa using hothers.symm)
        rw [List.append_nil] at hmade hgranted
        rw [show opened ([] : List (Visit κ)) = [] from rfl, List.append_nil] at hmade
        exact ⟨hmade, hgranted⟩
    | cons u others =>
        obtain ⟨rfl, -⟩ := List.cons.inj hothers
        exact h before v others rfl

theorem InTurn.made_of_mem (h : InTurn own home bridges visits) (hv : v ∈ visits) :
    ∃ bridges', v.Made own home bridges' := by
  obtain ⟨before, after, hsplit⟩ := List.append_of_mem hv
  exact ⟨_, (h before v after hsplit).1⟩

/-- The brokers that a visit connects to: none, or the one of the publication, if no bridge leads there. -/
theorem Made.brokers (h : v.Made own home bridges) :
    v.calls.filterMap Exchange.broker? = [] ∨ v.calls.filterMap Exchange.broker? = [v.wanted.1.broker] ∧
      v.wanted.1.broker ≠ own ∧ v.wanted.1.broker ∉ bridges.map (·.1) := by
  cases h with
  | near answer _ => exact .inl rfl
  | again answer _ _ => exact .inl rfl
  | first client answer hfar hnew => exact .inr ⟨rfl, hfar, hnew⟩
  | refused e hfar hnew => exact .inr ⟨rfl, hfar, hnew⟩

/-- The broker of the cluster itself is not connected to. -/
theorem Made.far (h : v.Made own home bridges) {broker : String} {answer : Except Error κ}
    (hcall : .connect broker answer ∈ v.calls) : broker ≠ own := by
  have hmem : broker ∈ v.calls.filterMap Exchange.broker? := List.mem_filterMap.mpr ⟨_, hcall, rfl⟩
  obtain hnone | ⟨hone, hfar, -⟩ := h.brokers
  · rw [hnone] at hmem
    cases hmem
  · rw [hone] at hmem
    exact List.mem_singleton.mp hmem ▸ hfar

theorem Made.bridged (h : v.Made own home bridges) (hgranted : v.Granted) (hfar : v.wanted.1.broker ≠ own) :
    v.wanted.1.broker ∈ (bridges ++ opened [v]).map (·.1) := by
  cases h with
  | near answer hnear => exact absurd hnear hfar
  | again answer _ hmem =>
      rw [List.map_append]
      exact List.mem_append_left _ (List.mem_map_of_mem hmem)
  | first client answer _ _ => simp [opened, allCalls, Exchange.opened?]
  | refused e _ _ => cases hgranted _ List.mem_cons_self

theorem map_opened (h : ∀ v ∈ visits, v.Granted) :
    (opened visits).map (·.1) = (allCalls visits).filterMap Exchange.broker? := by
  rw [opened, List.map_filterMap]
  refine List.filterMap_congr fun call hcall => ?_
  obtain ⟨v, hv, hcall⟩ := List.mem_flatMap.mp hcall
  exact Exchange.map_opened?_eq_broker? (h v hv call hcall)

/-- No broker is connected to twice, and the one of the cluster itself not at all. -/
theorem InTurn.nodup_brokers (h : InTurn own home [] visits) :
    (own :: (allCalls visits).filterMap Exchange.broker?).Nodup := by
  induction visits using List.reverseRecOn with
  | nil => simp [allCalls]
  | append_singleton visits v ih =>
      have hearlier : InTurn own home [] visits := by
        intro before u after hsplit
        exact h before u (after ++ [v]) (by rw [hsplit, List.append_assoc, List.cons_append])
      obtain ⟨hmade, hgranted⟩ := h visits v [] rfl
      rw [allCalls_append, List.filterMap_append, show allCalls [v] = v.calls from List.append_nil _]
      obtain hnone | ⟨hone, hfar, hnew⟩ := hmade.brokers
      · rw [hnone, List.append_nil]
        exact ih hearlier
      -- all connections before this one were granted, so each has left a bridge, and there is none to this broker
      · rw [List.nil_append, map_opened hgranted] at hnew
        rw [hone, ← List.cons_append]
        refine List.nodup_append.mpr ⟨ih hearlier, List.nodup_singleton _, ?_⟩
        rintro broker hbroker _ hlast rfl
        obtain rfl := List.mem_singleton.mp hlast
        obtain heq | hbefore := List.mem_cons.mp hbroker
        · exact hfar heq
        · exact hnew hbefore

end Visit

structure Account.Visits (own : String) (home : κ) (bridges : List (String × κ)) (visits : List (Visit κ))
    (account : Account κ) : Prop where
  calls : account.calls = Visit.allCalls visits
  opened : account.bridges = Visit.opened visits
  inTurn : Visit.InTurn own home bridges visits

namespace Account.Visits

variable {own : String} {home : κ} {bridges : List (String × κ)} {visits visits' : List (Visit κ)}
  {account account' : Account κ}

theorem nil (hcalls : account.calls = []) (hbridges : account.bridges = []) :
    account.Visits own home bridges [] :=
  ⟨hcalls, hbridges, .nil⟩

theorem append (h : account.Visits own home bridges visits) (hgranted : ∀ v ∈ visits, v.Granted)
    (h' : account'.Visits own home (bridges ++ account.bridges) visits') :
    (account ++ account').Visits own home bridges (visits ++ visits') := by
  refine ⟨?_, ?_, h.inTurn.append hgranted (h.opened ▸ h'.inTurn)⟩
  · rw [Account.calls_append, h.calls, h'.calls, Visit.allCalls_append]
  · rw [Account.bridges_append, h.opened, h'.opened, Visit.opened_append]

end Account.Visits

end Pipeworks
