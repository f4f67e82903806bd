import Pipeworks.Toml.Parser
import Pipeworks.Duration
import Pipeworks.Error
import Pipeworks.Plan.Basic
import Pipeworks.Script.Step
/-!
The settings of a supervisor. They come from a document and from the options of a command; an interval between
polls is always positive and never above its upper bound.
-/
namespace Pipeworks

open Json (Decoder)
open Json.Record (once)

structure Config where
  /-- How long a broker may take to accept a connection. -/
  probeTimeout : Duration := .ofSecs 3
  pollMin : Duration := .ofSecs 1
  pollMax : Duration := .ofSecs 10
  /-- How long a process may take to end after it was asked to. -/
  gracePeriod : Duration := .ofSecs 3
  /-- How long workers go on after the producers of a completed run have ended. -/
  drainDelay : Duration := .ofSecs 5
  /-- The time that a script has for one record. -/
  stepBudget : Duration := Script.defaultBudget
  endpoint : Option String := none
  queueCapacity : Nat := 1024
  broadcastCapacity : Nat := 256
  streamEvents : Bool := true
  groupPrefix : String := Plan.defaultGroup
deriving Inhabited

namespace Config

/-- Refuses settings with which a run cannot be polled. -/
def check (c : Config) : Except Error Unit :=
  if c.pollMax < c.pollMin then
    .error (.config s!"poll_min ({c.pollMin.shown}) exceeds poll_max ({c.pollMax.shown})")
  else if c.pollMin.nanos = 0 then .error (.config "poll_min must be positive")
  else .ok ()

/-- The time between two polls of a run: a tenth of its runtime, but within the bounds. -/
def pollInterval (c : Config) : Option Duration → Duration
  | none => c.pollMax
  | some runtime =>
    let tenth : Duration := ⟨runtime.nanos / 10⟩
    if tenth < c.pollMin then c.pollMin else if c.pollMax < tenth then c.pollMax else tenth

/-! ### Documents -/

structure Draft where
  probeTimeout : Option Duration := none
  pollMin : Option Duration := none
  pollMax : Option Duration := none
  gracePeriod : Option Duration := none
  drainDelay : Option Duration := none
  stepBudget : Option Duration := none
  endpoint : Option (Option String) := none
  queueCapacity : Option Nat := none
  broadcastCapacity : Option Nat := none
  streamEvents : Option Bool := none
  groupPrefix : Option String := none

/-- Settings that are not given have their usual values. -/
def ofDraft (d : Draft) : Config :=
  let usual : Config := {}
  { probeTimeout := d.probeTimeout.getD usual.probeTimeout
    pollMin := d.pollMin.getD usual.pollMin
    pollMax := d.pollMax.getD usual.pollMax
    gracePeriod := d.gracePeriod.getD usual.gracePeriod
    drainDelay := d.drainDelay.getD usual.drainDelay
    stepBudget := d.stepBudget.getD usual.stepBudget
    endpoint := d.endpoint.getD usual.endpoint
    queueCapacity := d.queueCapacity.getD usual.queueCapacity
    broadcastCapacity := d.broadcastCapacity.getD usual.broadcastCapacity
    streamEvents := d.streamEvents.getD usual.streamEvents
    groupPrefix := d.groupPrefix.getD usual.groupPrefix }

def format : Json.Record Draft Config where
  name := "SupervisorConfig"
  fields := ["probe_timeout", "poll_min", "poll_max", "grace_period", "drain_delay", "step_budget",
    "event_endpoint", "event_queue_capacity", "broadcast_capacity", "emit_stream_events",
    "consumer_group_prefix"]
  blank := {}
  read key p x d :=
    match key with
    | "probe_timeout" =>
      once "probe_timeout" d.probeTimeout Duration.decoder p x fun v => { d with probeTimeout := v }
    | "poll_min" => once "poll_min" d.pollMin Duration.decoder p x fun v => { d with pollMin := v }
    | "poll_max" => once "poll_max" d.pollMax Duration.decoder p x fun v => { d with pollMax := v }
    | "grace_period" =>
      once "grace_period" d.gracePeriod Duration.decoder p x fun v => { d with gracePeriod := v }
    | "drain_delay" =>
      once "drain_delay" d.drainDelay Duration.decoder p x fun v => { d with drainDelay := v }
    | "step_budget" =>
      once "step_budget" d.stepBudget Duration.decoder p x fun v => { d with stepBudget := v }
    | "event_endpoint" =>
      once "event_endpoint" d.endpoint (Decoder.option Decoder.string) p x fun v => { d with endpoint := v }
    | "event_queue_capacity" =>
      once "event_queue_capacity" d.queueCapacity Decoder.count p x fun v => { d with queueCapacity := v }
    | "broadcast_capacity" =>
      once "broadcast_capacity" d.broadcastCapacity Decoder.count p x fun v =>
        { d with broadcastCapacity := v }
    | "emit_stream_events" =>
      once "emit_stream_events" d.streamEvents Decoder.bool p x fun v => { d with streamEvents := v }
    | "consumer_group_prefix" =>
      once "consumer_group_prefix" d.groupPrefix Decoder.string p x fun v => { d with groupPrefix := v }
    | _ => none
  finish d := .ok (ofDraft d)

def decoder : Decoder Config := format.decoder

def json (c : Config) : Json :=
  .obj [("probe_timeout", c.probeTimeout.json), ("poll_min", c.pollMin.json), ("poll_max", c.pollMax.json),
    ("grace_period", c.gracePeriod.json), ("drain_delay", c.drainDelay.json),
    ("step_budget", c.stepBudget.json), ("event_endpoint", Json.ofOption .str c.endpoint),
    ("event_queue_capacity", Json.nat c.queueCapacity), ("broadcast_capacity", Json.nat c.broadcastCapacity),
    ("emit_stream_events", .bool c.streamEvents), ("consumer_group_prefix", .str c.groupPrefix)]

inductive Refusal where
  | unreadable (f : Toml.Fault)
  | unusable (e : Error)

namespace Refusal

def error : Refusal → Error
  | unreadable f => .config f.message
  | unusable e => e

end Refusal

def parse (text : String) : Except Refusal Config := do
  let c ← ((Toml.Document.parse text).bind (·.decode format)).mapError .unreadable
  c.check.mapError .unusable
  return c

def ofToml (text : String) : Except Error Config := (parse text).mapError Refusal.error

/-! ### Options -/

/-- Settings that a command gives; they stand above those of a document. -/
structure Overrides where
  endpoint : Option String := none
  gracePeriod : Option Duration := none
  pollMax : Option Duration := none
deriving Inhabited

/-- Sets an upper bound between polls; the lower bound never exceeds it. -/
def withPollMax (c : Config) (limit : Duration) : Config :=
  { c with pollMax := limit, pollMin := Duration.min c.pollMin limit }

/-- Lays the settings of a command over others, and checks the result. -/
def override (c : Config) (o : Overrides) : Except Error Config := do
  let c := if o.endpoint.isSome then { c with endpoint := o.endpoint } else c
  let c := match o.gracePeriod with
    | some d => { c with gracePeriod := d }
    | none => c
  let c := match o.pollMax with
    | some d => c.withPollMax d
    | none => c
  c.check
  return c

end Config

end Pipeworks
