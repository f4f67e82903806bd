import Pipeworks.Worker.Link
import Pipeworks.Duration
/-!
Synthetic producers: a worker that fills an input topic with records at a fixed rate.
-/
namespace Pipeworks

open Json (Decoder)
open Json.Record (once need)

structure ProducerSpec where
  broker : String
  topic : String
  channels : Nat
  frequency : Float
  /-- It stops after this many records; without it, it goes on. -/
  maxRecords : Option Nat

namespace ProducerSpec

structure Draft where
  broker : Option String := none
  topic : Option String := none
  channels : Option Nat := none
  frequency : Option Float := none
  maxRecords : Option (Option Nat) := none

def format : Json.Record Draft ProducerSpec where
  name := "ProducerSpec"
  fields := ["broker", "topic", "n_channels", "frequency_hz", "max_records"]
  blank := {}
  read key p x d :=
    match key with
    | "broker" => once "broker" d.broker Decoder.string p x fun v => { d with broker := v }
    | "topic" => once "topic" d.topic Decoder.string p x fun v => { d with topic := v }
    | "n_channels" => once "n_channels" d.channels Decoder.count p x fun v => { d with channels := v }
    | "frequency_hz" => once "frequency_hz" d.frequency Decoder.float p x fun v => { d with frequency := v }
    | "max_records" =>
      once "max_records" d.maxRecords (Decoder.option Decoder.word64) p x fun v => { d with maxRecords := v }
    | _ => none
  finish d := do
    return ⟨← need "broker" d.broker, ← need "topic" d.topic, ← need "n_channels" d.channels,
      ← need "frequency_hz" d.frequency, d.maxRecords.join⟩

def json (p : ProducerSpec) : Json :=
  .obj <| Json.present [("broker", some (.str p.broker)), ("topic", some (.str p.topic)),
    ("n_channels", some (Json.nat p.channels)), ("frequency_hz", some (Json.ofFloat p.frequency)),
    ("max_records", p.maxRecords.map Json.nat)]

end ProducerSpec

namespace Producer

def maxFrequency : Float := 1000.0

/-- The whole number nearest to `m * 2 ^ e`; a half goes to the even neighbour. -/
def roundBinary (m : Nat) (e : Int) : Nat :=
  if 0 ≤ e then m * Nat.pow 2 e.toNat
  else
    let den := Nat.pow 2 (-e).toNat
    let q := m / den
    let r := m % den
    if 2 * r < den then q
    else if den < 2 * r then q + 1
    else if q % 2 = 0 then q else q + 1

/-- A count of seconds as a duration, to the nearest nanosecond; there is none for too many seconds. -/
def ofSeconds? (x : Float) : Option Duration :=
  let b := Decimal.Binary.ofBits x.toBits.toNat
  let nanos := roundBinary (b.mantissa * 1000000000) b.exponent
  if x.isNaN ∨ x.isInf ∨ x < 0.0 ∨ Text.bound64 * 1000000000 ≤ nanos then none else some ⟨nanos⟩

/-- The time between two records. There is none for a rate that is no positive number or too high, or so low
that the time cannot be told. -/
def period? (frequency : Float) : Option Duration :=
  if 0.0 < frequency ∧ frequency ≤ maxFrequency then
    (ofSeconds? (1.0 / frequency)).filter fun d => 0 < d.nanos
  else none

/-- Refuses settings that cannot drive a producer; otherwise the time between two records. -/
def check (channels : Nat) (frequency : Float) : Except Error Duration :=
  if channels = 0 then .error (.validation "Producer needs at least one channel")
  else
    match period? frequency with
    | some d => .ok d
    | none =>
      let limit := Decimal.plain.float maxFrequency
      let got := Decimal.plain.float frequency
      .error (.validation s!"Producer frequency must be in (0, {limit}] Hz, got {got}")

/-- The record of one tick: channel `k` carries `k` times the tick. -/
def record (tick channels : Nat) : Json :=
  .obj ((List.range channels).foldl (fun fields k =>
    Keyed.putAscending s!"channel_{k + 1}" (Json.nat (tick * (k + 1))) fields) [])

variable {σ κ : Type}

/-- Publishes the records of the given ticks. -/
def publish (link : Link σ κ) (p : ProducerSpec) (client : κ) (ticks : List Nat) : Work σ κ Unit :=
  ticks.forM fun tick => do
    let payload := Record.encode (record tick p.channels)
    Work.ask (link.publish client p.topic (.ofPayload payload)) id
    Work.note (.published client ⟨p.broker, p.topic⟩ payload)

/-- The whole work of a producer that has time for `ticks` records before it is told to stop. -/
def run (link : Link σ κ) (p : ProducerSpec) (ticks : Nat) : Work σ κ Unit := do
  let _ ← match check p.channels p.frequency with
    | .ok d => pure d
    | .error e => throw e
  let client ← Work.connect link p.broker id
  publish link p client (List.range (match p.maxRecords with | some n => min n ticks | none => ticks))

end Producer

end Pipeworks
