import Pipeworks.Graph.Basic
import Pipeworks.Text.Blank
import Pipeworks.Text.Signed
/-!
The routes of the control surface: which path stands for which operation, and with which method it is asked for.
-/
namespace Pipeworks

/-- What can be asked for one pipeline. -/
inductive Operation where
  | validate
  | start
  | stop
  | abort
  | status
deriving DecidableEq, Repr

namespace Operation

def name : Operation → String
  | validate => "validate"
  | start => "start"
  | stop => "stop"
  | abort => "abort"
  | status => "status"

def all : List Operation := [validate, start, stop, abort, status]

end Operation

inductive Route where
  /-- An operation on a pipeline, whose number is written in the path. -/
  | pipeline (id : String) (op : Operation)
  | events
  | observers
deriving DecidableEq, Repr

namespace Route

def withoutQuery (path : String) : List Char := path.toList.takeWhile (· ≠ '?')

def ofPath? (path : String) : Option Route :=
  match (Text.cutAt '/' (withoutQuery path)).map String.ofList with
  | ["", "pipelines", id, op] => (Operation.all.find? (·.name = op)).map (pipeline id)
  | ["", "stream", "event"] => some events
  | ["", "ws", "stream"] => some observers
  | _ => none

/-- Whether a route only asks for something. -/
def isQuestion : Route → Bool
  | pipeline _ op => op = .status
  | events => false
  | observers => true

/-- Whether a route takes a request with this method; what can be asked for can be asked for without a body. -/
def takes (r : Route) (method : String) : Bool :=
  if r.isQuestion then method = "GET" || method = "HEAD" else method = "POST"

/-! ### Numbers in paths -/

def hexVal? (b : UInt8) : Option Nat :=
  let n := b.toNat
  if 48 ≤ n ∧ n ≤ 57 then some (n - 48)
  else if 65 ≤ n ∧ n ≤ 70 then some (n - 55)
  else if 97 ≤ n ∧ n ≤ 102 then some (n - 87)
  else none

/-- Bytes with those restored that are written as a percent sign and two digits. -/
def percentDecode : List UInt8 → List UInt8
  | 37 :: a :: b :: rest =>
    match hexVal? a, hexVal? b with
    | some x, some y => (16 * x + y).toUInt8 :: percentDecode rest
    | _, _ => 37 :: percentDecode (a :: b :: rest)
  | c :: rest => c :: percentDecode rest
  | [] => []

/-- The number of the pipeline that is written in a path. -/
def readId? (s : String) : Option PipelineId :=
  (String.fromUTF8? ⟨(percentDecode s.toUTF8.toList).toArray⟩).bind fun t => Text.readSigned? t.toList

end Route

end Pipeworks
