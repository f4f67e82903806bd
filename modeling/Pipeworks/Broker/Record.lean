import Pipeworks.Error
import Pipeworks.Json.Printer
/-!
Records: what is published on a topic. A step of a pipeline sees the JSON value of a record's payload.
-/
namespace Pipeworks

structure Record where
  key : Option ByteArray
  payload : ByteArray
deriving Inhabited

namespace Record

def ofPayload (payload : ByteArray) : Record := ⟨none, payload⟩

def decode (payload : ByteArray) : Except Error Json :=
  (Json.decodeBytes Json.Decoder.json payload).mapError .json

/-- The payload of a value; records for brokers near and far are written by this one function. -/
def encode (j : Json) : ByteArray := j.compact.toUTF8

end Record

end Pipeworks
