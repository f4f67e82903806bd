import Pipeworks.Text.Blank
import Pipeworks.Text.Unsigned
/-!
Whether a broker can be reached. An address is a list of endpoints with commas between them, each perhaps with a
scheme before it; the address is reached when one endpoint accepts a connection.
-/
namespace Pipeworks.Probe

open Text

/-- What stands after the first mark of a scheme, if there is one. -/
def afterScheme? : List Char → Option (List Char)
  | ':' :: '/' :: '/' :: rest => some rest
  | _ :: rest => afterScheme? rest
  | [] => none

def dropScheme (cs : List Char) : List Char := (afterScheme? cs).getD cs

def dropSlashes (cs : List Char) : List Char := (cs.reverse.dropWhile (· = '/')).reverse

/-- The endpoints of an address; empty parts are none. -/
def endpoints (address : String) : List (List Char) :=
  (((cutAt ',' address.toList).map trim).filter fun p => !p.isEmpty).map fun p => dropSlashes (dropScheme p)

/-- The host before the last colon and the text after it. -/
def hostAndPort? (endpoint : List Char) : Option (List Char × List Char) :=
  let reversed := endpoint.reverse
  let port := reversed.takeWhile (· ≠ ':')
  match reversed.drop port.length with
  | _ :: host => some (host.reverse, port.reverse)
  | [] => none

/-- Ports are numbers of 16 bits. -/
def portBound : Nat := 65536

/-- Whether an endpoint has a host and a port of 16 bits. -/
def hasPort (endpoint : List Char) : Bool :=
  match hostAndPort? endpoint with
  | some (host, port) => !host.isEmpty && (readUnsigned portBound port).isOk
  | none => false

/-- Whether an address is reached, where `accepts` tells which endpoints accept a connection. -/
def reachable (accepts : String → Bool) (address : String) : Bool :=
  (endpoints address).any fun e => hasPort e && accepts (String.ofList e)

end Pipeworks.Probe
