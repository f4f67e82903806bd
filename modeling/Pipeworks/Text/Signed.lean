import Pipeworks.Text.Unsigned
/-!
Signed decimal numbers in text.
-/
namespace Pipeworks.Text

/-- Reads a number of 64 bits with an optional sign. -/
def readSigned? : List Char → Option Int
  | '-' :: '+' :: _ => none
  | '-' :: digits =>
    match readUnsigned (bound64 / 2 + 1) digits with
    | .ok n => some (-n)
    | .error _ => none
  | cs =>
    match readUnsigned (bound64 / 2) cs with
    | .ok n => some n
    | .error _ => none

end Pipeworks.Text
