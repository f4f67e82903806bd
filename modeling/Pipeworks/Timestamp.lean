import Pipeworks.Json.Decode
import Pipeworks.Text.Blank
/-!
Moments of universal time, and their texts: `2024-01-02T03:04:05.678Z`.
-/
namespace Pipeworks

/-- A moment: days since 1970-01-01, the second of the day, and nanoseconds. Within a leap second the
nanoseconds go beyond one second. -/
structure Timestamp where
  day : Int
  second : Nat
  nanos : Nat
deriving DecidableEq, Repr, Inhabited

namespace Timestamp

inductive ParseError where
  | tooShort
  | invalid
  | outOfRange
  | tooLong
deriving DecidableEq, Repr

def ParseError.message : ParseError → String
  | tooShort => "premature end of input"
  | invalid => "input contains invalid characters"
  | outOfRange => "input is out of range"
  | tooLong => "trailing input"

/-- Days since 1970-01-01 of a date of the Gregorian calendar; years begin in March here. -/
def dayOfDate (year : Int) (month day : Nat) : Int :=
  let y := if month ≤ 2 then year - 1 else year
  let m := (month + 9) % 12
  let era := y.fdiv 400
  let yearOfEra := y - era * 400
  era * 146097 + yearOfEra * 365 + yearOfEra / 4 - yearOfEra / 100 + (153 * m + 2) / 5 + day - 1 - 719468

def dateOfDay (d : Int) : Int × Nat × Nat :=
  let z := d + 719468
  let era := z.fdiv 146097
  let dayOfEra := (z - era * 146097).toNat
  let yearOfEra := (dayOfEra - dayOfEra / 1460 + dayOfEra / 36524 - dayOfEra / 146096) / 365
  let dayOfYear := dayOfEra - (365 * yearOfEra + yearOfEra / 4 - yearOfEra / 100)
  let m := (5 * dayOfYear + 2) / 153
  let day := dayOfYear - (153 * m + 2) / 5 + 1
  let month := if m < 10 then m + 3 else m - 9
  let year := (yearOfEra : Int) + era * 400
  (if month ≤ 2 then year + 1 else year, month, day)

def isLeap (year : Int) : Bool := year % 4 == 0 && (year % 100 != 0 || year % 400 == 0)

def daysIn (year : Int) (month : Nat) : Nat :=
  if month = 2 then (if isLeap year then 29 else 28)
  else if [4, 6, 9, 11].contains month then 30 else 31

abbrev Reader (α : Type) := List Char → Except ParseError (α × List Char)

def number (digits : List Char) : Nat :=
  digits.foldl (fun acc c => acc * 10 + (c.toNat - '0'.toNat)) 0

/-- A number of at most `width` digits, after blanks. -/
def field (width : Nat) : Reader Nat := fun s =>
  let s := s.dropWhile Text.isBlank
  let ds := (s.take width).takeWhile Char.isDigit
  if s.isEmpty then .error .tooShort
  else if ds.isEmpty then .error .invalid
  else .ok (number ds, s.drop ds.length)

def bounded (width low high : Nat) : Reader Nat := fun s => do
  let (n, s) ← field width s
  if low ≤ n ∧ n ≤ high then return (n, s) else throw .outOfRange

/-- A separator, after blanks. -/
def mark (c : Char) : List Char → Except ParseError (List Char) := fun s =>
  match s.dropWhile Text.isBlank with
  | [] => .error .tooShort
  | d :: s => if d = c then .ok s else .error .invalid

/-- The fraction of a second, if there is one; digits beyond the ninth are dropped. -/
def fraction : Reader Nat := fun s =>
  match s with
  | '.' :: s =>
    let ds := s.takeWhile Char.isDigit
    if s.isEmpty then .error .tooShort
    else if ds.isEmpty then .error .invalid
    else
      let kept := ds.take 9
      .ok (number kept * Nat.pow 10 (9 - kept.length), s.drop ds.length)
  | s => .ok (0, s)

def twoDigits : Reader Nat := fun s =>
  match s with
  | a :: b :: s => if a.isDigit ∧ b.isDigit then .ok (number [a, b], s) else .error .invalid
  | _ => .error .tooShort

/-- The offset from universal time, in seconds. -/
def offset : Reader Int := fun s =>
  match s with
  | [] => .error .tooShort
  | 'Z' :: s => .ok (0, s)
  | 'z' :: s => .ok (0, s)
  | c :: s =>
    if (c :: s.take 2).map Char.toUpper = ['U', 'T', 'C'] then .ok (0, s.drop 2)
    else if c = '+' ∨ c = '-' ∨ c = '−' then do
      let (hours, s) ← twoDigits s
      let (minutes, s) ← twoDigits (s.dropWhile fun c => c = ':' ∨ Text.isBlank c)
      if 59 < minutes ∨ 24 ≤ hours then throw .outOfRange
      let seconds : Int := hours * 3600 + minutes * 60
      return (if c = '+' then seconds else -seconds, s)
    else .error .invalid

def parse (text : String) : Except ParseError Timestamp := do
  let (year, s) ← field 4 text.toList
  let (month, s) ← bounded 2 1 12 (← mark '-' s)
  let (day, s) ← bounded 2 1 31 (← mark '-' s)
  let s ← match s with
    | 'T' :: s => pure s
    | 't' :: s => pure s
    | ' ' :: s => pure s
    | [] => throw .tooShort
    | _ => throw .invalid
  let (hour, s) ← bounded 2 0 23 s
  let (minute, s) ← bounded 2 0 59 (← mark ':' s)
  let (second, s) ← bounded 2 0 60 (← mark ':' s)
  let (nanos, s) ← fraction s
  let (shift, s) ← offset (s.dropWhile Text.isBlank)
  if !(s.dropWhile Text.isBlank).isEmpty then throw .tooLong
  if daysIn year month < day then throw .outOfRange
  let total : Int := dayOfDate year month day * 86400 + hour * 3600 + minute * 60 +
    (if second = 60 then 59 else second : Nat) - shift
  return ⟨total.fdiv 86400, (total.fmod 86400).toNat, if second = 60 then nanos + 1000000000 else nanos⟩

def padded (width n : Nat) : String :=
  let ds := Nat.toDigits 10 n
  String.ofList (List.replicate (width - ds.length) '0' ++ ds)

/-- The fraction in as many groups of three digits as it needs. -/
def fractionText (nanos : Nat) : String :=
  if nanos = 0 then ""
  else if nanos % 1000000 = 0 then "." ++ padded 3 (nanos / 1000000)
  else if nanos % 1000 = 0 then "." ++ padded 6 (nanos / 1000)
  else "." ++ padded 9 nanos

def text (t : Timestamp) : String :=
  let (year, month, day) := dateOfDay t.day
  let leap := 1000000000 ≤ t.nanos
  let second := t.second % 60 + (if leap then 1 else 0)
  padded 4 year.toNat ++ "-" ++ padded 2 month ++ "-" ++ padded 2 day ++ "T" ++
    padded 2 (t.second / 3600) ++ ":" ++ padded 2 (t.second / 60 % 60) ++ ":" ++ padded 2 second ++
    fractionText (t.nanos % 1000000000) ++ "Z"

def decoder : Json.Decoder Timestamp := fun _ x =>
  match x with
  | .text (.ok s) => (parse s).mapError fun e => .refused e.message
  | x => .error (x.mismatch "an RFC 3339 formatted date and time string")

def json (t : Timestamp) : Json := .str t.text

end Timestamp

end Pipeworks
