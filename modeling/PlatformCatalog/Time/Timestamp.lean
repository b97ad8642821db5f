import PlatformCatalog.Text.Form
import PlatformCatalog.Text.Numeral
import PlatformCatalog.Time.Calendar

/-!
# Points in time

A point in time is a count of seconds and a fraction in nanoseconds. A
fraction of a second or more marks a leap second. Written, it is a date and a
time of day in universal time with as many groups of three decimals as it
needs. Two readers take such texts back: the strict one, for stored times,
and the lenient one, for times in documents.
-/

set_option autoImplicit false

namespace PlatformCatalog.Time

open Text

structure Timestamp where
  seconds : Int
  nanos : Nat
  deriving DecidableEq, Repr

inductive TimestampFault where
  | tooShort
  | invalid
  | outOfRange
  | tooLong
  deriving DecidableEq, Repr

def TimestampFault.message : TimestampFault → String
  | .tooShort => "premature end of input"
  | .invalid => "input contains invalid characters"
  | .outOfRange => "input is out of range"
  | .tooLong => "trailing input"

/-- A time of day, where a sixtieth second is a leap second. -/
structure Clock where
  hour : Nat
  minute : Nat
  second : Nat
  nanos : Nat
  deriving DecidableEq, Repr

def secondsPerDay : Int := 86400

namespace Timestamp

def epoch : Timestamp := ⟨0, 0⟩

def date (t : Timestamp) : Date := Date.ofDays (t.seconds.fdiv secondsPerDay)

def clock (t : Timestamp) : Clock :=
  let s := (t.seconds.fmod secondsPerDay).toNat
  let leap := 1000000000 ≤ t.nanos
  { hour := s / 3600
    minute := s / 60 % 60
    second := s % 60 + if leap then 1 else 0
    nanos := if leap then t.nanos - 1000000000 else t.nanos }

def ofClock (d : Date) (c : Clock) (offset : Int) : Timestamp :=
  let leap := c.second = 60
  let second : Nat := if leap then 59 else c.second
  { seconds := d.toDays * secondsPerDay + (c.hour * 3600 + c.minute * 60 + second : Nat) - offset
    nanos := if leap then c.nanos + 1000000000 else c.nanos }

/-- Years of four digits stand alone, all others carry a sign. -/
def yearText (year : Int) : String :=
  if 0 ≤ year ∧ year ≤ 9999 then padded 4 year.toNat
  else (if year < 0 then "-" else "+") ++ padded 4 year.natAbs

def fractionText (nanos : Nat) : String :=
  if nanos = 0 then ""
  else if nanos % 1000000 = 0 then "." ++ padded 3 (nanos / 1000000)
  else if nanos % 1000 = 0 then "." ++ padded 6 (nanos / 1000)
  else "." ++ padded 9 nanos

def write (zone : String) (t : Timestamp) : String :=
  let d := t.date
  let c := t.clock
  yearText d.year ++ "-" ++ padded 2 d.month ++ "-" ++ padded 2 d.day ++ "T" ++
    padded 2 c.hour ++ ":" ++ padded 2 c.minute ++ ":" ++ padded 2 c.second ++
    fractionText c.nanos ++ zone

def stored (t : Timestamp) : String := t.write "+00:00"

def shown (t : Timestamp) : String := t.write "Z"

def byteLength (cs : List Char) : Nat := cs.foldl (fun n c => n + c.utf8Size) 0

def digitsFrom (least : Nat) :
    Nat → Nat → Nat → List Char → Except TimestampFault (Nat × List Char)
  | 0, _, value, cs => .ok (value, cs)
  | _ + 1, _, value, [] => .ok (value, [])
  | most + 1, seen, value, c :: cs =>
    match digit? 10 c with
    | some d => digitsFrom least most (seen + 1) (value * 10 + d) cs
    | none => if seen < least then .error .invalid else .ok (value, c :: cs)

def number (least most : Nat) (cs : List Char) : Except TimestampFault (Nat × List Char) :=
  if byteLength cs < least then .error .tooShort else digitsFrom least most 0 0 cs

def literal (c : Char) : List Char → Except TimestampFault (List Char)
  | [] => .error .tooShort
  | d :: rest => if c = d then .ok rest else .error .invalid

def bounded (least most n : Nat) : Except TimestampFault Unit :=
  if least ≤ n ∧ n ≤ most then .ok () else .error .outOfRange

def field (minDigits maxDigits least most : Nat) (cs : List Char) :
    Except TimestampFault (Nat × List Char) := do
  let (n, cs) ← number minDigits maxDigits cs
  bounded least most n
  return (n, cs)

def dateEnd : List Char → Except TimestampFault (List Char)
  | [] => .error .tooShort
  | c :: rest => if c = 'T' ∨ c = 't' ∨ c = ' ' then .ok rest else .error .invalid

/-- Decimals behind a point, of which the first nine count. -/
def fraction (cs : List Char) : Except TimestampFault (Nat × List Char) :=
  match cs with
  | '.' :: rest => do
    let (n, after) ← number 1 9 rest
    let seen := rest.length - after.length
    return (n * Nat.pow 10 (9 - seen), after.dropWhile isDigitChar)
  | _ => .ok (0, cs)
where
  isDigitChar (c : Char) : Bool := (digit? 10 c).isSome

def offsetDigits (tens : Nat) (cs : List Char) : Except TimestampFault (Nat × List Char) :=
  match cs with
  | a :: b :: rest =>
    match digit? 10 a, digit? 10 b with
    | some x, some y => if x ≤ tens then .ok (x * 10 + y, rest) else .error .outOfRange
    | _, _ => .error .invalid
  | _ => if byteLength cs < 2 then .error .tooShort else .error .invalid

def offset (separator : List Char → Except TimestampFault (List Char)) (cs : List Char) :
    Except TimestampFault (Int × List Char) :=
  match cs with
  | [] => .error .tooShort
  | c :: rest =>
    if c = 'Z' ∨ c = 'z' then .ok (0, rest)
    else if c = '+' ∨ c = '-' ∨ c = '\u2212' then do
      let (hours, rest) ← offsetDigits 9 rest
      let rest ← separator rest
      let (minutes, rest) ← offsetDigits 5 rest
      let size : Int := (hours * 3600 + minutes * 60 : Nat)
      return (if c = '+' then size else -size, rest)
    else .error .invalid

def checkOffset (seconds : Int) : Except TimestampFault Unit :=
  if -secondsPerDay < seconds ∧ seconds < secondsPerDay then .ok () else .error .outOfRange

def assemble (d : Date) (c : Clock) (zone : Int) : Except TimestampFault Timestamp :=
  if d.Valid then .ok (ofClock d c zone) else .error .outOfRange

def ending (cs : List Char) : Except TimestampFault Unit :=
  if cs.isEmpty then .ok () else .error .tooLong

/-- Reads a time of which every field has its full width. -/
def readStrict (s : String) : Except TimestampFault Timestamp := do
  let (year, cs) ← number 4 4 s.toList
  let cs ← literal '-' cs
  let (month, cs) ← field 2 2 1 12 cs
  let cs ← literal '-' cs
  let (day, cs) ← field 2 2 1 31 cs
  let cs ← dateEnd cs
  let (hour, cs) ← field 2 2 0 23 cs
  let cs ← literal ':' cs
  let (minute, cs) ← field 2 2 0 59 cs
  let cs ← literal ':' cs
  let (second, cs) ← field 2 2 0 60 cs
  let (nanos, cs) ← fraction cs
  let (zone, cs) ← offset (literal ':') cs
  checkOffset zone
  ending cs
  assemble ⟨year, month, day⟩ ⟨hour, minute, second, nanos⟩ zone

def skipBlanks (cs : List Char) : List Char := cs.dropWhile isBlank

/-- A year with a sign and any number of digits, or without and up to four. -/
def signedYear (cs : List Char) : Except TimestampFault (Int × List Char) :=
  match skipBlanks cs with
  | '-' :: rest => do
    let (n, cs) ← number 1 rest.length rest
    return (-(n : Int), cs)
  | '+' :: rest => do
    let (n, cs) ← number 1 rest.length rest
    return ((n : Int), cs)
  | cs => do
    let (n, cs) ← number 1 4 cs
    return ((n : Int), cs)

def looseField (least most : Nat) (cs : List Char) : Except TimestampFault (Nat × List Char) :=
  field 1 2 least most (skipBlanks cs)

def looseLiteral (c : Char) (cs : List Char) : Except TimestampFault (List Char) :=
  literal c (skipBlanks cs)

def looseSeparator (cs : List Char) : Except TimestampFault (List Char) :=
  .ok (cs.dropWhile fun c => c == ':' || isBlank c)

def looseOffset (cs : List Char) : Except TimestampFault (Int × List Char) :=
  if (cs.take 3).map Char.toLower = ['u', 't', 'c'] then .ok (0, cs.drop 3)
  else offset looseSeparator cs

def checkYear (year : Int) : Except TimestampFault Unit :=
  if -262143 ≤ year ∧ year ≤ 262142 then .ok () else .error .outOfRange

/-- Reads a time whose fields may lack leading zeros and stand between blanks. -/
def readLenient (s : String) : Except TimestampFault Timestamp := do
  let (year, cs) ← signedYear s.toList
  let cs ← looseLiteral '-' cs
  let (month, cs) ← looseField 1 12 cs
  let cs ← looseLiteral '-' cs
  let (day, cs) ← looseField 1 31 cs
  let cs ← dateEnd cs
  let (hour, cs) ← looseField 0 23 cs
  let cs ← looseLiteral ':' cs
  let (minute, cs) ← looseField 0 59 cs
  let cs ← looseLiteral ':' cs
  let (second, cs) ← looseField 0 60 cs
  let (nanos, cs) ← fraction cs
  let (zone, cs) ← looseOffset (skipBlanks cs)
  checkOffset zone
  ending (skipBlanks cs)
  checkYear year
  assemble ⟨year, month, day⟩ ⟨hour, minute, second, nanos⟩ zone

end Timestamp

end PlatformCatalog.Time
