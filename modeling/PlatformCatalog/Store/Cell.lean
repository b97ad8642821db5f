/-!
# Cells of a relational table

A text that is put into a column of integers is kept as a number if it is
the numeral of one. Only a whole number that fits is one for a reader of
versions. Texts are looked up by patterns. A percent sign in a pattern stands
for any text, and an underscore for any character. Other characters stand for
themselves, ASCII letters in either case. There is no escape character.
Pattern and text end at a null character, and the two noncharacters at the
end of the basic plane are not told from the replacement character.
-/

set_option autoImplicit false

namespace PlatformCatalog

inductive Cell where
  | integer (value : Int)
  | text (value : String)
  deriving DecidableEq, Repr

namespace Cell

def isDigit (c : Char) : Bool := '0' ≤ c && c ≤ '9'

def isPadding (c : Char) : Bool := c == ' ' || ('\t' ≤ c && c ≤ '\r')

def digitValue (c : Char) : Nat := c.toNat - 48

def digitsToNat (cs : List Char) : Nat := cs.foldl (fun n c => 10 * n + digitValue c) 0

def sign : List Char → Bool × List Char
  | '-' :: rest => (true, rest)
  | '+' :: rest => (false, rest)
  | cs => (false, cs)

def exponent? : List Char → Option Int
  | [] => some 0
  | c :: rest =>
    if c = 'e' ∨ c = 'E' then
      let (negative, digits) := sign rest
      if digits.isEmpty || !digits.all isDigit then none
      else some (if negative then -(digitsToNat digits : Int) else digitsToNat digits)
    else none

def shifted? (digits : List Char) (places : Int) : Option Nat :=
  if digitsToNat digits = 0 then some 0
  else if 0 ≤ places then
    if places ≤ 20 then some (digitsToNat (digits ++ List.replicate places.toNat '0')) else none
  else
    let kept := digits.length - places.natAbs
    if (digits.drop kept).all (· == '0') ∧ places.natAbs ≤ digits.length then
      some (digitsToNat (digits.take kept))
    else none

def wholeNumber? (s : String) : Option Int :=
  let trimmed := ((s.toList.dropWhile isPadding).reverse.dropWhile isPadding).reverse
  let (negative, body) := sign trimmed
  let whole := body.takeWhile isDigit
  let rest := body.dropWhile isDigit
  let fraction := match rest with
    | '.' :: rest => rest.takeWhile isDigit
    | _ => []
  let rest := match rest with
    | '.' :: rest => rest.dropWhile isDigit
    | rest => rest
  if whole.isEmpty && fraction.isEmpty then none
  else do
    let e ← exponent? rest
    let n ← shifted? (whole ++ fraction) (e - fraction.length)
    return if negative then -(n : Int) else n

/-- A value as a column of integers keeps it. -/
def inIntegerColumn : Cell → Cell
  | .integer n => .integer n
  | .text s =>
    match wholeNumber? s with
    | some n => .integer n
    | none => .text s

def inTextColumn : Cell → String
  | .integer n => toString n
  | .text s => s

def natural? (max : Nat) : Cell → Option Nat
  | .integer (.ofNat n) => if n ≤ max then some n else none
  | _ => none

end Cell

end PlatformCatalog

namespace PlatformCatalog.Pattern

def folded (c : Char) : Char :=
  if c = '\uFFFE' ∨ c = '\uFFFF' then '\uFFFD' else c.toLower

def suffixes {α : Type} : List α → List (List α)
  | [] => [[]]
  | x :: rest => (x :: rest) :: suffixes rest

def covers : List Char → List Char → Bool
  | [], s => s.isEmpty
  | p :: rest, s =>
    if p = '%' then (suffixes s).any (covers rest)
    else match s with
      | [] => false
      | c :: s => (p = '_' || folded p = folded c) && covers rest s

def visible (s : String) : List Char := s.toList.takeWhile (· ≠ '\x00')

/-- Whether the text has the form of the pattern. -/
def isLike (pattern s : String) : Bool := covers (visible pattern) (visible s)

end PlatformCatalog.Pattern
