/-!
# Numerals

Reading and writing of unsigned numbers in a base up to sixteen. A numeral
is a non-empty run of digits, in some places with a plus sign before it.
-/

set_option autoImplicit false

namespace PlatformCatalog.Text

def digit? (base : Nat) (c : Char) : Option Nat :=
  let n := c.toNat
  let v :=
    if 48 ≤ n ∧ n ≤ 57 then n - 48
    else if 97 ≤ n ∧ n ≤ 102 then n - 87
    else if 65 ≤ n ∧ n ≤ 70 then n - 55
    else 16
  if v < base then some v else none

def digitsValue? (base : Nat) : Nat → List Char → Option Nat
  | acc, [] => some acc
  | acc, c :: rest =>
    match digit? base c with
    | some d => digitsValue? base (acc * base + d) rest
    | none => none

def numeral? (base : Nat) : List Char → Option Nat
  | [] => none
  | cs => digitsValue? base 0 cs

inductive NumeralFault where
  | empty
  | invalidDigit
  | tooLarge
  deriving DecidableEq, Repr

def NumeralFault.message : NumeralFault → String
  | .empty => "cannot parse integer from empty string"
  | .invalidDigit => "invalid digit found in string"
  | .tooLarge => "number too large to fit in target type"

/-- A decimal numeral with an optional plus sign, at most `max`. -/
def boundedNumeral (max : Nat) (cs : List Char) : Except NumeralFault Nat :=
  match cs with
  | [] => .error .empty
  | c :: rest =>
    let digits := if c = '+' then rest else c :: rest
    match numeral? 10 digits with
    | none => .error .invalidDigit
    | some n => if n ≤ max then .ok n else .error .tooLarge

def max32 : Nat := 4294967295

def max64 : Nat := 18446744073709551615

def padded (width n : Nat) : String :=
  let digits := Nat.toDigits 10 n
  String.ofList (List.replicate (width - digits.length) '0' ++ digits)

end PlatformCatalog.Text
