import PlatformCatalog.Text.Numeral

/-!
# Durations

A duration is a count of nanoseconds. A message shows it in the largest of
four units that it fills at least once, with as many decimals as it needs.
Computations take it in seconds of double precision. A number of seconds is
taken apart into its bits, so that the nearest number of nanoseconds is found
exactly.
-/

set_option autoImplicit false

namespace PlatformCatalog.Time

open Text

def nanosPerMilli : Nat := 1000000

def nanosPerSecond : Nat := 1000000000

/-- The decimals of `n` parts of which `scale` digits make a whole, without zeros at the end. -/
def decimals (scale n : Nat) : String :=
  let digits := (padded scale n).toList
  let kept := (digits.reverse.dropWhile (· == '0')).reverse
  if kept.isEmpty then "" else String.ofList ('.' :: kept)

def inUnit (nanos size scale : Nat) (unit : String) : String :=
  toString (nanos / size) ++ decimals scale (nanos % size) ++ unit

def durationText (nanos : Nat) : String :=
  if nanosPerSecond ≤ nanos then inUnit nanos nanosPerSecond 9 "s"
  else if nanosPerMilli ≤ nanos then inUnit nanos nanosPerMilli 6 "ms"
  else if 1000 ≤ nanos then inUnit nanos 1000 3 "µs"
  else toString nanos ++ "ns"

/-- The quotient rounded to the nearest whole number, a half to the even one. -/
def nearestQuotient (m n : Nat) : Nat :=
  let q := m / n
  let r := 2 * (m % n)
  if r < n then q
  else if n < r then q + 1
  else q + q % 2

def binaryParts (x : Float) : Nat × Int :=
  let bits := x.toBits.toNat
  let mantissa := bits % 4503599627370496
  let exponent := bits / 4503599627370496 % 2048
  if exponent = 0 then (mantissa, -1074)
  else (mantissa + 4503599627370496, exponent - 1075)

def nanosOfSeconds (x : Float) : Nat :=
  let (mantissa, exponent) := binaryParts x
  if 0 ≤ exponent then mantissa * Nat.pow 2 exponent.toNat * nanosPerSecond
  else nearestQuotient (mantissa * nanosPerSecond) (Nat.pow 2 exponent.natAbs)

def secondsOfNanos (nanos : Nat) : Float :=
  (nanos / nanosPerSecond).toFloat + (nanos % nanosPerSecond).toFloat / 1e9

/-- The power of a number times `acc`, by repeated squaring from the lowest binary digit on. -/
def powerTimes (acc x : Float) (n : Nat) : Float :=
  let acc := if n % 2 = 1 then acc * x else acc
  if n < 2 then acc else powerTimes acc (x * x) (n / 2)
termination_by n
decreasing_by omega

def power (x : Float) (n : Nat) : Float := powerTimes 1.0 x n

end PlatformCatalog.Time
