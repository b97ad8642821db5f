import PlatformCatalog.Fetch.Error
import PlatformCatalog.Time.Duration

/-!
# Retries

A failed attempt is followed by a delay and another attempt, until the
attempts are used up. Delays grow by a factor up to a limit.
-/

set_option autoImplicit false

namespace PlatformCatalog

open Time

/-- Delays are counted in nanoseconds. -/
structure RetryPolicy where
  maxAttempts : Nat := 20
  initialDelay : Nat := 500 * nanosPerMilli
  multiplier : Float := 1.5
  maxDelay : Nat := 60 * nanosPerSecond

namespace RetryPolicy

/-- The delay after a failed attempt, the first of which is number one. There is none if the
growth makes it negative. -/
def delay? (p : RetryPolicy) (attempt : Nat) : Option Nat :=
  let seconds := secondsOfNanos p.initialDelay * power p.multiplier (min (attempt - 1) 64)
  if !seconds.isFinite || seconds ≥ secondsOfNanos p.maxDelay then some p.maxDelay
  else if seconds < 0.0 then none
  else some (nanosOfSeconds seconds)

def negativeDelay : String := "cannot convert float seconds to Duration: value is negative"

def attempts (p : RetryPolicy) : Nat := max p.maxAttempts 1

end RetryPolicy

structure Trial (α : Type) where
  calls : Nat
  delays : List Nat
  ending : Ending α

namespace Trial

variable {α : Type}

def goOn (p : RetryPolicy) (label : String) (op : Nat → Except FetchError α) (attempt : Nat) :
    Nat → Trial α
  | 0 =>
    match op attempt with
    | .ok v => ⟨attempt, [], .done v⟩
    | .error e => ⟨attempt, [], .failed (.retriesExhausted label attempt e)⟩
  | left + 1 =>
    match op attempt with
    | .ok v => ⟨attempt, [], .done v⟩
    | .error _ =>
      match p.delay? attempt with
      | none => ⟨attempt, [], .broken RetryPolicy.negativeDelay⟩
      | some delay =>
        let rest := goOn p label op (attempt + 1) left
        { rest with delays := delay :: rest.delays }

def run (p : RetryPolicy) (label : String) (op : Nat → Except FetchError α) : Trial α :=
  goOn p label op 1 (p.attempts - 1)

/-- The whole milliseconds that a clock of milliseconds spends on a delay. -/
def sleepMillis (nanos : Nat) : Nat := (nanos + (nanosPerMilli - 1)) / nanosPerMilli

def elapsed (t : Trial α) : Nat := t.delays.foldr (fun nanos ms => sleepMillis nanos + ms) 0

end Trial

end PlatformCatalog
