import PlatformCatalog.Text.Form
import PlatformCatalog.Time.Duration

/-!
# Failures of a fetch
-/

set_option autoImplicit false

namespace PlatformCatalog

open Text Time

inductive FetchError where
  | invalidProxy (url reason : String)
  | transport (url reason : String)
  | status (url : String) (code : Nat)
  | retriesExhausted (url : String) (attempts : Nat) (last : FetchError)
  | malformedEnvelope (what reason : String)
  /-- The limit of the batch in nanoseconds. -/
  | timeout (nanos : Nat)
  | taskAborted (index : Nat) (reason : String)
  | aggregated (errors : List FetchError)
  deriving Repr

namespace FetchError

mutual

def message : FetchError → String
  | .invalidProxy url reason => "invalid proxy URL " ++ quoted url ++ ": " ++ reason
  | .transport url reason => "request to " ++ url ++ " failed: " ++ reason
  | .status url code => "request to " ++ url ++ " returned status " ++ toString code
  | .retriesExhausted url attempts _ =>
    "giving up on " ++ url ++ " after " ++ toString attempts ++ " attempts"
  | .malformedEnvelope what reason => "malformed " ++ what ++ ": " ++ reason
  | .timeout nanos => "batch timed out after " ++ durationText nanos
  | .taskAborted index reason =>
    "task " ++ toString index ++ " did not complete: " ++ reason
  | .aggregated errors =>
    toString errors.length ++ " fetch task(s) failed: " ++ "; ".intercalate (messages errors)

def messages : List FetchError → List String
  | [] => []
  | e :: rest => message e :: messages rest

end

def causes : FetchError → List String
  | .invalidProxy _ reason => [reason]
  | .transport _ reason => [reason]
  | .retriesExhausted _ _ last => last.message :: causes last
  | _ => []

end FetchError

/-- How a piece of work ends: with a value, with a failure, or by breaking down. -/
inductive Ending (α : Type) where
  | done (value : α)
  | failed (e : FetchError)
  | broken (reason : String)
  deriving Repr

namespace Ending

def map {α β : Type} (f : α → β) : Ending α → Ending β
  | .done v => .done (f v)
  | .failed e => .failed e
  | .broken reason => .broken reason

def bind {α β : Type} (x : Ending α) (f : α → Except FetchError β) : Ending β :=
  match x with
  | .done v =>
    match f v with
    | .ok w => .done w
    | .error e => .failed e
  | .failed e => .failed e
  | .broken reason => .broken reason

end Ending

end PlatformCatalog
