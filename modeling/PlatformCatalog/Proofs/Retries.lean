import PlatformCatalog.Fetch.Retry
import PlatformCatalog.Proofs.NonnegativeDoubles

/-!
# Attempts, delays and their end

A trial ends with the first attempt that succeeds or, if none does, with the
last that is allowed. Between each two attempts stands the delay that the
first of them calls for, and the count of the attempts fits in 32 bits.
-/

set_option autoImplicit false

namespace PlatformCatalog

open Time

namespace RetryPolicy

theorem delay?_isSome {p : RetryPolicy} (hp : ¬ p.multiplier < 0.0) (attempt : Nat) :
    ∃ delay, p.delay? attempt = some delay := by
  have hseconds := mul_not_lt_zero (secondsOfNanos_not_lt_zero p.initialDelay)
    (power_not_lt_zero hp (min (attempt - 1) 64))
  simp only [delay?, if_neg hseconds]
  split_ifs
  · exact ⟨_, rfl⟩
  · exact ⟨_, rfl⟩

theorem attempts_pos (p : RetryPolicy) : 0 < p.attempts := by
  simp only [attempts]
  omega

end RetryPolicy

namespace Trial

variable {α : Type}

def Final (op : Nat → Except FetchError α) (last n : Nat) : Prop :=
  (∃ v, op n = .ok v) ∨ n = last

theorem isLeast_of_failed {op : Nat → Except FetchError α} {first last c : Nat} {e : FetchError}
    (hfirst : op first = .error e) (hlast : first < last)
    (hc : IsLeast {n | first + 1 ≤ n ∧ Final op last n} c) :
    IsLeast {n | first ≤ n ∧ Final op last n} c := by
  obtain ⟨⟨hle, hfinal⟩, hleast⟩ := hc
  refine ⟨⟨by omega, hfinal⟩, ?_⟩
  rintro n ⟨hn, hfn⟩
  have hne : n ≠ first := by
    rintro rfl
    obtain ⟨v, hv⟩ | heq := hfn
    · rw [hfirst] at hv
      cases hv
    · omega
  exact hleast ⟨by omega, hfn⟩

/-- What a trial comes to whose attempts are numbered from `first` up to `last` at most. -/
structure Concludes (p : RetryPolicy) (label : String) (op : Nat → Except FetchError α)
    (first last : Nat) (t : Trial α) : Prop where
  calls : IsLeast {n | first ≤ n ∧ Final op last n} t.calls
  delays : t.delays.map some = (List.range' first (t.calls - first)).map p.delay?
  done : ∀ v, op t.calls = .ok v → t.ending = .done v
  exhausted : ∀ e, op t.calls = .error e →
    t.ending = .failed (.retriesExhausted label t.calls e)

/-- The induction is on the attempts that may still follow. -/
theorem goOn_concludes {p : RetryPolicy} (hp : ¬ p.multiplier < 0.0) (label : String)
    (op : Nat → Except FetchError α) (first left : Nat) :
    Concludes p label op first (first + left) (goOn p label op first left) := by
  induction left generalizing first with
  | zero =>
    have hleast : IsLeast {n | first ≤ n ∧ Final op (first + 0) n} first :=
      ⟨⟨le_rfl, .inr rfl⟩, fun n hn => hn.1⟩
    cases hop : op first with
    | ok v =>
      simp only [goOn, hop]
      exact ⟨hleast, by simp, by simp [hop], by simp [hop]⟩
    | error e =>
      simp only [goOn, hop]
      exact ⟨hleast, by simp, by simp [hop], by simp [hop]⟩
  | succ left ih =>
    cases hop : op first with
    | ok v =>
      simp only [goOn, hop]
      refine ⟨⟨⟨le_rfl, .inl ⟨v, hop⟩⟩, fun n hn => hn.1⟩, by simp, by simp [hop], by simp [hop]⟩
    | error e =>
      obtain ⟨delay, hdelay⟩ := RetryPolicy.delay?_isSome hp first
      have hrest := ih (first + 1)
      rw [Nat.succ_add_eq_add_succ] at hrest
      simp only [goOn, hop, hdelay]
      refine ⟨isLeast_of_failed hop (by omega) hrest.calls, ?_, hrest.done, hrest.exhausted⟩
      obtain ⟨k, hk⟩ := Nat.exists_eq_add_of_le hrest.calls.1.1
      have hdelays := hrest.delays
      rw [hk, Nat.add_sub_cancel_left] at hdelays
      rw [hk, show first + 1 + k - first = k + 1 by omega, List.range'_succ, List.map_cons,
        List.map_cons, hdelays, hdelay]

inductive Act where
  | attempt (n : Nat)
  | wait (nanos : Nat)
  deriving DecidableEq, Repr

def acts (n : Nat) : List Nat → List Act
  | [] => [.attempt n]
  | delay :: delays => .attempt n :: .wait delay :: acts (n + 1) delays

/-- Tries for `turns` turns at most, with a counter of 32 bits that stands at `count`, and writes
down what is done. There is no outcome if the counter would leave its range or the turns run
out. -/
def loop (p : RetryPolicy) (label : String) (op : Nat → Except FetchError α) :
    Nat → Nat → Option (List Act × Ending α)
  | 0, _ => none
  | turns + 1, count =>
    if 2 ^ 32 ≤ count + 1 then none
    else
      match op (count + 1) with
      | .ok v => some ([.attempt (count + 1)], .done v)
      | .error e =>
        if max p.maxAttempts 1 ≤ count + 1 then
          some ([.attempt (count + 1)], .failed (.retriesExhausted label (count + 1) e))
        else
          match p.delay? (count + 1) with
          | none => some ([.attempt (count + 1)], .broken RetryPolicy.negativeDelay)
          | some delay =>
            (loop p label op turns (count + 1)).map fun (acts, ending) =>
              (.attempt (count + 1) :: .wait delay :: acts, ending)

/-- The induction is on the attempts that may still follow. -/
theorem loop_eq_goOn {p : RetryPolicy} (hmax : p.maxAttempts < 2 ^ 32) (label : String)
    (op : Nat → Except FetchError α) {count left turns : Nat}
    (hleft : count + 1 + left = p.attempts) (hturns : left < turns) :
    loop p label op turns count =
      some (acts (count + 1) (goOn p label op (count + 1) left).delays,
        (goOn p label op (count + 1) left).ending) := by
  have hattempts : p.attempts = max p.maxAttempts 1 := rfl
  induction left generalizing count turns with
  | zero =>
    obtain ⟨turns, rfl⟩ := Nat.exists_eq_succ_of_ne_zero (Nat.ne_zero_of_lt hturns)
    have hrange : ¬ 2 ^ 32 ≤ count + 1 := by omega
    have hlast : max p.maxAttempts 1 ≤ count + 1 := by omega
    cases hop : op (count + 1) with
    | ok v => simp only [loop, goOn, hop, if_neg hrange, acts]
    | error e => simp only [loop, goOn, hop, if_neg hrange, if_pos hlast, acts]
  | succ left ih =>
    obtain ⟨turns, rfl⟩ := Nat.exists_eq_succ_of_ne_zero (Nat.ne_zero_of_lt hturns)
    have hrange : ¬ 2 ^ 32 ≤ count + 1 := by omega
    have hlast : ¬ max p.maxAttempts 1 ≤ count + 1 := by omega
    cases hop : op (count + 1) with
    | ok v => simp only [loop, goOn, hop, if_neg hrange, acts]
    | error e =>
      cases hdelay : p.delay? (count + 1) with
      | none => simp only [loop, goOn, hop, if_neg hrange, if_neg hlast, hdelay, acts]
      | some delay =>
        have hrest := @ih (count + 1) turns (by omega) (by omega)
        simp only [loop, goOn, hop, if_neg hrange, if_neg hlast, hdelay, hrest, acts,
          Option.map_some]

/-- One attempt follows another until one succeeds or the last has failed, each after the delay
that the one before calls for, and the counter of the attempts keeps to its 32 bits. -/
theorem run_concludes (p : RetryPolicy) (hp : ¬ p.multiplier < 0.0)
    (hmax : p.maxAttempts < 2 ^ 32) (label : String) (op : Nat → Except FetchError α) :
    Concludes p label op 1 (max 1 p.maxAttempts) (run p label op) ∧
      ∀ turns, p.attempts ≤ turns →
        loop p label op turns 0 =
          some (acts 1 (run p label op).delays, (run p label op).ending) := by
  have hpos := p.attempts_pos
  have hlast : 1 + (p.attempts - 1) = max 1 p.maxAttempts := by
    simp only [RetryPolicy.attempts]
    omega
  constructor
  · rw [← hlast]
    exact goOn_concludes hp label op 1 (p.attempts - 1)
  · intro turns hturns
    exact loop_eq_goOn hmax label op (by omega) (by omega)

def patient : RetryPolicy := { maxAttempts := 4294967295 }

def thirdTime (n : Nat) : Except FetchError Nat :=
  if n < 3 then .error (.status "http://example" 503) else .ok n

theorem run_concludes_third_time :
    ¬ patient.multiplier < 0.0 ∧ patient.maxAttempts < 2 ^ 32 ∧
      (run patient "http://example" thirdTime).calls = 3 ∧
      (run patient "http://example" thirdTime).delays = [500000000, 750000000] ∧
      (run patient "http://example" thirdTime).ending = .done 3 ∧
      loop patient "http://example" thirdTime 4294967295 0 =
        some ([.attempt 1, .wait 500000000, .attempt 2, .wait 750000000, .attempt 3], .done 3) := by
  have hp : ¬ patient.multiplier < 0.0 := by decide +kernel
  have hmax : patient.maxAttempts < 2 ^ 32 := by decide
  obtain ⟨hrun, hloop⟩ := run_concludes patient hp hmax "http://example" thirdTime
  have hcalls : (run patient "http://example" thirdTime).calls = 3 := by
    refine hrun.calls.unique ⟨⟨by decide, .inl ⟨3, rfl⟩⟩, ?_⟩
    rintro n ⟨hn, ⟨v, hv⟩ | rfl⟩
    · by_contra hlt
      rw [thirdTime, if_pos (by omega)] at hv
      cases hv
    · decide
  have hdelays : (run patient "http://example" thirdTime).delays = [500000000, 750000000] := by
    have hsome : (run patient "http://example" thirdTime).delays.map some =
        [500000000, 750000000].map some := by
      rw [hrun.delays, hcalls]
      decide +kernel
    exact List.map_injective_iff.2 (Option.some_injective _) hsome
  have hending : (run patient "http://example" thirdTime).ending = .done 3 :=
    hrun.done 3 (by rw [hcalls]; rfl)
  refine ⟨hp, hmax, hcalls, hdelays, hending, ?_⟩
  rw [hloop 4294967295 (by decide), hdelays, hending]
  rfl

end Trial

end PlatformCatalog
