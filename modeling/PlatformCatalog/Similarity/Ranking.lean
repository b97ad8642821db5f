import PlatformCatalog.Similarity.Algorithm
import PlatformCatalog.Text.Form

/-!
# Ranked search

Candidates are ranked by their score against a query, and those of one score
by themselves. Case does not count in a comparison.
-/

set_option autoImplicit false

namespace PlatformCatalog.Ranking

open Text

structure Scored (σ : Type) where
  score : σ
  candidate : String

variable {σ : Type}

/-- A higher score goes first, and of equal scores the smaller candidate. -/
def ahead (higher : σ → σ → Bool) (x y : Scored σ) : Bool :=
  higher x.score y.score || (!higher y.score x.score && decide (x.candidate ≤ y.candidate))

def dropRepeats : List (Scored σ) → List (Scored σ)
  | [] => []
  | [x] => [x]
  | x :: y :: rest =>
    if x.candidate = y.candidate then dropRepeats (x :: rest) else x :: dropRepeats (y :: rest)
termination_by xs => xs.length

def best (higher : σ → σ → Bool) (score : String → σ) (n : Nat) (candidates : List String) :
    List String :=
  let sorted := (candidates.map fun c => ⟨score c, c⟩).mergeSort (ahead higher)
  ((dropRepeats sorted).take n).map (·.candidate)

def higherFloat (x y : Float) : Bool := decide (y < x)

def search (a : Algorithm) (query : String) (n : Nat) (candidates : List String) : List String :=
  if query.isEmpty ∨ n = 0 then []
  else
    let query := lowercase query
    best higherFloat (fun c => a.score query (lowercase c)) n candidates

end PlatformCatalog.Ranking
