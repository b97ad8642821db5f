import PlatformCatalog.Similarity.EditDistance
import PlatformCatalog.Similarity.Matching
import PlatformCatalog.Similarity.Shingle

/-!
# Similarity scores

Ten ways to compare two texts. A score is one for equal texts and zero for
texts with nothing in common. Each is a quotient of counts, or a mean of
such quotients, taken in the order written here: in double precision by the
program, and in other numbers to reason about it.
-/

set_option autoImplicit false

namespace PlatformCatalog

inductive Algorithm where
  | levenshtein
  | damerauLevenshtein
  | optimalAlignment
  | commonSubsequence
  | jaro
  | jaroWinkler
  | cosine
  | jaccard
  | sorensenDice
  | qgram
  deriving DecidableEq, Repr

namespace Algorithm

def all : List Algorithm :=
  [.levenshtein, .damerauLevenshtein, .optimalAlignment, .commonSubsequence, .jaro, .jaroWinkler,
    .cosine, .jaccard, .sorensenDice, .qgram]

def name : Algorithm → String
  | .levenshtein => "Levenshtein"
  | .damerauLevenshtein => "DamerauLevenshtein"
  | .optimalAlignment => "OSADamerauLevenshtein"
  | .commonSubsequence => "Lcs"
  | .jaro => "Jaro"
  | .jaroWinkler => "JaroWinkler"
  | .cosine => "Cosine"
  | .jaccard => "Jaccard"
  | .sorensenDice => "SorensenDice"
  | .qgram => "Qgram"

def parse (s : String) : Option Algorithm :=
  if s = "" then some .jaro else all.find? fun a => a.name = s

/-- Numbers that scores are computed in. -/
class Arithmetic (K : Type) extends Add K, Sub K, Mul K, Div K, OfScientific K where
  ofCount : Nat → K
  root : K → K
  isAtMost : K → K → Bool
  isZero : K → Bool

instance : Arithmetic Float where
  ofCount := Nat.toFloat
  root := Float.sqrt
  isAtMost x y := decide (x ≤ y)
  isZero x := x == 0.0

open Arithmetic

variable {K : Type} [Arithmetic K]

def quotient (m n : Nat) : K := ofCount m / ofCount n

def longer (xs ys : List Char) : Nat := max xs.length ys.length

def nearness (distance : Nat) (xs ys : List Char) : K := 1.0 - quotient distance (longer xs ys)

def jaroScore (xs ys : List Char) : K :=
  let found := Matching.matchCount xs ys
  if found = 0 then 0.0
  else
    let m : K := ofCount found
    let t : K := ofCount (Matching.halfTranspositions xs ys) / 2.0
    (m / ofCount xs.length + m / ofCount ys.length + (m - t) / m) / 3.0

/-- A high score is raised in proportion to a common beginning of up to four characters. -/
def jaroWinklerScore (xs ys : List Char) : K :=
  let score : K := jaroScore xs ys
  if isAtMost score 0.7 then score
  else score + ofCount (Matching.commonStart 4 xs ys) * 0.1 * (1.0 - score)

def cosineScore (p q : Shingle.Profile Char) : K :=
  let scale : K := root (ofCount (Shingle.squares p)) * root (ofCount (Shingle.squares q))
  if isZero scale then 0.0 else ofCount (Shingle.dot p q) / scale

def jaccardScore (p q : Shingle.Profile Char) : K :=
  quotient (Shingle.common p q) (Shingle.union p q)

def sorensenDiceScore (p q : Shingle.Profile Char) : K :=
  2.0 * ofCount (Shingle.common p q) / ofCount (p.length + q.length)

def qgramScore (p q : Shingle.Profile Char) : K :=
  1.0 - quotient (Shingle.difference p q) (Shingle.total p + Shingle.total q)

def scoreOf (a : Algorithm) (xs ys : List Char) : K :=
  match a with
  | .levenshtein => nearness (EditDistance.levenshtein xs ys) xs ys
  | .damerauLevenshtein => nearness (EditDistance.damerau xs ys) xs ys
  | .optimalAlignment => nearness (EditDistance.optimalAlignment xs ys) xs ys
  | .commonSubsequence => quotient (Subsequence.commonLength xs ys) (longer xs ys)
  | .jaro => jaroScore xs ys
  | .jaroWinkler => jaroWinklerScore xs ys
  | .cosine => cosineScore (Shingle.profile xs) (Shingle.profile ys)
  | .jaccard => jaccardScore (Shingle.profile xs) (Shingle.profile ys)
  | .sorensenDice => sorensenDiceScore (Shingle.profile xs) (Shingle.profile ys)
  | .qgram => qgramScore (Shingle.profile xs) (Shingle.profile ys)

/-- Two empty texts are equal, and an empty one has nothing in common with any other. -/
def score (a : Algorithm) (s t : String) : K :=
  match s.toList, t.toList with
  | [], [] => 1.0
  | [], _ => 0.0
  | _, [] => 0.0
  | xs, ys => a.scoreOf xs ys

end Algorithm

end PlatformCatalog
