/-!
# Characters in common

Two rows of characters are matched by taking the characters of the first one
in order, each with the first free equal character of the second one within
a window around its place. The matched characters of the two rows, in order,
are then compared for transpositions.
-/

set_option autoImplicit false

namespace PlatformCatalog.Matching

variable {α : Type} [DecidableEq α]

structure Place (α : Type) where
  character : α
  taken : Bool

def window (xs ys : List α) : Nat := max xs.length ys.length / 2 - 1

/-- Takes the first free place with the character, from `low` and below `high`, where the first
place given is number `j`. -/
def take (x : α) (low high : Nat) : Nat → List (Place α) → Option (List (Place α))
  | _, [] => none
  | j, p :: ps =>
    if low ≤ j ∧ j < high ∧ p.taken = false ∧ x = p.character then
      some (⟨p.character, true⟩ :: ps)
    else (take x low high (j + 1) ps).map (p :: ·)

def run (w : Nat) : Nat → List α → List (Place α) → List α × List (Place α)
  | _, [], places => ([], places)
  | i, x :: xs, places =>
    match take x (i - w) (i + w + 1) 0 places with
    | some places =>
      let (matched, places) := run w (i + 1) xs places
      (x :: matched, places)
    | none => run w (i + 1) xs places

def matching (xs ys : List α) : List α × List (Place α) :=
  run (window xs ys) 0 xs (ys.map (⟨·, false⟩))

def matchedLeft (xs ys : List α) : List α := (matching xs ys).1

def matchedRight (xs ys : List α) : List α :=
  ((matching xs ys).2.filter (·.taken)).map (·.character)

def matchCount (xs ys : List α) : Nat := (matchedLeft xs ys).length

def halfTranspositions (xs ys : List α) : Nat :=
  ((matchedLeft xs ys).zip (matchedRight xs ys)).countP fun p => p.1 ≠ p.2

def commonStart (most : Nat) (xs ys : List α) : Nat :=
  (((xs.zip ys).take most).takeWhile fun p => p.1 = p.2).length

end PlatformCatalog.Matching
