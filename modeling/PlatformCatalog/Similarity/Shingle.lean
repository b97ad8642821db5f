/-!
# Shingles

The pairs of neighbouring characters of a text, each with the number of
times it occurs. A text of one character is its own only shingle.
-/

set_option autoImplicit false

namespace PlatformCatalog.Shingle

variable {α : Type} [DecidableEq α]

def pairs : List α → List (List α)
  | x :: y :: rest => [x, y] :: pairs (y :: rest)
  | _ => []

def ofChars (xs : List α) : List (List α) :=
  if xs.length < 2 then [xs] else pairs xs

/-- How often each shingle occurs, one entry for each. -/
abbrev Profile (α : Type) := List (List α × Nat)

def add (s : List α) : Profile α → Profile α
  | [] => [(s, 1)]
  | (t, n) :: rest => if s = t then (t, n + 1) :: rest else (t, n) :: add s rest

def profile (xs : List α) : Profile α := (ofChars xs).foldl (fun p s => add s p) []

def count (s : List α) (p : Profile α) : Nat :=
  match p.find? (·.1 = s) with
  | some e => e.2
  | none => 0

def has (s : List α) (p : Profile α) : Bool := p.any (·.1 = s)

def common (p q : Profile α) : Nat := p.countP fun e => has e.1 q

def union (p q : Profile α) : Nat := p.length + q.length - common p q

def sumBy (f : List α × Nat → Nat) : Profile α → Nat
  | [] => 0
  | e :: rest => f e + sumBy f rest

def dot (p q : Profile α) : Nat := sumBy (fun e => e.2 * count e.1 q) p

def squares (p : Profile α) : Nat := sumBy (fun e => e.2 * e.2) p

def total (p : Profile α) : Nat := sumBy (·.2) p

def difference (p q : Profile α) : Nat :=
  sumBy (fun e => (e.2 - count e.1 q) + (count e.1 q - e.2)) p +
    total (q.filter fun e => !has e.1 p)

end PlatformCatalog.Shingle
