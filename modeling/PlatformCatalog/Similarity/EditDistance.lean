/-!
# Edit distances

Three distances between rows of characters, each computed cell by cell along
the rows of a table. A cell is filled from its neighbours in the row before
and from the cell to its left. The distances differ in what they allow on
top of insertion, deletion and substitution: nothing, a swap of neighbours
that are not edited again, or a swap around which edits go on. The length of a
longest common subsequence is computed in a table like theirs.
-/

set_option autoImplicit false

namespace PlatformCatalog.EditDistance

variable {α : Type} [DecidableEq α]

def cost (x y : α) : Nat := if x = y then 0 else 1

def firstRow (start : Nat) : List α → List Nat
  | [] => [start]
  | _ :: rest => start :: firstRow (start + 1) rest

def lastCell (row : List Nat) : Nat := row.getLastD 0

def plainCells (x : α) : Nat → List α → List Nat → List Nat
  | left, y :: ys, diagonal :: up :: above =>
    let cell := min (min (diagonal + cost x y) (up + 1)) (left + 1)
    cell :: plainCells x cell ys (up :: above)
  | _, _, _ => []

def plainRow (x : α) (ys : List α) (first : Nat) (above : List Nat) : List Nat :=
  first :: plainCells x first ys above

def plainRows (ys : List α) : Nat → List α → List Nat → List Nat
  | _, [], row => row
  | first, x :: xs, row => plainRows ys (first + 1) xs (plainRow x ys first row)

def levenshtein (xs ys : List α) : Nat := lastCell (plainRows ys 1 xs (firstRow 0 ys))

structure Above (α : Type) where
  character : α
  row : List Nat

def swapped (x y : α) (before : Option α) (above : Option (Above α)) (column : Nat) : Option Nat :=
  match before, above with
  | some y', some u => if x = y' ∧ u.character = y then (u.row[column]?).map (· + 1) else none
  | _, _ => none

def minWith (n : Nat) : Option Nat → Nat
  | some m => min n m
  | none => n

/-- The cells of a row right of `left`. `before` is the character of the column to the left, and
`column` the place of the cell two columns to the left. -/
def alignedCells (x : α) (above₂ : Option (Above α)) :
    Option α → Nat → Nat → List α → List Nat → List Nat
  | before, column, left, y :: ys, diagonal :: up :: above =>
    let plain := min (min (up + 1) (left + 1)) (diagonal + cost x y)
    let cell := minWith plain (swapped x y before above₂ column)
    cell :: alignedCells x above₂ (some y) (if before.isSome then column + 1 else column) cell ys
      (up :: above)
  | _, _, _, _, _ => []

def alignedRow (x : α) (ys : List α) (first : Nat) (above : List Nat)
    (above₂ : Option (Above α)) : List Nat :=
  first :: alignedCells x above₂ none 0 first ys above

def alignedRows (ys : List α) : Nat → List α → List Nat → Option (Above α) → List Nat
  | _, [], row, _ => row
  | first, x :: xs, row, above₂ =>
    alignedRows ys (first + 1) xs (alignedRow x ys first row above₂) (some ⟨x, row⟩)

/-- The distance in which no two neighbours are swapped and edited again. -/
def optimalAlignment (xs ys : List α) : Nat :=
  lastCell (alignedRows ys 1 xs (firstRow 0 ys) none)

/-- The table has a border of cells so large that no path leads over it. `rows` holds it from the
border on, and `seen` the last row of each character. -/
structure Table (α : Type) where
  rows : List (List Nat)
  seen : List (α × Nat)

namespace Table

def cell (t : Table α) (i j : Nat) : Nat := (t.rows.getD i []).getD j 0

def lastRow (t : Table α) (y : α) : Nat :=
  match t.seen.find? (·.1 = y) with
  | some p => p.2
  | none => 0

end Table

/-- The cells of row `i` right of `left`, from column `j` on. `matched` is the last column before
them that holds the row's own character. -/
def openCells (t : Table α) (x : α) (i : Nat) : Nat → Nat → Nat → List α → List Nat → List Nat
  | j, matched, left, y :: ys, diagonal :: up :: above =>
    let i' := t.lastRow y
    let swap := t.cell i' matched + (i - i' - 1) + 1 + (j - matched - 1)
    let cell := min (min (min (diagonal + cost x y) (left + 1)) (up + 1)) swap
    cell :: openCells t x i (j + 1) (if x = y then j else matched) cell ys (up :: above)
  | _, _, _, _, _ => []

def openRow (t : Table α) (border i : Nat) (x : α) (ys : List α) : List Nat :=
  border :: i :: openCells t x i 1 0 i ys ((t.rows.getD i []).drop 1)

def openRows (border : Nat) (ys : List α) : Nat → List α → Table α → Table α
  | _, [], t => t
  | i, x :: xs, t =>
    openRows border ys (i + 1) xs ⟨t.rows ++ [openRow t border i x ys], (x, i) :: t.seen⟩

/-- The distance in which swapped neighbours may be edited before and after. -/
def damerau (xs ys : List α) : Nat :=
  let border := xs.length + ys.length
  let start : Table α :=
    ⟨[List.replicate (ys.length + 2) border, border :: firstRow 0 ys], []⟩
  lastCell ((openRows border ys 1 xs start).rows.getLastD [])

end PlatformCatalog.EditDistance

namespace PlatformCatalog.Subsequence

variable {α : Type} [DecidableEq α]

def cells (x : α) : Nat → List α → List Nat → List Nat
  | left, y :: ys, diagonal :: up :: above =>
    let cell := if x = y then diagonal + 1 else max up left
    cell :: cells x cell ys (up :: above)
  | _, _, _ => []

def row (x : α) (ys : List α) (above : List Nat) : List Nat := 0 :: cells x 0 ys above

def rows (ys : List α) (xs : List α) : List Nat :=
  xs.foldl (fun above x => row x ys above) (List.replicate (ys.length + 1) 0)

def commonLength (xs ys : List α) : Nat := (rows ys xs).getLastD 0

end PlatformCatalog.Subsequence
