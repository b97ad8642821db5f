import PlatformCatalog.Proofs.LeastCosts

/-!
# Tables of least costs

A row of a table holds what it costs least to turn one beginning of the first
row of characters into each beginning of the second one. Both tables that
keep few rows are filled so.
-/

set_option autoImplicit false

namespace PlatformCatalog.EditDistance

variable {α : Type}

/-- A function of each beginning of a row, read backwards. `b` is the beginning before `ys`. -/
def alongRow (f : List α → Nat) : List α → List α → List Nat
  | b, [] => [f b]
  | b, y :: ys => f b :: alongRow f (y :: b) ys

section

variable (f : List α → Nat) (b ys : List α)

theorem alongRow_eq_cons : alongRow f b ys = f b :: (alongRow f b ys).tail := by
  cases ys <;> rfl

theorem getElem?_alongRow (before after : List α) :
    (alongRow f b (before ++ after))[before.length]? = some (f (before.reverse ++ b)) := by
  induction before generalizing b with
  | nil => rw [List.nil_append, alongRow_eq_cons]; rfl
  | cons y before ih => simpa [alongRow] using ih (y :: b)

theorem lastCell_alongRow : lastCell (alongRow f b ys) = f (ys.reverse ++ b) := by
  induction ys generalizing b with
  | nil => rfl
  | cons y ys ih =>
    have hrest := ih (y :: b)
    rw [lastCell, alongRow_eq_cons, List.getLastD_cons] at hrest
    rw [lastCell, alongRow, alongRow_eq_cons, List.getLastD_cons, List.getLastD_cons, hrest,
      List.reverse_cons, List.append_assoc, List.singleton_append]

end

variable [DecidableEq α]

theorem firstRow_eq (across : List α → List α → Prop) (b ys : List α) :
    firstRow b.length ys = alongRow (leastCost across []) b ys := by
  induction ys generalizing b with
  | nil => rw [firstRow, alongRow, leastCost_nil_left]
  | cons y ys ih => rw [firstRow, alongRow, leastCost_nil_left, ← ih (y :: b), List.length_cons]

theorem plainCells_eq (x : α) (a b ys : List α) :
    plainCells x (leastCost (anywhere false) (x :: a) b) ys
        (alongRow (leastCost (anywhere false) a) b ys) =
      (alongRow (leastCost (anywhere false) (x :: a)) b ys).tail := by
  induction ys generalizing b with
  | nil => rfl
  | cons y ys ih =>
    have hrest := ih (y :: b)
    rw [alongRow_eq_cons] at hrest
    rw [alongRow, alongRow_eq_cons _ (y :: b), plainCells, ← leastCost_unswapped, hrest, alongRow,
      List.tail_cons, ← alongRow_eq_cons]

theorem plainRow_eq (x : α) (a ys : List α) :
    plainRow x ys (a.length + 1) (alongRow (leastCost (anywhere false) a) [] ys) =
      alongRow (leastCost (anywhere false) (x :: a)) [] ys := by
  have hfirst : a.length + 1 = leastCost (anywhere false) (x :: a) [] :=
    (leastCost_nil_right (x :: a)).symm
  rw [plainRow, hfirst, plainCells_eq, ← alongRow_eq_cons]

theorem plainRows_eq (a xs ys : List α) :
    plainRows ys (a.length + 1) xs (alongRow (leastCost (anywhere false) a) [] ys) =
      alongRow (leastCost (anywhere false) (xs.reverse ++ a)) [] ys := by
  induction xs generalizing a with
  | nil => rfl
  | cons x xs ih =>
    have hrest := ih (x :: a)
    rw [plainRows, plainRow_eq, List.reverse_cons, List.append_assoc, List.singleton_append,
      ← hrest]
    rfl

theorem levenshtein_eq (xs ys : List α) :
    levenshtein xs ys = leastCost (anywhere false) xs.reverse ys.reverse := by
  have hfirst := firstRow_eq (anywhere false) [] ys
  have hrows := plainRows_eq [] xs ys
  rw [List.length_nil] at hfirst hrows
  rw [levenshtein, hfirst, hrows, lastCell_alongRow, List.append_nil, List.append_nil]

noncomputable def aboveRow (a ys : List α) : Option (Above α) :=
  match a with
  | [] => none
  | x :: a => some ⟨x, alongRow (leastCost adjacent a) [] ys⟩

theorem swapped_eq (x y : α) (a b ys : List α) :
    swapped x y b.head? (aboveRow a (b.reverse ++ y :: ys)) (b.length - 1) = lastSwap x y a b := by
  cases b with
  | nil => cases a <;> rfl
  | cons y' b =>
    cases a with
    | nil => rfl
    | cons x' a =>
      have hcell := getElem?_alongRow (leastCost adjacent a) [] b.reverse (y' :: y :: ys)
      rw [List.length_reverse, List.reverse_reverse, List.append_nil] at hcell
      simp [swapped, aboveRow, lastSwap, hcell]

theorem alignedCells_eq (x : α) (a b ys : List α) :
    alignedCells x (aboveRow a (b.reverse ++ ys)) b.head? (b.length - 1)
        (leastCost adjacent (x :: a) b) ys (alongRow (leastCost adjacent a) b ys) =
      (alongRow (leastCost adjacent (x :: a)) b ys).tail := by
  induction ys generalizing b with
  | nil => rfl
  | cons y ys ih =>
    have hrest := ih (y :: b)
    have hcolumn : (if b.head?.isSome then b.length - 1 + 1 else b.length - 1) =
        (y :: b).length - 1 := by
      cases b <;> simp
    rw [alongRow_eq_cons, List.reverse_cons, List.append_assoc, List.singleton_append] at hrest
    rw [alongRow, alongRow_eq_cons _ (y :: b), alignedCells, swapped_eq, ← leastCost_adjacent,
      hcolumn, ← List.head?_cons (a := y) (l := b), hrest, alongRow, List.tail_cons,
      ← alongRow_eq_cons]

theorem alignedRow_eq (x : α) (a ys : List α) :
    alignedRow x ys (a.length + 1) (alongRow (leastCost adjacent a) [] ys) (aboveRow a ys) =
      alongRow (leastCost adjacent (x :: a)) [] ys := by
  have hfirst : a.length + 1 = leastCost adjacent (x :: a) [] :=
    (leastCost_nil_right (x :: a)).symm
  have hcells := alignedCells_eq x a [] ys
  rw [alignedRow, hfirst, alongRow_eq_cons (leastCost adjacent (x :: a)), ← hcells]
  rfl

theorem alignedRows_eq (a xs ys : List α) :
    alignedRows ys (a.length + 1) xs (alongRow (leastCost adjacent a) [] ys) (aboveRow a ys) =
      alongRow (leastCost adjacent (xs.reverse ++ a)) [] ys := by
  induction xs generalizing a with
  | nil => rfl
  | cons x xs ih =>
    have hrest := ih (x :: a)
    rw [alignedRows, alignedRow_eq, List.reverse_cons, List.append_assoc, List.singleton_append,
      ← hrest]
    rfl

theorem optimalAlignment_eq (xs ys : List α) :
    optimalAlignment xs ys = leastCost adjacent xs.reverse ys.reverse := by
  have hfirst := firstRow_eq adjacent [] ys
  have hrows := alignedRows_eq [] xs ys
  rw [List.length_nil] at hfirst hrows
  rw [aboveRow] at hrows
  rw [optimalAlignment, hfirst, hrows, lastCell_alongRow, List.append_nil, List.append_nil]

end PlatformCatalog.EditDistance
