import Mathlib.Data.List.GetD
import PlatformCatalog.Proofs.CostTables

/-!
# The table with swaps

The table for swaps across other characters keeps all its rows. The nearest
row and the nearest column to swap with are those where each of the two
characters was seen last; where one was not seen, the border of the table
keeps the swap from counting.
-/

set_option autoImplicit false

namespace PlatformCatalog.EditDistance

variable {α : Type} [DecidableEq α]

/-- The place of a character in a row that is read backwards, counted from the other end, or
zero. -/
def lastPlace (x : α) : List α → Nat
  | [] => 0
  | y :: b => if x = y then b.length + 1 else lastPlace x b

theorem lastPlace_cases (x : α) (b : List α) :
    (x ∉ b ∧ lastPlace x b = 0) ∨
      ∃ v b', b = v ++ x :: b' ∧ x ∉ v ∧ lastPlace x b = b'.length + 1 := by
  induction b with
  | nil => exact Or.inl ⟨List.not_mem_nil, rfl⟩
  | cons y b ih =>
    by_cases hxy : x = y
    · exact Or.inr ⟨[], b, by rw [hxy, List.nil_append], List.not_mem_nil, if_pos hxy⟩
    · have hplace : lastPlace x (y :: b) = lastPlace x b := if_neg hxy
      rcases ih with ⟨hb, hzero⟩ | ⟨v, b', rfl, hv, hb'⟩
      · exact Or.inl ⟨by simp [hxy, hb], hplace.trans hzero⟩
      · exact Or.inr ⟨y :: v, b', rfl, by simp [hxy, hv], hplace.trans hb'⟩

theorem lastPlace_le (x : α) (b : List α) : lastPlace x b ≤ b.length := by
  rcases lastPlace_cases x b with ⟨_, hzero⟩ | ⟨v, b', rfl, _, hplace⟩
  · omega
  · rw [hplace, List.length_append, List.length_cons]
    omega

def places : List α → List (α × Nat)
  | [] => []
  | x :: a => (x, a.length + 1) :: places a

theorem lastRow_places (rows : List (List Nat)) (y : α) (a : List α) :
    (Table.mk rows (places a)).lastRow y = lastPlace y a := by
  induction a with
  | nil => rfl
  | cons x a ih =>
    by_cases hxy : x = y
    · simp [Table.lastRow, places, lastPlace, hxy]
    · have hyx : y ≠ x := Ne.symm hxy
      simpa [Table.lastRow, places, lastPlace, hxy, hyx] using ih

section

variable (border : Nat) (ys : List α)

noncomputable def tableRow (a : List α) : List Nat :=
  border :: alongRow (leastCost (anywhere true) a) [] ys

noncomputable def tableRows : List α → List (List Nat)
  | [] => [List.replicate (ys.length + 2) border, tableRow border ys []]
  | x :: a => tableRows a ++ [tableRow border ys (x :: a)]

noncomputable def costTable (a : List α) : Table α := ⟨tableRows border ys a, places a⟩

theorem length_tableRows (a : List α) : (tableRows border ys a).length = a.length + 2 := by
  induction a with
  | nil => rfl
  | cons x a ih => rw [tableRows, List.length_append, ih]; rfl

theorem getD_tableRows {a a' : List α} (h : a' <:+ a) :
    (tableRows border ys a).getD (a'.length + 1) [] = tableRow border ys a' := by
  obtain ⟨u, rfl⟩ := h
  induction u with
  | nil =>
    cases a' with
    | nil => rfl
    | cons x a => simp [tableRows, length_tableRows, List.getD]
  | cons x u ih =>
    have hlt : a'.length + 1 < (tableRows border ys (u ++ a')).length := by
      rw [length_tableRows, List.length_append]
      omega
    rw [List.cons_append, tableRows, List.getD_append _ _ _ _ hlt, ih]

theorem getD_tableRows_zero (a : List α) :
    (tableRows border ys a).getD 0 [] = List.replicate (ys.length + 2) border := by
  induction a with
  | nil => rfl
  | cons x a ih => rw [tableRows, List.getD_append _ _ _ _ (by rw [length_tableRows]; omega), ih]

theorem getLastD_tableRows (a : List α) :
    (tableRows border ys a).getLastD [] = tableRow border ys a := by
  cases a with
  | nil => rfl
  | cons x a => simp [tableRows]

theorem cell_costTable {a a' b : List α} (ha : a' <:+ a) (hb : b.reverse <+: ys) :
    (costTable border ys a).cell (a'.length + 1) (b.length + 1) =
      leastCost (anywhere true) a' b := by
  obtain ⟨rest, rfl⟩ := hb
  have hcell := getElem?_alongRow (leastCost (anywhere true) a') [] b.reverse rest
  rw [List.length_reverse, List.reverse_reverse, List.append_nil] at hcell
  rw [Table.cell, costTable, getD_tableRows _ _ ha, tableRow, List.getD_cons_succ, List.getD, hcell]
  rfl

theorem cell_costTable_zero_left {j : Nat} (hj : j ≤ ys.length + 1) (a : List α) :
    (costTable border ys a).cell 0 j = border := by
  have hlt : j < ys.length + 2 := by omega
  rw [Table.cell, costTable, getD_tableRows_zero, List.getD, List.getElem?_replicate, if_pos hlt]
  rfl

theorem cell_costTable_zero_right {a a' : List α} (ha : a' <:+ a) :
    (costTable border ys a).cell (a'.length + 1) 0 = border := by
  rw [Table.cell, costTable, getD_tableRows _ _ ha, tableRow, List.getD_cons_zero]

end

section

variable (border : Nat)

/-- The value of a swap in the table is what it costs, or too much to count. -/
theorem leastCost_openCell (x y : α) (a b rest : List α)
    (hborder : a.length + b.length + 2 ≤ border) :
    leastCost (anywhere true) (x :: a) (y :: b) =
      min (min (min (leastCost (anywhere true) a b + cost x y)
          (leastCost (anywhere true) (x :: a) b + 1)) (leastCost (anywhere true) a (y :: b) + 1))
        ((costTable border (b.reverse ++ y :: rest) a).cell (lastPlace y a) (lastPlace x b) +
          (a.length + 1 - lastPlace y a - 1) + 1 + (b.length + 1 - lastPlace x b - 1)) := by
  have hcost := leastCost_le_iff.mpr
    (alignment_length_add_length (anywhere true) (x :: a) (y :: b))
  simp only [List.length_cons] at hcost
  rcases lastPlace_cases y a with ⟨hy, hrow⟩ | ⟨u, a', rfl, hu, hrow⟩
  · have hlength : lastPlace x b ≤ (b.reverse ++ y :: rest).length + 1 := by
      have hplace := lastPlace_le x b
      rw [List.length_append, List.length_reverse]
      omega
    rw [hrow, cell_costTable_zero_left _ _ hlength]
    refine leastCost_cons_cons ?_ fun u a' v b' ha _ _ => absurd (by simp [ha]) hy
    omega
  · have ha : a' <:+ u ++ y :: a' := ⟨u ++ [y], by simp⟩
    rcases lastPlace_cases x b with ⟨hx, hcolumn⟩ | ⟨v, b', rfl, hv, hcolumn⟩
    · rw [hrow, hcolumn, cell_costTable_zero_right _ _ ha]
      refine leastCost_cons_cons ?_ fun u a' v b' _ hb _ => absurd (by simp [hb]) hx
      omega
    · have hb : b'.reverse <+: (v ++ x :: b').reverse ++ y :: rest :=
        ⟨x :: v.reverse ++ y :: rest, by simp⟩
      have hrows : (u ++ y :: a').length + 1 - (a'.length + 1) - 1 = u.length := by
        rw [List.length_append, List.length_cons]
        omega
      have hcolumns : (v ++ x :: b').length + 1 - (b'.length + 1) - 1 = v.length := by
        rw [List.length_append, List.length_cons]
        omega
      rw [leastCost_anywhere hu hv, hrow, hcolumn, cell_costTable _ _ ha hb, hrows, hcolumns]
      omega

theorem openCells_eq (x : α) (a b ys : List α)
    (hborder : a.length + b.length + ys.length + 1 ≤ border) :
    openCells (costTable border (b.reverse ++ ys) a) x (a.length + 1) (b.length + 1) (lastPlace x b)
        (leastCost (anywhere true) (x :: a) b) ys (alongRow (leastCost (anywhere true) a) b ys) =
      (alongRow (leastCost (anywhere true) (x :: a)) b ys).tail := by
  induction ys generalizing b with
  | nil => rfl
  | cons y ys ih =>
    have hrest := ih (y :: b) (by simp at hborder ⊢; omega)
    have hmatched : (if x = y then b.length + 1 else lastPlace x b) = lastPlace x (y :: b) := rfl
    have hcolumn : b.length + 1 + 1 = (y :: b).length + 1 := rfl
    have hcell := leastCost_openCell border x y a b ys (by simp at hborder; omega)
    rw [alongRow_eq_cons, List.reverse_cons, List.append_assoc, List.singleton_append] at hrest
    rw [alongRow, alongRow_eq_cons _ (y :: b), openCells, costTable, lastRow_places, ← costTable,
      ← hcell, hmatched, hcolumn, hrest, alongRow, List.tail_cons, ← alongRow_eq_cons]

theorem openRow_eq (x : α) (a ys : List α) (hborder : a.length + ys.length + 1 ≤ border) :
    openRow (costTable border ys a) border (a.length + 1) x ys = tableRow border ys (x :: a) := by
  have hcells := openCells_eq border x a [] ys (by simpa using hborder)
  have hfirst : leastCost (anywhere true) (x :: a) [] = a.length + 1 := leastCost_nil_right (x :: a)
  have habove : (costTable border ys a).rows.getD (a.length + 1) [] = tableRow border ys a :=
    getD_tableRows border ys (List.suffix_refl a)
  rw [hfirst] at hcells
  rw [openRow, habove, tableRow, tableRow, List.drop_one, List.tail_cons,
    alongRow_eq_cons (leastCost (anywhere true) (x :: a)), hfirst, ← hcells]
  rfl

theorem openRows_eq (a xs ys : List α) (hborder : a.length + xs.length + ys.length ≤ border) :
    openRows border ys (a.length + 1) xs (costTable border ys a) =
      costTable border ys (xs.reverse ++ a) := by
  induction xs generalizing a with
  | nil => rfl
  | cons x xs ih =>
    have hrest := ih (x :: a) (by simp at hborder ⊢; omega)
    rw [openRows, openRow_eq border x a ys (by simp at hborder; omega), List.reverse_cons,
      List.append_assoc, List.singleton_append, ← hrest]
    rfl

theorem damerau_eq (xs ys : List α) :
    damerau xs ys = leastCost (anywhere true) xs.reverse ys.reverse := by
  have hfirst := firstRow_eq (anywhere true) [] ys
  have hrows := openRows_eq (xs.length + ys.length) [] xs ys (by simp)
  rw [List.length_nil, costTable, tableRows, tableRow, ← hfirst, List.length_nil, places,
    List.append_nil] at hrows
  have hlast := lastCell_alongRow (leastCost (anywhere true) xs.reverse) [] ys
  rw [List.append_nil, alongRow_eq_cons, lastCell, List.getLastD_cons] at hlast
  simp only [damerau, hrows]
  rw [costTable, getLastD_tableRows, tableRow, alongRow_eq_cons, lastCell, List.getLastD_cons,
    List.getLastD_cons, hlast]

end

end PlatformCatalog.EditDistance
