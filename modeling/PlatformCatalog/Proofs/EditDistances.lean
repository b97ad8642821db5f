import Mathlib.Order.Bounds.Defs
import PlatformCatalog.Proofs.SwapTable

/-!
# What edit distances are

The first and the last distance are the lengths of shortest edit scripts,
without and with swaps. The one between allows more than the first and less
than the last.
-/

set_option autoImplicit false

namespace PlatformCatalog.EditDistance

variable {α : Type} [DecidableEq α]

theorem isLeast_leastCost (swaps : Bool) (xs ys : List α) :
    IsLeast {n | Edits swaps n xs ys} (leastCost (anywhere swaps) xs.reverse ys.reverse) := by
  have hleast : ∀ n, Edits swaps n xs ys →
      leastCost (anywhere swaps) xs.reverse ys.reverse ≤ n := fun n h =>
    leastCost_le_iff.mpr (.of_edits h.reverse)
  obtain ⟨m, hm, hscript⟩ :=
    (alignment_leastCost (anywhere swaps) xs.reverse ys.reverse).exists_edits
  have hscript := Edits.reverse_iff.mp hscript
  have heq : m = leastCost (anywhere swaps) xs.reverse ys.reverse :=
    Nat.le_antisymm hm (hleast m hscript)
  exact ⟨heq ▸ hscript, hleast⟩

/-- The first distance is the least number of insertions, deletions and substitutions that turn
one row into the other. -/
theorem levenshtein_isLeast (xs ys : List α) :
    IsLeast {n | Edits false n xs ys} (levenshtein xs ys) := by
  rw [levenshtein_eq]
  exact isLeast_leastCost false xs ys

def sub? (m n : Nat) : Option Nat := if n ≤ m then some (m - n) else none

/-- The cells of a row, as long as all subtractions have a result. -/
def openCells? (t : Table α) (x : α) (i : Nat) :
    Nat → Nat → Nat → List α → List Nat → Option (List Nat)
  | j, matched, left, y :: ys, diagonal :: up :: above => do
    let i' := t.lastRow y
    let rows ← (sub? i i').bind (sub? · 1)
    let columns ← (sub? j matched).bind (sub? · 1)
    let swap := t.cell i' matched + rows + 1 + columns
    let cell := min (min (min (diagonal + cost x y) (left + 1)) (up + 1)) swap
    let cells ← openCells? t x i (j + 1) (if x = y then j else matched) cell ys (up :: above)
    some (cell :: cells)
  | _, _, _, _, _ => some []

def openRow? (t : Table α) (border i : Nat) (x : α) (ys : List α) : Option (List Nat) := do
  let cells ← openCells? t x i 1 0 i ys ((t.rows.getD i []).drop 1)
  some (border :: i :: cells)

def openRows? (border : Nat) (ys : List α) : Nat → List α → Table α → Option (Table α)
  | _, [], t => some t
  | i, x :: xs, t => do
    let row ← openRow? t border i x ys
    openRows? border ys (i + 1) xs ⟨t.rows ++ [row], (x, i) :: t.seen⟩

def damerau? (xs ys : List α) : Option Nat := do
  let border := xs.length + ys.length
  let start : Table α :=
    ⟨[List.replicate (ys.length + 2) border, border :: firstRow 0 ys], []⟩
  let t ← openRows? border ys 1 xs start
  some (lastCell (t.rows.getLastD []))

theorem sub?_sub?_one {m n : Nat} (h : n < m) : (sub? m n).bind (sub? · 1) = some (m - n - 1) := by
  have hone : 1 ≤ m - n := by omega
  simp [sub?, Nat.le_of_lt h, hone]

theorem openCells?_eq {t : Table α} {i : Nat} (hrow : ∀ y, t.lastRow y < i) (x : α)
    {j matched : Nat} (hmatched : matched < j) (left : Nat) (ys : List α) (above : List Nat) :
    openCells? t x i j matched left ys above = some (openCells t x i j matched left ys above) := by
  fun_induction openCells t x i j matched left ys above with
  | case1 j matched left y ys diagonal up above i' swap cell ih =>
    have hnext : (if x = y then j else matched) < j + 1 := by
      split <;> omega
    rw [openCells?, sub?_sub?_one (hrow y), sub?_sub?_one hmatched]
    simp only [Option.bind_eq_bind, Option.bind_some]
    rw [ih hnext, Option.bind_some]
  | case2 j matched left ys above hend =>
    rw [openCells?]
    exact hend

theorem openRow?_eq {t : Table α} {i : Nat} (hrow : ∀ y, t.lastRow y < i)
    (border : Nat) (x : α) (ys : List α) :
    openRow? t border i x ys = some (openRow t border i x ys) := by
  rw [openRow?, openCells?_eq hrow x Nat.one_pos]
  rfl

theorem openRows?_eq (border : Nat) (ys : List α) {i : Nat} (xs : List α) {t : Table α}
    (hrow : ∀ y, t.lastRow y < i) :
    openRows? border ys i xs t = some (openRows border ys i xs t) := by
  induction xs generalizing i t with
  | nil => rfl
  | cons x xs ih =>
    have hnext : ∀ y, (Table.mk (t.rows ++ [openRow t border i x ys]) ((x, i) :: t.seen)).lastRow y
        < i + 1 := by
      intro y
      have hbefore := hrow y
      by_cases hxy : x = y
      · simp [Table.lastRow, hxy]
      · simp only [Table.lastRow, List.find?_cons, hxy, decide_false] at hbefore ⊢
        omega
    rw [openRows?, openRow?_eq hrow]
    exact ih hnext

theorem damerau?_eq (xs ys : List α) : damerau? xs ys = some (damerau xs ys) := by
  rw [damerau?]
  simp only [openRows?_eq _ _ xs (i := 1) (t := ⟨_, []⟩) fun _ => Nat.one_pos]
  rfl

/-- The last distance is the least number of insertions, deletions, substitutions and swaps of
neighbours that turn one row into the other, and no subtraction on the way to it goes below zero. -/
theorem damerau_isLeast (xs ys : List α) :
    IsLeast {n | Edits true n xs ys} (damerau xs ys) ∧ damerau? xs ys = some (damerau xs ys) := by
  constructor
  · rw [damerau_eq]
    exact isLeast_leastCost true xs ys
  · exact damerau?_eq xs ys

section

variable (xs ys : List α)

theorem damerau_le_optimalAlignment : damerau xs ys ≤ optimalAlignment xs ys := by
  rw [damerau_eq, optimalAlignment_eq]
  exact leastCost_mono (fun _ _ _ => rfl) _ _

theorem optimalAlignment_le_levenshtein : optimalAlignment xs ys ≤ levenshtein xs ys := by
  rw [optimalAlignment_eq, levenshtein_eq]
  exact leastCost_mono (fun _ _ h => absurd h Bool.false_ne_true) _ _

theorem levenshtein_le_max : levenshtein xs ys ≤ max xs.length ys.length := by
  have hmax := leastCost_le_max (anywhere false) xs.reverse ys.reverse
  rwa [← levenshtein_eq, List.length_reverse, List.length_reverse] at hmax

theorem optimalAlignment_le_max : optimalAlignment xs ys ≤ max xs.length ys.length :=
  (optimalAlignment_le_levenshtein xs ys).trans (levenshtein_le_max xs ys)

theorem damerau_le_max : damerau xs ys ≤ max xs.length ys.length :=
  (damerau_le_optimalAlignment xs ys).trans (optimalAlignment_le_max xs ys)

theorem max_sub_min_le_damerau :
    max xs.length ys.length - min xs.length ys.length ≤ damerau xs ys := by
  have hlength := (alignment_leastCost (anywhere true) xs.reverse ys.reverse).length_le
  rw [← damerau_eq, List.length_reverse, List.length_reverse] at hlength
  omega

theorem levenshtein_comm : levenshtein ys xs = levenshtein xs ys := by
  rw [levenshtein_eq, levenshtein_eq]
  exact leastCost_comm (fun _ _ h => h) _ _

theorem optimalAlignment_comm : optimalAlignment ys xs = optimalAlignment xs ys := by
  rw [optimalAlignment_eq, optimalAlignment_eq]
  exact leastCost_comm (fun _ _ h => h.symm) _ _

theorem damerau_comm : damerau ys xs = damerau xs ys := by
  rw [damerau_eq, damerau_eq]
  exact leastCost_comm (fun _ _ h => h) _ _

end

section

variable {xs ys : List α}

theorem leastCost_reverse_eq_zero_iff {across : List α → List α → Prop} :
    leastCost across xs.reverse ys.reverse = 0 ↔ xs = ys :=
  leastCost_eq_zero_iff.trans List.reverse_inj

theorem levenshtein_eq_zero_iff : levenshtein xs ys = 0 ↔ xs = ys := by
  rw [levenshtein_eq, leastCost_reverse_eq_zero_iff]

theorem optimalAlignment_eq_zero_iff : optimalAlignment xs ys = 0 ↔ xs = ys := by
  rw [optimalAlignment_eq, leastCost_reverse_eq_zero_iff]

theorem damerau_eq_zero_iff : damerau xs ys = 0 ↔ xs = ys := by
  rw [damerau_eq, leastCost_reverse_eq_zero_iff]

end

/-- The more swaps are allowed, the smaller is the distance. It is never above the length of the
longer row and never below the difference of the lengths, it does not depend on the order of the
rows, and it tells whether they are equal. -/
theorem distances_compared (xs ys : List α) :
    (damerau xs ys ≤ optimalAlignment xs ys ∧ optimalAlignment xs ys ≤ levenshtein xs ys ∧
        levenshtein xs ys ≤ max xs.length ys.length) ∧
      max xs.length ys.length - min xs.length ys.length ≤ damerau xs ys ∧
      (levenshtein ys xs = levenshtein xs ys ∧ optimalAlignment ys xs = optimalAlignment xs ys ∧
        damerau ys xs = damerau xs ys) ∧
      (levenshtein xs ys = 0 ↔ xs = ys) ∧ (optimalAlignment xs ys = 0 ↔ xs = ys) ∧
      (damerau xs ys = 0 ↔ xs = ys) := by
  refine ⟨⟨?_, ?_, ?_⟩, ?_, ⟨?_, ?_, ?_⟩, ?_, ?_, ?_⟩
  · exact damerau_le_optimalAlignment xs ys
  · exact optimalAlignment_le_levenshtein xs ys
  · exact levenshtein_le_max xs ys
  · exact max_sub_min_le_damerau xs ys
  · exact levenshtein_comm xs ys
  · exact optimalAlignment_comm xs ys
  · exact damerau_comm xs ys
  · exact levenshtein_eq_zero_iff
  · exact optimalAlignment_eq_zero_iff
  · exact damerau_eq_zero_iff

end PlatformCatalog.EditDistance
