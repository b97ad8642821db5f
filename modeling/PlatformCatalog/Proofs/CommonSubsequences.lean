import Mathlib.Order.Bounds.Defs
import PlatformCatalog.Proofs.CostTables
import PlatformCatalog.Similarity.EditDistance

/-!
# Longest common subsequences

What the table ends with is the length of a longest row that is a subsequence
of both rows. The rows are read backwards on the way, so that each row of the
table belongs to one beginning of the first of them.
-/

set_option autoImplicit false

namespace PlatformCatalog.Subsequence

open EditDistance (alongRow alongRow_eq_cons lastCell lastCell_alongRow)

variable {α : Type} {a b s : List α} {x y : α}

def commonLengths (a b : List α) : Set Nat :=
  {n | ∃ s : List α, s.length = n ∧ s.Sublist a ∧ s.Sublist b}

noncomputable def longest (a b : List α) : Nat := sSup (commonLengths a b)

theorem isGreatest_longest (a b : List α) : IsGreatest (commonLengths a b) (longest a b) := by
  have hempty : 0 ∈ commonLengths a b := ⟨[], rfl, List.nil_sublist a, List.nil_sublist b⟩
  have hbounded : BddAbove (commonLengths a b) := by
    refine ⟨a.length, ?_⟩
    rintro n ⟨s, rfl, hs, _⟩
    exact hs.length_le
  exact ⟨Nat.sSup_mem ⟨0, hempty⟩ hbounded, fun n hn => le_csSup hbounded hn⟩

theorem length_le_longest (ha : s.Sublist a) (hb : s.Sublist b) : s.length ≤ longest a b :=
  (isGreatest_longest a b).2 ⟨s, rfl, ha, hb⟩

theorem exists_longest (a b : List α) :
    ∃ s : List α, s.length = longest a b ∧ s.Sublist a ∧ s.Sublist b :=
  (isGreatest_longest a b).1

theorem longest_comm (a b : List α) : longest b a = longest a b := by
  simp only [longest, commonLengths, and_comm]

theorem longest_le_length (a b : List α) : longest a b ≤ a.length := by
  obtain ⟨s, hs, ha, _⟩ := exists_longest a b
  exact hs ▸ ha.length_le

theorem longest_self (a : List α) : longest a a = a.length :=
  Nat.le_antisymm (longest_le_length a a)
    (length_le_longest (List.Sublist.refl a) (List.Sublist.refl a))

theorem commonLengths_reverse (a b : List α) :
    commonLengths a.reverse b.reverse = commonLengths a b := by
  ext n
  constructor
  · rintro ⟨s, rfl, ha, hb⟩
    exact ⟨s.reverse, List.length_reverse, List.reverse_sublist.mp (by simpa using ha),
      List.reverse_sublist.mp (by simpa using hb)⟩
  · rintro ⟨s, rfl, ha, hb⟩
    exact ⟨s.reverse, List.length_reverse, ha.reverse, hb.reverse⟩

theorem longest_nil_left (b : List α) : longest [] b = 0 :=
  Nat.le_zero.mp (longest_le_length [] b)

theorem longest_nil_right (a : List α) : longest a [] = 0 :=
  (longest_comm [] a).trans (longest_nil_left a)

/-- At most the first character of a common subsequence lies outside the rests of the two rows, so
that nothing is lost when equal first characters are always taken. -/
theorem longest_cons_self (x : α) (a b : List α) :
    longest (x :: a) (x :: b) = longest a b + 1 := by
  apply Nat.le_antisymm
  · obtain ⟨s, hs, ha, hb⟩ := exists_longest (x :: a) (x :: b)
    have hrest : s.tail.length ≤ longest a b := length_le_longest ha.tail hb.tail
    rw [List.length_tail] at hrest
    omega
  · obtain ⟨s, hs, ha, hb⟩ := exists_longest a b
    have hmore := length_le_longest (ha.cons_cons x) (hb.cons_cons x)
    rwa [List.length_cons, hs] at hmore

theorem longest_cons_of_ne (hxy : x ≠ y) (a b : List α) :
    longest (x :: a) (y :: b) = max (longest a (y :: b)) (longest (x :: a) b) := by
  apply Nat.le_antisymm
  · obtain ⟨s, hs, ha, hb⟩ := exists_longest (x :: a) (y :: b)
    rw [← hs]
    rcases List.sublist_cons_iff.mp ha with hskip | ⟨rest, rfl, hrest⟩
    · exact le_max_of_le_left (length_le_longest hskip hb)
    · rcases List.sublist_cons_iff.mp hb with hskip | ⟨_, heq, _⟩
      · exact le_max_of_le_right (length_le_longest ha hskip)
      · exact absurd (List.cons.inj heq).1 hxy
  · obtain ⟨s, hs, ha, hb⟩ := exists_longest a (y :: b)
    obtain ⟨t, ht, ha', hb'⟩ := exists_longest (x :: a) b
    rw [← hs, ← ht]
    exact max_le (length_le_longest (ha.cons x) hb) (length_le_longest ha' (hb'.cons y))

theorem firstRow_eq (b ys : List α) :
    List.replicate (ys.length + 1) 0 = alongRow (longest []) b ys := by
  induction ys generalizing b with
  | nil => rw [alongRow, longest_nil_left]; rfl
  | cons y ys ih => rw [alongRow, longest_nil_left, ← ih (y :: b)]; rfl

variable [DecidableEq α]

theorem cells_eq (x : α) (a b ys : List α) :
    cells x (longest (x :: a) b) ys (alongRow (longest a) b ys) =
      (alongRow (longest (x :: a)) b ys).tail := by
  induction ys generalizing b with
  | nil => rfl
  | cons y ys ih =>
    have hcell : (if x = y then longest a b + 1 else max (longest a (y :: b)) (longest (x :: a) b))
        = longest (x :: a) (y :: b) := by
      split
      · next hxy => rw [hxy, longest_cons_self]
      · next hxy => rw [longest_cons_of_ne hxy]
    have hrest := ih (y :: b)
    rw [alongRow_eq_cons] at hrest
    rw [alongRow, alongRow_eq_cons _ (y :: b), cells, hcell, hrest, alongRow, List.tail_cons,
      ← alongRow_eq_cons]

theorem row_eq (x : α) (a ys : List α) :
    row x ys (alongRow (longest a) [] ys) = alongRow (longest (x :: a)) [] ys := by
  rw [row, ← longest_nil_right (x :: a), cells_eq, ← alongRow_eq_cons]

/-- Each step along the first row fills the row of one more of its beginnings. -/
theorem foldl_row_eq (a xs ys : List α) :
    xs.foldl (fun above x => row x ys above) (alongRow (longest a) [] ys) =
      alongRow (longest (xs.reverse ++ a)) [] ys := by
  induction xs generalizing a with
  | nil => rfl
  | cons x xs ih =>
    rw [List.foldl_cons, row_eq, ih, List.reverse_cons, List.append_assoc, List.singleton_append]

theorem commonLength_eq (xs ys : List α) : commonLength xs ys = longest xs ys := by
  have hlast := lastCell_alongRow (longest xs.reverse) [] ys
  rw [List.append_nil] at hlast
  rw [commonLength, rows, firstRow_eq [] ys, foldl_row_eq, List.append_nil, ← lastCell, hlast,
    longest, commonLengths_reverse, ← longest]

theorem commonLength_comm (xs ys : List α) : commonLength ys xs = commonLength xs ys := by
  rw [commonLength_eq, commonLength_eq, longest_comm]

theorem commonLength_le_length (xs ys : List α) : commonLength xs ys ≤ xs.length :=
  commonLength_eq xs ys ▸ longest_le_length xs ys

theorem commonLength_self (xs : List α) : commonLength xs xs = xs.length := by
  rw [commonLength_eq, longest_self]

/-- Some row as long as the table says is a subsequence of both rows, and no longer one is. -/
theorem isGreatest_commonLength (xs ys : List α) :
    IsGreatest {n | ∃ s : List α, s.length = n ∧ s.Sublist xs ∧ s.Sublist ys}
      (commonLength xs ys) := by
  rw [commonLength_eq]
  exact isGreatest_longest xs ys

example : commonLength "kitten".toList "sitting".toList = 4 := by decide

end PlatformCatalog.Subsequence
