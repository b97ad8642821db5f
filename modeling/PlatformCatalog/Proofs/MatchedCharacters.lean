import Mathlib.Data.List.Zip
import PlatformCatalog.Proofs.GreedyMatching

/-!
# Matched characters

Both rows have equally many matched characters, so that the pass which
compares them never runs past the last place. Their number and the number of
transpositions do not depend on the order of the rows, and together they tell
whether the rows are equal.
-/

set_option autoImplicit false

namespace PlatformCatalog.Matching

variable {α : Type} [DecidableEq α] {places rest : List (Place α)} {xs ys : List α}

theorem countP_taken_of_take {x : α} {low high k : Nat}
    (h : take x low high k places = some rest) :
    rest.countP (·.taken) = places.countP (·.taken) + 1 := by
  obtain ⟨j, p, hp, ⟨_, _, hfree, _⟩, rfl, _⟩ := exists_of_take_eq_some h
  obtain ⟨hj, rfl⟩ := List.getElem?_eq_some_iff.mp hp
  rw [List.countP_set hj]
  simp [hfree]

theorem countP_taken_run (w i : Nat) (xs : List α) (places : List (Place α)) :
    (run w i xs places).2.countP (·.taken) =
      places.countP (·.taken) + (run w i xs places).1.length := by
  induction xs generalizing i places with
  | nil => rfl
  | cons x xs ih =>
    rw [run]
    split
    · next rest htake =>
      have hmore := countP_taken_of_take htake
      have hrest := ih (i + 1) rest
      change (run w (i + 1) xs rest).2.countP (·.taken) =
        places.countP (·.taken) + ((run w (i + 1) xs rest).1.length + 1)
      omega
    · exact ih (i + 1) places

theorem length_matchedRight (xs ys : List α) : (matchedRight xs ys).length = matchCount xs ys := by
  have hcount := countP_taken_run (window xs ys) 0 xs (ys.map (⟨·, false⟩))
  have hfree : (ys.map (Place.mk · false)).countP (·.taken) = 0 := by
    simp [List.countP_eq_zero]
  rw [matchedRight, List.length_map, ← List.countP_eq_length_filter, matching, hcount, hfree,
    Nat.zero_add]
  rfl

theorem matchedLeft_sublist (xs ys : List α) : (matchedLeft xs ys).Sublist xs := by
  obtain ⟨M, _, hleft, _⟩ := exists_isGreedy xs ys
  exact hleft ▸ select_sublist _ 0 xs

theorem matchedRight_sublist (xs ys : List α) : (matchedRight xs ys).Sublist ys :=
  matchedLeft_comm xs ys ▸ matchedLeft_sublist ys xs

theorem matchCount_comm (xs ys : List α) : matchCount ys xs = matchCount xs ys := by
  rw [matchCount, matchedLeft_comm, length_matchedRight]

theorem matchCount_le (xs ys : List α) : matchCount xs ys ≤ min xs.length ys.length := by
  have hright := (matchedRight_sublist xs ys).length_le
  rw [length_matchedRight] at hright
  exact Nat.le_min.mpr ⟨(matchedLeft_sublist xs ys).length_le, hright⟩

theorem halfTranspositions_comm (xs ys : List α) :
    halfTranspositions ys xs = halfTranspositions xs ys := by
  rw [halfTranspositions, halfTranspositions, matchedLeft_comm, ← matchedLeft_comm ys xs,
    ← List.zip_swap, List.countP_map]
  congr 1
  funext p
  simp [eq_comm]

theorem halfTranspositions_le (xs ys : List α) :
    halfTranspositions xs ys ≤ matchCount xs ys := by
  refine Nat.le_trans List.countP_le_length ?_
  rw [List.length_zip]
  exact Nat.min_le_left _ _

/-- The first taken place from number `k` on, with its number. There is none if `k` runs past the
last place. -/
def seek? (places : List (Place α)) (k : Nat) : Option (Nat × Place α) :=
  if h : k < places.length then
    if places[k].taken then some (k, places[k]) else seek? places (k + 1)
  else none
termination_by places.length - k

def secondPass? (places : List (Place α)) : Nat → List α → Option Nat
  | _, [] => some 0
  | k, x :: rest => do
    let (k, p) ← seek? places k
    let differences ← secondPass? places (k + 1) rest
    some (if x = p.character then differences else differences + 1)

omit [DecidableEq α] in
theorem exists_seek?_eq {k : Nat} {p : Place α}
    (h : (places.drop k).filter (·.taken) = p :: rest) :
    ∃ k', seek? places k = some (k', p) ∧ (places.drop (k' + 1)).filter (·.taken) = rest := by
  fun_induction seek? places k with
  | case1 k hk htaken =>
    rw [List.drop_eq_getElem_cons hk, List.filter_cons_of_pos htaken] at h
    obtain ⟨rfl, hrest⟩ := List.cons.inj h
    exact ⟨k, rfl, hrest⟩
  | case2 k hk hfree ih =>
    rw [List.drop_eq_getElem_cons hk, List.filter_cons_of_neg hfree] at h
    exact ih h
  | case3 k hk =>
    rw [List.drop_eq_nil_of_le (by omega)] at h
    cases h

theorem secondPass?_eq {k : Nat} (h : (places.drop k).filter (·.taken) = rest) {xs : List α}
    (hlength : xs.length ≤ rest.length) :
    secondPass? places k xs =
      some ((xs.zip (rest.map (·.character))).countP fun p => p.1 ≠ p.2) := by
  induction xs generalizing k rest with
  | nil => rfl
  | cons x xs ih =>
    cases rest with
    | nil => cases hlength
    | cons p rest =>
      obtain ⟨k', hseek, hrest⟩ := exists_seek?_eq h
      rw [secondPass?, hseek]
      simp only [Option.bind_eq_bind, Option.bind_some, ih hrest (Nat.le_of_succ_le_succ hlength),
        List.map_cons, List.zip_cons_cons, List.countP_cons]
      by_cases hx : x = p.character <;> simp [hx]

theorem matchedLeft_self (xs : List α) : matchedLeft xs xs = xs := by
  obtain ⟨M, hM, hleft, _⟩ := exists_isGreedy xs xs
  rw [hleft]
  apply select_eq_self
  intro i hi
  rw [Nat.zero_add] at hi
  exact ⟨i, (hM.unique (.self _ xs) i i).mpr ⟨rfl, hi⟩⟩

theorem matchCount_self (xs : List α) : matchCount xs xs = xs.length := by
  rw [matchCount, matchedLeft_self]

theorem halfTranspositions_self (xs : List α) : halfTranspositions xs xs = 0 := by
  rw [halfTranspositions, ← matchedLeft_comm, matchedLeft_self, List.countP_eq_zero]
  have hsame : List.Forall₂ Eq xs xs := by rw [List.forall₂_eq_eq_eq]
  rintro ⟨x, y⟩ hp
  simp [(List.forall₂_iff_zip.mp hsame).2 hp]

theorem eq_of_matched (hlength : xs.length = ys.length) (hall : matchCount xs ys = xs.length)
    (hnone : halfTranspositions xs ys = 0) : xs = ys := by
  have hleft := (matchedLeft_sublist xs ys).eq_of_length hall
  have hright : matchedRight xs ys = ys :=
    (matchedRight_sublist xs ys).eq_of_length (by rw [length_matchedRight, hall, hlength])
  rw [halfTranspositions, hleft, hright, List.countP_eq_zero] at hnone
  rw [← List.forall₂_eq_eq_eq, List.forall₂_iff_zip]
  exact ⟨hlength, fun hp => by simpa using hnone _ hp⟩

/-- The second pass finds a taken place for each matched character. The number of matches and of
half transpositions do not depend on the order of the rows, and rows are equal if and only if all
characters of both match and none is transposed. -/
theorem matches_compared (xs ys : List α) :
    secondPass? (matching xs ys).2 0 (matchedLeft xs ys) = some (halfTranspositions xs ys) ∧
      matchCount ys xs = matchCount xs ys ∧
      halfTranspositions ys xs = halfTranspositions xs ys ∧
      (matchCount xs ys = xs.length ∧ xs.length = ys.length ∧ halfTranspositions xs ys = 0 ↔
        xs = ys) := by
  refine ⟨?_, matchCount_comm xs ys, halfTranspositions_comm xs ys, ?_, ?_⟩
  · have hright := length_matchedRight xs ys
    rw [matchedRight, List.length_map] at hright
    exact secondPass?_eq rfl (Nat.le_of_eq hright.symm)
  · rintro ⟨hall, hlength, hnone⟩
    exact eq_of_matched hlength hall hnone
  · rintro rfl
    exact ⟨matchCount_self xs, rfl, halfTranspositions_self xs⟩

end PlatformCatalog.Matching
