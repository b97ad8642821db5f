import Mathlib.Analysis.Real.Sqrt
import PlatformCatalog.Proofs.CommonSubsequences
import PlatformCatalog.Proofs.EditDistances
import PlatformCatalog.Proofs.MatchedCharacters
import PlatformCatalog.Proofs.ShingleProfiles
import PlatformCatalog.Similarity.Algorithm

/-!
# Exact scores

The scores of two texts computed in real numbers, where a division by zero
has no result. All of them have one, between zero and one, that does not
depend on the order of the texts and is one for equal texts.
-/

set_option autoImplicit false

namespace PlatformCatalog.Algorithm

/-- A real number, if there was no division by zero on the way to it. -/
abbrev Exact := Option ℝ

namespace Exact

open Classical in
noncomputable instance : Arithmetic Exact where
  add x y := do some ((← x) + (← y))
  sub x y := do some ((← x) - (← y))
  mul x y := do some ((← x) * (← y))
  div x y := do
    let r ← x
    let s ← y
    if s = 0 then none else some (r / s)
  ofScientific m s e := some (OfScientific.ofScientific m s e)
  ofCount n := some n
  root x := x.map Real.sqrt
  isAtMost x y := decide (∃ r s, x = some r ∧ y = some s ∧ r ≤ s)
  isZero x := decide (x = some 0)

variable {s : ℝ}

theorem add_eq (r s : ℝ) : (some r : Exact) + some s = some (r + s) := rfl

theorem sub_eq (r s : ℝ) : (some r : Exact) - some s = some (r - s) := rfl

theorem mul_eq (r s : ℝ) : (some r : Exact) * some s = some (r * s) := rfl

theorem div_eq (r : ℝ) (hs : s ≠ 0) : (some r : Exact) / some s = some (r / s) := if_neg hs

theorem ofCount_eq (n : Nat) : (Arithmetic.ofCount n : Exact) = some (n : ℝ) := rfl

theorem root_eq (r : ℝ) : Arithmetic.root (some r : Exact) = some √r := rfl

theorem isAtMost_eq (r s : ℝ) :
    Arithmetic.isAtMost (some r : Exact) (some s) = decide (r ≤ s) := by
  simp [Arithmetic.isAtMost]

theorem isZero_eq (r : ℝ) : Arithmetic.isZero (some r : Exact) = decide (r = 0) := by
  simp [Arithmetic.isZero]

theorem decimals : (0.0 : Exact) = some 0 ∧ (1.0 : Exact) = some 1 ∧ (2.0 : Exact) = some 2 ∧
    (3.0 : Exact) = some 3 ∧ (0.7 : Exact) = some (7 / 10) ∧ (0.1 : Exact) = some (1 / 10) := by
  refine ⟨?_, ?_, ?_, ?_, ?_, ?_⟩ <;> exact congrArg some (by norm_num)

end Exact

/-- The score of two texts is defined and lies between zero and one. It does not depend on their
order, and it is one if they are equal. -/
structure IsScore (f : List Char → List Char → Exact) (xs ys : List Char) : Prop where
  inUnit : ∃ r : ℝ, f xs ys = some r ∧ 0 ≤ r ∧ r ≤ 1
  comm : f ys xs = f xs ys
  eq_one : xs = ys → f xs ys = some 1

variable {xs ys : List Char} {f : List Char → List Char → Exact} {m n : List Char → List Char → Nat}

theorem IsScore.of_value {r : ℝ} (h : f xs ys = some r) (h' : f ys xs = some r)
    (hnonneg : 0 ≤ r) (hle : r ≤ 1) (hone : xs = ys → r = 1) : IsScore f xs ys where
  inUnit := ⟨r, h, hnonneg, hle⟩
  comm := h'.trans h.symm
  eq_one heq := h.trans (congrArg some (hone heq))

theorem quotient_eq {m n : Nat} (hn : 0 < n) : (quotient m n : Exact) = some ((m : ℝ) / n) := by
  rw [quotient, Exact.ofCount_eq, Exact.ofCount_eq, Exact.div_eq]
  exact Nat.cast_ne_zero.mpr hn.ne'

theorem div_nonneg_le_one {m n : Nat} (hle : m ≤ n) : 0 ≤ (m : ℝ) / n ∧ (m : ℝ) / n ≤ 1 :=
  ⟨by positivity, div_le_one_of_le₀ (by exact_mod_cast hle) (by positivity)⟩

theorem isScore_quotient (hle : m xs ys ≤ n xs ys) (hpos : 0 < n xs ys)
    (hm : m ys xs = m xs ys) (hn : n ys xs = n xs ys) (hself : xs = ys → m xs ys = n xs ys) :
    IsScore (fun xs ys => quotient (m xs ys) (n xs ys)) xs ys := by
  obtain ⟨hnonneg, hone⟩ := div_nonneg_le_one hle
  refine .of_value (quotient_eq hpos) ?_ hnonneg hone ?_
  · rw [hm, hn, quotient_eq hpos]
  · intro heq
    rw [hself heq]
    exact div_self (Nat.cast_ne_zero.mpr hpos.ne')

theorem isScore_one_sub_quotient (hle : m xs ys ≤ n xs ys) (hpos : 0 < n xs ys)
    (hm : m ys xs = m xs ys) (hn : n ys xs = n xs ys) (hself : xs = ys → m xs ys = 0) :
    IsScore (fun xs ys => 1.0 - quotient (m xs ys) (n xs ys)) xs ys := by
  obtain ⟨hnonneg, hone⟩ := div_nonneg_le_one hle
  have hvalue : (1.0 - quotient (m xs ys) (n xs ys) : Exact) =
      some (1 - (m xs ys : ℝ) / n xs ys) := by
    rw [quotient_eq hpos, Exact.decimals.2.1, Exact.sub_eq]
  refine .of_value hvalue ?_ (by linarith) (by linarith) ?_
  · rw [hm, hn, hvalue]
  · intro heq
    rw [hself heq, Nat.cast_zero, zero_div, sub_zero]

theorem longer_comm (xs ys : List Char) : longer ys xs = longer xs ys := Nat.max_comm _ _

theorem longer_pos (hxs : xs ≠ []) : 0 < longer xs ys :=
  (List.length_pos_of_ne_nil hxs).trans_le (Nat.le_max_left _ _)

noncomputable def jaroValue (matched halves left right : ℝ) : ℝ :=
  (matched / left + matched / right + (matched - halves / 2) / matched) / 3

theorem jaroScore_eq (hxs : xs ≠ []) (hys : ys ≠ []) (hm : Matching.matchCount xs ys ≠ 0) :
    (jaroScore xs ys : Exact) = some (jaroValue (Matching.matchCount xs ys)
      (Matching.halfTranspositions xs ys) xs.length ys.length) := by
  have hleft : (xs.length : ℝ) ≠ 0 := by simpa using hxs
  have hright : (ys.length : ℝ) ≠ 0 := by simpa using hys
  have hmatched : (Matching.matchCount xs ys : ℝ) ≠ 0 := Nat.cast_ne_zero.mpr hm
  rw [jaroScore, if_neg hm]
  simp only [Exact.ofCount_eq, Exact.decimals, Exact.div_eq _ hleft, Exact.div_eq _ hright,
    Exact.div_eq _ hmatched, Exact.div_eq _ two_ne_zero, Exact.div_eq _ three_ne_zero,
    Exact.add_eq, Exact.sub_eq, jaroValue]

theorem jaroValue_comm (matched halves left right : ℝ) :
    jaroValue matched halves right left = jaroValue matched halves left right := by
  rw [jaroValue, jaroValue, add_comm (matched / right)]

theorem jaroValue_bounds {m t l r : Nat} (hm : 0 < m) (ht : t ≤ m) (hl : m ≤ l) (hr : m ≤ r) :
    0 ≤ jaroValue m t l r ∧ jaroValue m t l r ≤ 1 := by
  have hpos : (0 : ℝ) < m := Nat.cast_pos.mpr hm
  have hhalves : (t : ℝ) ≤ m := Nat.cast_le.mpr ht
  have hleast : (0 : ℝ) ≤ t := t.cast_nonneg
  have hleft := div_nonneg_le_one hl
  have hright := div_nonneg_le_one hr
  have hnonneg : 0 ≤ ((m : ℝ) - t / 2) / m := div_nonneg (by linarith) hpos.le
  have hle : ((m : ℝ) - t / 2) / m ≤ 1 := (div_le_one hpos).mpr (by linarith)
  constructor
  · rw [jaroValue]
    linarith
  · rw [jaroValue]
    linarith

theorem isScore_jaro (hxs : xs ≠ []) (hys : ys ≠ []) : IsScore jaroScore xs ys := by
  have hcomm := Matching.matchCount_comm xs ys
  obtain ⟨hleft, hright⟩ := Nat.le_min.mp (Matching.matchCount_le xs ys)
  by_cases hm : Matching.matchCount xs ys = 0
  · refine .of_value (r := 0) ?_ ?_ le_rfl zero_le_one ?_
    · rw [jaroScore, if_pos hm, Exact.decimals.1]
    · rw [jaroScore, if_pos (hcomm.trans hm), Exact.decimals.1]
    · rintro rfl
      rw [Matching.matchCount_self] at hm
      exact absurd (List.length_eq_zero_iff.mp hm) hxs
  · obtain ⟨hnonneg, hle⟩ := jaroValue_bounds (Nat.pos_of_ne_zero hm)
      (Matching.halfTranspositions_le xs ys) hleft hright
    refine .of_value (jaroScore_eq hxs hys hm) ?_ hnonneg hle ?_
    · rw [jaroScore_eq hys hxs (hcomm ▸ hm), hcomm, Matching.halfTranspositions_comm,
        jaroValue_comm]
    · rintro rfl
      have hlength : (xs.length : ℝ) ≠ 0 := by simpa using hxs
      rw [Matching.matchCount_self, Matching.halfTranspositions_self, jaroValue]
      simp only [Nat.cast_zero, zero_div, sub_zero, div_self hlength]
      norm_num

theorem commonStart_comm (most : Nat) (xs ys : List Char) :
    Matching.commonStart most ys xs = Matching.commonStart most xs ys := by
  rw [Matching.commonStart, Matching.commonStart, ← List.zip_swap, ← List.map_take,
    List.takeWhile_map, List.length_map]
  congr 2
  funext p
  simp [eq_comm]

theorem commonStart_le (most : Nat) (xs ys : List Char) :
    Matching.commonStart most xs ys ≤ most :=
  (List.takeWhile_sublist _).length_le.trans (List.length_take_le _ _)

noncomputable def raised (score start : ℝ) : ℝ :=
  if score ≤ 7 / 10 then score else score + start * (1 / 10) * (1 - score)

theorem raised_bounds {r : ℝ} (hle : r ≤ 1) {n : Nat} (hn : n ≤ 4) :
    r ≤ raised r n ∧ raised r n ≤ 1 := by
  have hfour : (n : ℝ) ≤ 4 := by exact_mod_cast hn
  have hbonus := mul_nonneg n.cast_nonneg (sub_nonneg.mpr hle)
  have hmost := mul_le_mul_of_nonneg_right hfour (sub_nonneg.mpr hle)
  rw [raised]
  split
  · exact ⟨le_rfl, hle⟩
  · constructor <;> linarith

theorem jaroWinklerScore_eq {r : ℝ} (h : (jaroScore xs ys : Exact) = some r) :
    (jaroWinklerScore xs ys : Exact) = some (raised r (Matching.commonStart 4 xs ys)) := by
  rw [jaroWinklerScore, h]
  simp only [Exact.ofCount_eq, Exact.decimals, Exact.isAtMost_eq, Exact.mul_eq, Exact.sub_eq,
    Exact.add_eq, decide_eq_true_eq, raised]
  split <;> rfl

theorem isScore_jaroWinkler (hxs : xs ≠ []) (hys : ys ≠ []) : IsScore jaroWinklerScore xs ys := by
  have hjaro := isScore_jaro hxs hys
  obtain ⟨r, hr, hnonneg, hle⟩ := hjaro.inUnit
  obtain ⟨hmore, hone⟩ := raised_bounds hle (commonStart_le 4 xs ys)
  refine .of_value (jaroWinklerScore_eq hr) ?_ (hnonneg.trans hmore) hone ?_
  · rw [jaroWinklerScore_eq (hjaro.comm.trans hr), commonStart_comm]
  · intro heq
    have htop : r = 1 := Option.some.inj (hr.symm.trans (hjaro.eq_one heq))
    rw [htop, raised]
    norm_num

section

open Shingle

variable {p q : Profile Char}

theorem cosineScore_eq (hp : IsProfile p) (hq : IsProfile q) :
    (cosineScore p q : Exact) = some (dot p q / (√(squares p) * √(squares q))) := by
  have hleft : (0 : ℝ) < squares p := Nat.cast_pos.mpr (squares_pos hp)
  have hright : (0 : ℝ) < squares q := Nat.cast_pos.mpr (squares_pos hq)
  have hscale := mul_ne_zero (Real.sqrt_pos.mpr hleft).ne' (Real.sqrt_pos.mpr hright).ne'
  simp only [cosineScore, Exact.ofCount_eq, Exact.root_eq, Exact.mul_eq, Exact.isZero_eq, hscale,
    decide_false, Bool.false_eq_true, if_false, Exact.div_eq _ hscale]

theorem dot_le_norms (hp : IsProfile p) (hq : IsProfile q) :
    (dot p q : ℝ) ≤ √(squares p) * √(squares q) := by
  rw [← Real.sqrt_mul (Nat.cast_nonneg _)]
  exact Real.le_sqrt_of_sq_le (by exact_mod_cast dot_sq_le hp hq)

theorem isScore_cosine (xs ys : List Char) :
    IsScore (fun xs ys => cosineScore (profile xs) (profile ys)) xs ys := by
  have hp := isProfile_profile xs
  have hq := isProfile_profile ys
  have hle := div_le_one_of_le₀ (dot_le_norms hp hq) (by positivity)
  refine .of_value (cosineScore_eq hp hq) ?_ (by positivity) hle ?_
  · rw [cosineScore_eq hq hp, dot_comm hp hq, mul_comm (√_)]
  · rintro rfl
    have hpos : (0 : ℝ) < squares (profile xs) := Nat.cast_pos.mpr (squares_pos hp)
    rw [dot_self hp, Real.mul_self_sqrt hpos.le, div_self hpos.ne']

theorem sorensenDiceScore_eq (hp : IsProfile p) :
    (sorensenDiceScore p q : Exact) =
      some ((2 * common p q : Nat) / (p.length + q.length : Nat) : ℝ) := by
  have hsum : ((p.length + q.length : Nat) : ℝ) ≠ 0 :=
    Nat.cast_ne_zero.mpr (Nat.add_pos_left (length_pos hp) _).ne'
  simp only [sorensenDiceScore, Exact.ofCount_eq, Exact.decimals, Exact.mul_eq, Exact.div_eq _ hsum,
    Nat.cast_mul, Nat.cast_ofNat]

theorem two_mul_common_le (hp : IsProfile p) (hq : IsProfile q) :
    2 * common p q ≤ p.length + q.length := by
  have hleft := common_le_length p q
  have hright := common_le_length q p
  rw [common_comm hp hq] at hright
  omega

theorem isScore_sorensenDice (xs ys : List Char) :
    IsScore (fun xs ys => sorensenDiceScore (profile xs) (profile ys)) xs ys := by
  have hp := isProfile_profile xs
  have hq := isProfile_profile ys
  obtain ⟨hnonneg, hone⟩ := div_nonneg_le_one (two_mul_common_le hp hq)
  refine .of_value (sorensenDiceScore_eq hp) ?_ hnonneg hone ?_
  · rw [sorensenDiceScore_eq hq, common_comm hp hq, Nat.add_comm]
  · rintro rfl
    have hpos : 2 * (profile xs).length ≠ 0 := Nat.mul_ne_zero two_ne_zero (length_pos hp).ne'
    rw [common_self hp, ← Nat.two_mul, div_self (Nat.cast_ne_zero.mpr hpos)]

end

section

open EditDistance Matching Shingle Subsequence

theorem isScore_nearness {distance : List Char → List Char → Nat} (hxs : xs ≠ [])
    (hle : distance xs ys ≤ max xs.length ys.length)
    (hcomm : distance ys xs = distance xs ys) (hzero : distance xs ys = 0 ↔ xs = ys) :
    IsScore (fun xs ys => nearness (distance xs ys) xs ys) xs ys :=
  isScore_one_sub_quotient hle (longer_pos hxs) hcomm (longer_comm xs ys) hzero.mpr

theorem commonLength_le_longer (xs ys : List Char) : commonLength xs ys ≤ longer xs ys :=
  (commonLength_le_length xs ys).trans (Nat.le_max_left _ _)

theorem isScore_scoreOf (a : Algorithm) (hxs : xs ≠ []) (hys : ys ≠ []) :
    IsScore a.scoreOf xs ys := by
  have hp := isProfile_profile xs
  have hq := isProfile_profile ys
  cases a with
  | levenshtein =>
    exact isScore_nearness hxs (levenshtein_le_max xs ys) (levenshtein_comm xs ys)
      levenshtein_eq_zero_iff
  | damerauLevenshtein =>
    exact isScore_nearness hxs (damerau_le_max xs ys) (damerau_comm xs ys) damerau_eq_zero_iff
  | optimalAlignment =>
    exact isScore_nearness hxs (optimalAlignment_le_max xs ys) (optimalAlignment_comm xs ys)
      optimalAlignment_eq_zero_iff
  | commonSubsequence =>
    refine isScore_quotient (commonLength_le_longer xs ys) (longer_pos hxs)
      (commonLength_comm xs ys) (longer_comm xs ys) ?_
    rintro rfl
    rw [commonLength_self, longer, Nat.max_self]
  | jaro => exact isScore_jaro hxs hys
  | jaroWinkler => exact isScore_jaroWinkler hxs hys
  | cosine => exact isScore_cosine xs ys
  | jaccard =>
    refine isScore_quotient (common_le_union hp hq) (union_pos hp hq) (common_comm hp hq)
      (union_comm hp hq) ?_
    rintro rfl
    exact (common_self hp).trans (union_self hp).symm
  | sorensenDice => exact isScore_sorensenDice xs ys
  | qgram =>
    have htotal : 0 < total (profile xs) + total (profile ys) := Nat.add_pos_left (total_pos hp) _
    refine isScore_one_sub_quotient (difference_le hp hq) htotal (difference_comm hp hq)
      (Nat.add_comm _ _) ?_
    rintro rfl
    exact difference_self hp

/-- The counts taken of two rows of characters are in bounds, and so is what is added for their
common beginning. -/
structure RowsBounded (xs ys : List Char) : Prop where
  longer_pos : 0 < longer xs ys
  levenshtein_le : EditDistance.levenshtein xs ys ≤ longer xs ys
  optimalAlignment_le : EditDistance.optimalAlignment xs ys ≤ longer xs ys
  damerau_le : damerau xs ys ≤ longer xs ys
  damerau_defined : damerau? xs ys = some (damerau xs ys)
  commonLength_le : commonLength xs ys ≤ longer xs ys
  matchCount_le : matchCount xs ys ≤ min xs.length ys.length
  halfTranspositions_le : halfTranspositions xs ys ≤ matchCount xs ys
  raised_le : ∃ r s : ℝ, jaroScore xs ys = some r ∧ jaroWinklerScore xs ys = some s ∧ r ≤ s ∧ s ≤ 1

/-- The counts taken of two profiles are in bounds. -/
structure ProfilesBounded (p q : Profile Char) : Prop where
  common_le : common p q ≤ union p q
  union_pos : 1 ≤ union p q
  union_defined : sub? (p.length + q.length) (common p q) = some (union p q)
  difference_le : difference p q ≤ total p + total q
  total_pos : 1 ≤ total p + total q
  dot_sq_le : dot p q ^ 2 ≤ squares p * squares q
  squares_pos : 0 < squares p ∧ 0 < squares q

theorem rowsBounded (hxs : xs ≠ []) (hys : ys ≠ []) : RowsBounded xs ys where
  longer_pos := longer_pos hxs
  levenshtein_le := levenshtein_le_max xs ys
  optimalAlignment_le := optimalAlignment_le_max xs ys
  damerau_le := damerau_le_max xs ys
  damerau_defined := damerau?_eq xs ys
  commonLength_le := commonLength_le_longer xs ys
  matchCount_le := matchCount_le xs ys
  halfTranspositions_le := halfTranspositions_le xs ys
  raised_le := by
    obtain ⟨r, hr, _, hle⟩ := (isScore_jaro hxs hys).inUnit
    obtain ⟨hmore, hone⟩ := raised_bounds hle (commonStart_le 4 xs ys)
    exact ⟨r, _, hr, jaroWinklerScore_eq hr, hmore, hone⟩

theorem profilesBounded {p q : Profile Char} (hp : IsProfile p) (hq : IsProfile q) :
    ProfilesBounded p q where
  common_le := common_le_union hp hq
  union_pos := union_pos hp hq
  union_defined := if_pos ((common_le_length p q).trans (Nat.le_add_right _ _))
  difference_le := difference_le hp hq
  total_pos := Nat.add_pos_left (total_pos hp) _
  dot_sq_le := dot_sq_le hp hq
  squares_pos := ⟨squares_pos hp, squares_pos hq⟩

/-- All algorithms give two texts that are not empty an exact score. For the counts in it this
means that none is above what it is divided by, that no division is by zero, and that no
subtraction goes below zero. -/
theorem exactScores_bounded (hxs : xs ≠ []) (hys : ys ≠ []) :
    (∀ a : Algorithm, IsScore a.scoreOf xs ys) ∧ RowsBounded xs ys ∧
      ProfilesBounded (profile xs) (profile ys) :=
  ⟨fun a => isScore_scoreOf a hxs hys, rowsBounded hxs hys,
    profilesBounded (isProfile_profile xs) (isProfile_profile ys)⟩

theorem exactScores_bounded_night_nacht :
    (∀ a : Algorithm, IsScore a.scoreOf "night".toList "nacht".toList) ∧
      RowsBounded "night".toList "nacht".toList ∧
      ProfilesBounded (profile "night".toList) (profile "nacht".toList) :=
  exactScores_bounded (by decide) (by decide)

end

end PlatformCatalog.Algorithm
