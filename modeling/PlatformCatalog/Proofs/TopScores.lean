import Mathlib.Tactic.LinearCombination
import PlatformCatalog.Proofs.ExactScores

/-!
# Texts with the score one

Six of the algorithms give the score one to equal texts alone. The other four
see the shingles of the texts only. So they give it to all texts that have
the same shingles, the same ones equally often, or their numbers in
proportion.
-/

set_option autoImplicit false

namespace PlatformCatalog

namespace Shingle

variable {α : Type} [DecidableEq α] {p q : Profile α} {s : List α} {xs ys : List α}

theorem count_add (s t : List α) (p : Profile α) :
    count s (add t p) = count s p + if t = s then 1 else 0 := by
  induction p with
  | nil => by_cases h : t = s <;> simp [add, count, h]
  | cons e p ih =>
    rw [add]
    by_cases het : t = e.1
    · subst het
      by_cases hes : e.1 = s <;> simp [count_cons, hes]
    · by_cases hes : e.1 = s
      · have hts : t ≠ s := fun heq => het (heq.trans hes.symm)
        simp [count_cons, hes, hts]
      · simp [count_cons, het, hes, ih]

theorem count_profile (xs s : List α) : count s (profile xs) = (ofChars xs).count s := by
  have hrun : ∀ (rows : List (List α)) (p : Profile α),
      count s (rows.foldl (fun p t => add t p) p) = count s p + rows.count s := by
    intro rows
    induction rows with
    | nil => exact fun p => rfl
    | cons t rows ih =>
      intro p
      rw [List.foldl_cons, ih, count_add, List.count_cons]
      by_cases h : t = s <;> simp [h]; omega
  rw [profile, hrun]
  exact Nat.zero_add _

theorem count_pos_of_mem (h : ∀ e ∈ p, 0 < e.2) (hs : s ∈ shingles p) : 0 < count s p := by
  induction p with
  | nil => cases hs
  | cons e p ih =>
    obtain ⟨he, hrest⟩ := List.forall_mem_cons.mp h
    rw [count_cons]
    split
    · exact he
    · next hes =>
      rw [shingles_cons, Finset.mem_insert] at hs
      exact ih hrest (hs.resolve_left (Ne.symm hes))

theorem mem_shingles_profile : s ∈ shingles (profile xs) ↔ s ∈ ofChars xs := by
  rw [← List.count_pos_iff, ← count_profile]
  constructor
  · exact count_pos_of_mem (isProfile_profile xs).positive
  · intro hpos
    by_contra hs
    exact hpos.ne' (count_eq_zero hs)

omit [DecidableEq α] in
theorem nil_notMem_ofChars (hxs : xs ≠ []) : [] ∉ ofChars xs := by
  have hpairs : ∀ ys : List α, [] ∉ pairs ys := by
    intro ys
    fun_induction pairs ys with
    | case1 x y rest ih => simpa using ih
    | case2 => simp
  rw [ofChars]
  split
  · simpa using hxs.symm
  · exact hpairs xs

def InProportion (xs ys : List α) : Prop :=
  ∃ m n, 0 < m ∧ 0 < n ∧ ∀ s, m * (ofChars xs).count s = n * (ofChars ys).count s

theorem common_eq_union_iff (hp : IsProfile p) (hq : IsProfile q) :
    common p q = union p q ↔ shingles p = shingles q := by
  rw [common_eq hp, union_eq hp hq]
  constructor
  · intro h
    have hsame := Finset.eq_of_subset_of_card_le Finset.inter_subset_union h.ge
    exact inf_eq_sup.mp hsame
  · intro h
    rw [h, Finset.inter_self, Finset.union_self]

theorem two_mul_common_eq_iff (hp : IsProfile p) (hq : IsProfile q) :
    2 * common p q = p.length + q.length ↔ shingles p = shingles q := by
  have hunion : union p q = p.length + q.length - common p q := rfl
  have hle := common_le_length p q
  rw [← common_eq_union_iff hp hq, hunion]
  omega

theorem difference_eq_zero_iff (hp : IsProfile p) (hq : IsProfile q) :
    difference p q = 0 ↔ ∀ s, count s p = count s q := by
  rw [difference_eq hp hq, Finset.sum_eq_zero_iff]
  constructor
  · intro h s
    by_cases hs : s ∈ shingles p ∪ shingles q
    · have hterm := h s hs
      omega
    · rw [Finset.mem_union, not_or] at hs
      rw [count_eq_zero hs.1, count_eq_zero hs.2]
  · intro h s _
    rw [h s]
    omega

/-- The product of two profiles reaches its bound only if their counts are in proportion: otherwise
the squares of the differences would have a positive sum. -/
theorem mul_count_of_dot_sq (hp : IsProfile p) (hq : IsProfile q)
    (h : dot p q ^ 2 = squares p * squares q) (s : List α) :
    squares q * count s p = dot p q * count s q := by
  have hdot := dot_eq hp q
  have hleft := squares_eq hp q
  have hright := squares_eq hq p
  rw [Finset.union_comm] at hright
  generalize dot p q = d at *
  generalize squares p = a at *
  generalize squares q = b at *
  by_cases hs : s ∈ shingles p ∪ shingles q
  · have hsum : ∑ t ∈ shingles p ∪ shingles q,
        ((b : ℤ) * count t p - d * count t q) ^ 2 = 0 := by
      calc
        _ = (b : ℤ) ^ 2 * (∑ t ∈ shingles p ∪ shingles q, count t p ^ 2 : ℕ)
            - 2 * b * d * (∑ t ∈ shingles p ∪ shingles q, count t p * count t q : ℕ)
            + (d : ℤ) ^ 2 * (∑ t ∈ shingles p ∪ shingles q, count t q ^ 2 : ℕ) := by
          push_cast
          rw [Finset.mul_sum, Finset.mul_sum, Finset.mul_sum, ← Finset.sum_sub_distrib,
            ← Finset.sum_add_distrib]
          exact Finset.sum_congr rfl fun t _ => by ring
        _ = (b : ℤ) * (a * b - d ^ 2) := by
          rw [← hdot, ← hleft, ← hright]
          ring
        _ = 0 := by
          have h' : (d : ℤ) ^ 2 = a * b := by exact_mod_cast h
          rw [h', sub_self, mul_zero]
    have hterm := (Finset.sum_eq_zero_iff_of_nonneg fun t _ => sq_nonneg _).mp hsum s hs
    have hzero := pow_eq_zero_iff two_ne_zero |>.mp hterm
    exact_mod_cast sub_eq_zero.mp hzero
  · rw [Finset.mem_union, not_or] at hs
    rw [count_eq_zero hs.1, count_eq_zero hs.2, mul_zero, mul_zero]

theorem dot_sq_of_mul_count (hp : IsProfile p) (hq : IsProfile q) {m n : Nat} (hm : 0 < m)
    (h : ∀ s, m * count s p = n * count s q) : dot p q ^ 2 = squares p * squares q := by
  have hsquares : m ^ 2 * squares p = n ^ 2 * squares q := by
    rw [squares_eq hp q, squares_eq hq p, Finset.union_comm (shingles q), Finset.mul_sum,
      Finset.mul_sum]
    apply Finset.sum_congr rfl
    intro s _
    rw [← mul_pow, h s, mul_pow]
  have hdot : m * dot p q = n * squares q := by
    rw [dot_eq hp q, squares_eq hq p, Finset.union_comm (shingles q), Finset.mul_sum,
      Finset.mul_sum]
    apply Finset.sum_congr rfl
    intro s _
    rw [← mul_assoc, h s, mul_assoc, sq]
  apply Nat.eq_of_mul_eq_mul_left (pow_pos hm 2)
  calc
    m ^ 2 * dot p q ^ 2 = (n * squares q) ^ 2 := by rw [← mul_pow, hdot]
    _ = n ^ 2 * squares q * squares q := by ring
    _ = m ^ 2 * (squares p * squares q) := by rw [← hsquares, mul_assoc]

theorem dot_sq_profile_iff (xs ys : List α) :
    dot (profile xs) (profile ys) ^ 2 = squares (profile xs) * squares (profile ys) ↔
      InProportion xs ys := by
  have hp := isProfile_profile xs
  have hq := isProfile_profile ys
  constructor
  · intro h
    have hpos : 0 < dot (profile xs) (profile ys) := by
      have hsquares := Nat.mul_pos (squares_pos hp) (squares_pos hq)
      exact Nat.pos_of_ne_zero fun hzero => by simp [← h, hzero] at hsquares
    refine ⟨_, _, squares_pos hq, hpos, fun s => ?_⟩
    rw [← count_profile, ← count_profile]
    exact mul_count_of_dot_sq hp hq h s
  · rintro ⟨m, n, hm, _, h⟩
    exact dot_sq_of_mul_count hp hq hm fun s => by rw [count_profile, count_profile, h]

end Shingle

namespace Algorithm

open EditDistance Matching Shingle Subsequence

variable {xs ys : List Char}

/-- What an algorithm sees of two texts is the same. -/
def Equates : Algorithm → List Char → List Char → Prop
  | .cosine, xs, ys => InProportion xs ys
  | .jaccard, xs, ys | .sorensenDice, xs, ys => ∀ s, s ∈ ofChars xs ↔ s ∈ ofChars ys
  | .qgram, xs, ys => (ofChars xs).Perm (ofChars ys)
  | .levenshtein, xs, ys | .damerauLevenshtein, xs, ys | .optimalAlignment, xs, ys
  | .commonSubsequence, xs, ys | .jaro, xs, ys | .jaroWinkler, xs, ys => xs = ys

theorem quotient_eq_one_iff {m n : Nat} (hn : 0 < n) : (quotient m n : Exact) = some 1 ↔ m = n := by
  have hne : (n : ℝ) ≠ 0 := Nat.cast_ne_zero.mpr hn.ne'
  rw [quotient_eq hn, Option.some.injEq, div_eq_one_iff_eq hne, Nat.cast_inj]

theorem one_sub_quotient_eq_one_iff {m n : Nat} (hn : 0 < n) :
    (1.0 - quotient m n : Exact) = some 1 ↔ m = 0 := by
  have hne : (n : ℝ) ≠ 0 := Nat.cast_ne_zero.mpr hn.ne'
  rw [quotient_eq hn, Exact.decimals.2.1, Exact.sub_eq, Option.some.injEq, sub_eq_self,
    div_eq_zero_iff, or_iff_left hne, Nat.cast_eq_zero]

theorem commonLength_eq_longer_iff : commonLength xs ys = longer xs ys ↔ xs = ys := by
  constructor
  · intro h
    obtain ⟨⟨s, hs, hleft, hright⟩, _⟩ := isGreatest_commonLength xs ys
    have hlonger : longer xs ys = max xs.length ys.length := rfl
    have hxs := hleft.length_le
    have hys := hright.length_le
    rw [← hleft.eq_of_length (by omega), ← hright.eq_of_length (by omega)]
  · rintro rfl
    rw [commonLength_self, longer, Nat.max_self]

theorem jaroValue_eq_one_iff {m t l r : Nat} (hm : 0 < m) (hl : m ≤ l) (hr : m ≤ r) :
    jaroValue m t l r = 1 ↔ m = l ∧ m = r ∧ t = 0 := by
  have hpos : (0 : ℝ) < m := Nat.cast_pos.mpr hm
  have hpos' : (0 : ℝ) < l := Nat.cast_pos.mpr (hm.trans_le hl)
  have hpos'' : (0 : ℝ) < r := Nat.cast_pos.mpr (hm.trans_le hr)
  constructor
  · intro h
    have hleft := (div_nonneg_le_one hl).2
    have hright := (div_nonneg_le_one hr).2
    have hhalves : ((m : ℝ) - t / 2) / m ≤ 1 := by
      rw [div_le_one hpos]
      have hleast : (0 : ℝ) ≤ t := t.cast_nonneg
      linarith
    rw [jaroValue, div_eq_one_iff_eq three_ne_zero] at h
    have hl' : (m : ℝ) / l = 1 := by linarith
    have hr' : (m : ℝ) / r = 1 := by linarith
    have ht' : ((m : ℝ) - t / 2) / m = 1 := by linarith
    rw [div_eq_one_iff_eq hpos'.ne', Nat.cast_inj] at hl'
    rw [div_eq_one_iff_eq hpos''.ne', Nat.cast_inj] at hr'
    rw [div_eq_one_iff_eq hpos.ne', sub_eq_self, div_eq_zero_iff, or_iff_left two_ne_zero,
      Nat.cast_eq_zero] at ht'
    exact ⟨hl', hr', ht'⟩
  · rintro ⟨rfl, rfl, rfl⟩
    rw [jaroValue, div_self hpos.ne', Nat.cast_zero, zero_div, sub_zero, div_self hpos.ne']
    norm_num

theorem jaroScore_eq_one_iff (hxs : xs ≠ []) (hys : ys ≠ []) :
    (jaroScore xs ys : Exact) = some 1 ↔ xs = ys := by
  refine ⟨fun h => ?_, (isScore_jaro hxs hys).eq_one⟩
  by_cases hm : matchCount xs ys = 0
  · rw [jaroScore, if_pos hm, Exact.decimals.1, Option.some.injEq] at h
    exact absurd h zero_ne_one
  · obtain ⟨hleft, hright⟩ := Nat.le_min.mp (matchCount_le xs ys)
    rw [jaroScore_eq hxs hys hm, Option.some.injEq,
      jaroValue_eq_one_iff (Nat.pos_of_ne_zero hm) hleft hright] at h
    obtain ⟨hall, hother, hnone⟩ := h
    exact eq_of_matched (hall.symm.trans hother) hall hnone

/-- A common beginning adds less than is missing to a score of one. -/
theorem raised_eq_one_iff {r : ℝ} {n : Nat} (hn : n ≤ 4) : raised r n = 1 ↔ r = 1 := by
  have hfour : (n : ℝ) ≤ 4 := by exact_mod_cast hn
  rw [raised]
  split
  · exact Iff.rfl
  · have hfactor : 1 - (n : ℝ) * (1 / 10) ≠ 0 := by linarith
    have hmissing : r + n * (1 / 10) * (1 - r) = 1 ↔ (1 - n * (1 / 10)) * (1 - r) = 0 := by
      constructor <;> intro h <;> linarith
    rw [hmissing, mul_eq_zero, or_iff_right hfactor, sub_eq_zero, eq_comm]

theorem jaroWinklerScore_eq_one_iff (hxs : xs ≠ []) (hys : ys ≠ []) :
    (jaroWinklerScore xs ys : Exact) = some 1 ↔ xs = ys := by
  obtain ⟨r, hr, _⟩ := (isScore_jaro hxs hys).inUnit
  rw [jaroWinklerScore_eq hr, Option.some.injEq, raised_eq_one_iff (commonStart_le 4 xs ys),
    ← jaroScore_eq_one_iff hxs hys, hr, Option.some.injEq]

theorem cosineScore_eq_one_iff :
    (cosineScore (profile xs) (profile ys) : Exact) = some 1 ↔ InProportion xs ys := by
  have hp := isProfile_profile xs
  have hq := isProfile_profile ys
  have hleft : (0 : ℝ) < squares (profile xs) := Nat.cast_pos.mpr (squares_pos hp)
  have hright : (0 : ℝ) < squares (profile ys) := Nat.cast_pos.mpr (squares_pos hq)
  have hscale := mul_pos (Real.sqrt_pos.mpr hleft) (Real.sqrt_pos.mpr hright)
  rw [cosineScore_eq hp hq, Option.some.injEq, div_eq_one_iff_eq hscale.ne',
    ← Real.sqrt_mul hleft.le, ← dot_sq_profile_iff, eq_comm,
    Real.sqrt_eq_iff_eq_sq (mul_pos hleft hright).le (Nat.cast_nonneg _), eq_comm]
  norm_cast

theorem sorensenDiceScore_eq_one_iff :
    (sorensenDiceScore (profile xs) (profile ys) : Exact) = some 1 ↔
      shingles (profile xs) = shingles (profile ys) := by
  have hp := isProfile_profile xs
  have hq := isProfile_profile ys
  have hsum : (((profile xs).length + (profile ys).length : Nat) : ℝ) ≠ 0 :=
    Nat.cast_ne_zero.mpr (Nat.add_pos_left (length_pos hp) _).ne'
  rw [sorensenDiceScore_eq hp, Option.some.injEq, div_eq_one_iff_eq hsum, Nat.cast_inj,
    two_mul_common_eq_iff hp hq]

theorem nearness_eq_one_iff {distance : Nat} (hxs : xs ≠ []) (hzero : distance = 0 ↔ xs = ys) :
    (nearness distance xs ys : Exact) = some 1 ↔ xs = ys := by
  rw [nearness, one_sub_quotient_eq_one_iff (longer_pos hxs), hzero]

/-- The score of two texts is one exactly if the algorithm sees no difference between them. -/
theorem scoreOf_eq_one_iff (a : Algorithm) (hxs : xs ≠ []) (hys : ys ≠ []) :
    (a.scoreOf xs ys : Exact) = some 1 ↔ a.Equates xs ys := by
  have hp := isProfile_profile xs
  have hq := isProfile_profile ys
  have hshingles : shingles (profile xs) = shingles (profile ys) ↔
      ∀ s, s ∈ ofChars xs ↔ s ∈ ofChars ys := by
    simp only [Finset.ext_iff, mem_shingles_profile]
  cases a with
  | levenshtein => exact nearness_eq_one_iff hxs levenshtein_eq_zero_iff
  | damerauLevenshtein => exact nearness_eq_one_iff hxs damerau_eq_zero_iff
  | optimalAlignment => exact nearness_eq_one_iff hxs optimalAlignment_eq_zero_iff
  | commonSubsequence =>
    exact (quotient_eq_one_iff (longer_pos hxs)).trans commonLength_eq_longer_iff
  | jaro => exact jaroScore_eq_one_iff hxs hys
  | jaroWinkler => exact jaroWinklerScore_eq_one_iff hxs hys
  | cosine => exact cosineScore_eq_one_iff
  | jaccard =>
    exact (quotient_eq_one_iff (union_pos hp hq)).trans
      ((common_eq_union_iff hp hq).trans hshingles)
  | sorensenDice => exact sorensenDiceScore_eq_one_iff.trans hshingles
  | qgram =>
    have htotal : 0 < total (profile xs) + total (profile ys) := Nat.add_pos_left (total_pos hp) _
    refine (one_sub_quotient_eq_one_iff htotal).trans ((difference_eq_zero_iff hp hq).trans ?_)
    simp only [count_profile]
    exact List.perm_iff_count.symm

theorem not_equates_nil (a : Algorithm) {xs : List Char} (hxs : xs ≠ []) : ¬a.Equates xs [] := by
  have hnone := nil_notMem_ofChars hxs
  have hempty : [] ∈ Shingle.ofChars ([] : List Char) := by simp [Shingle.ofChars]
  intro h
  cases a with
  | cosine =>
    obtain ⟨m, n, _, hn, hcounts⟩ := h
    have hnil := hcounts []
    rw [List.count_eq_zero_of_not_mem hnone, Nat.mul_zero] at hnil
    exact (Nat.mul_pos hn (List.count_pos_iff.mpr hempty)).ne hnil
  | jaccard | sorensenDice => exact hnone ((h []).mpr hempty)
  | qgram => exact hnone (h.mem_iff.mpr hempty)
  | _ => exact hxs h

theorem equates_self (a : Algorithm) {xs : List Char} (hxs : xs ≠ []) : a.Equates xs xs :=
  (scoreOf_eq_one_iff a hxs hxs).mp ((isScore_scoreOf a hxs hxs).eq_one rfl)

def seesShingles : Algorithm → Bool
  | .cosine | .jaccard | .sorensenDice | .qgram => true
  | _ => false

theorem equates_iff_eq {a : Algorithm} (h : a.seesShingles = false) {xs ys : List Char} :
    a.Equates xs ys ↔ xs = ys := by
  cases a <;> first | exact Iff.rfl | cases h

theorem equates_of_perm {a : Algorithm} (ha : a.seesShingles = true) {xs ys : List Char}
    (h : (Shingle.ofChars xs).Perm (Shingle.ofChars ys)) : a.Equates xs ys := by
  cases a with
  | cosine => exact ⟨1, 1, Nat.one_pos, Nat.one_pos, fun s => by rw [h.count_eq]⟩
  | jaccard | sorensenDice => exact fun s => h.mem_iff
  | qgram => exact h
  | _ => cases ha

variable {s t : String}

theorem score_eq_scoreOf (a : Algorithm) (hs : s ≠ "") (ht : t ≠ "") :
    (a.score s t : Exact) = a.scoreOf s.toList t.toList := by
  have hs' : s.toList ≠ [] := by simpa using hs
  have ht' : t.toList ≠ [] := by simpa using ht
  rw [score]
  split <;> simp_all

theorem score_empty (a : Algorithm) (hs : s ≠ "") : (a.score s "" : Exact) = some 0 := by
  have hs' : s.toList ≠ [] := by simpa using hs
  rw [score, String.toList_empty]
  split <;> simp_all [Exact.decimals]

theorem exists_score_le_one (a : Algorithm) (hs : s ≠ "") (t : String) :
    ∃ r : ℝ, a.score s t = some r ∧ r ≤ 1 := by
  have hs' : s.toList ≠ [] := by simpa using hs
  by_cases ht : t = ""
  · subst ht
    exact ⟨0, score_empty a hs, zero_le_one⟩
  · have ht' : t.toList ≠ [] := by simpa using ht
    obtain ⟨r, hr, _, hle⟩ := (isScore_scoreOf a hs' ht').inUnit
    exact ⟨r, (score_eq_scoreOf a hs ht).trans hr, hle⟩

theorem score_eq_one_iff (a : Algorithm) (hs : s ≠ "") (t : String) :
    (a.score s t : Exact) = some 1 ↔ a.Equates s.toList t.toList := by
  have hs' : s.toList ≠ [] := by simpa using hs
  by_cases ht : t = ""
  · subst ht
    rw [score_empty a hs, Option.some.injEq]
    exact iff_of_false zero_ne_one (not_equates_nil a hs')
  · have ht' : t.toList ≠ [] := by simpa using ht
    rw [score_eq_scoreOf a hs ht]
    exact scoreOf_eq_one_iff a hs' ht'

end Algorithm

end PlatformCatalog
