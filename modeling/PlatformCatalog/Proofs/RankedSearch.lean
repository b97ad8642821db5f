import Mathlib.Data.Finset.Card
import Mathlib.Data.String.Basic
import PlatformCatalog.Proofs.DoubleOrder
import PlatformCatalog.Proofs.Rows
import PlatformCatalog.Similarity.Ranking

/-!
# What a ranked search finds

Where all scores are numbers, the candidates of a search stand in one strict
order, by score and then by text. Equal candidates are next to each other
once they are sorted, so that what is found are the first of the distinct
candidates in this order.
-/

set_option autoImplicit false

namespace PlatformCatalog.Ranking

open Text

section

variable {before : String → String → Bool}

theorem length_ofList (hstrict : Ordered.Strict before) (candidates : List String) :
    (Ordered.ofList before candidates).length = candidates.toFinset.card := by
  have hnodup := (Ordered.ascending_ofList hstrict candidates).nodup hstrict
  rw [← List.toFinset_card_of_nodup hnodup]
  congr 1
  ext c
  rw [List.mem_toFinset, List.mem_toFinset, Ordered.mem_ofList hstrict]

end

section

variable {σ ρ : Type} [LinearOrder ρ] {rank : String → ρ}

theorem strict_of_rank (hrank : Function.Injective rank) :
    Ordered.Strict fun c d => decide (rank c < rank d) where
  irrefl c := by simp
  trans := by
    intro c d e hcd hde
    simp only [decide_eq_true_eq] at hcd hde ⊢
    exact hcd.trans hde
  eq_of_not_before := by
    intro c d hcd hdc
    simp only [decide_eq_false_iff_not, not_lt] at hcd hdc
    exact hrank (hdc.antisymm hcd)

theorem mem_candidates_dropRepeats (xs : List (Scored σ)) (c : String) :
    c ∈ (dropRepeats xs).map (·.candidate) ↔ c ∈ xs.map (·.candidate) := by
  fun_induction dropRepeats xs with
  | case1 | case2 => exact Iff.rfl
  | case3 x y rest heq ih =>
    rw [ih, List.map_cons, List.map_cons, List.map_cons, List.mem_cons, List.mem_cons,
      List.mem_cons, heq, or_self_left]
  | case4 x y rest _ ih =>
    rw [List.map_cons, List.mem_cons, ih]
    exact List.mem_cons.symm

/-- Sorted candidates without repeats stand in strict order: only neighbours can be equal. -/
theorem ascending_dropRepeats (hrank : Function.Injective rank) {xs : List (Scored σ)}
    (h : xs.Pairwise fun x y => rank x.candidate ≤ rank y.candidate) :
    Ordered.Ascending (fun c d => decide (rank c < rank d))
      ((dropRepeats xs).map (·.candidate)) := by
  fun_induction dropRepeats xs with
  | case1 => exact Ordered.ascending_nil
  | case2 x => exact List.pairwise_singleton _ _
  | case3 x y rest _ ih => exact ih (h.sublist ((List.sublist_cons_self y rest).cons_cons x))
  | case4 x y rest hne ih =>
    obtain ⟨hx, hrest⟩ := List.pairwise_cons.mp h
    refine Ordered.ascending_cons.mpr ⟨?_, ih hrest⟩
    intro c hc
    have hxy : rank x.candidate < rank y.candidate :=
      (hx y List.mem_cons_self).lt_of_ne fun heq => hne (hrank heq)
    obtain ⟨z, hz, rfl⟩ := List.mem_map.mp ((mem_candidates_dropRepeats _ c).mp hc)
    rcases List.mem_cons.mp hz with rfl | hz
    · exact decide_eq_true hxy
    · exact decide_eq_true (hxy.trans_le ((List.pairwise_cons.mp hrest).1 z hz))

theorem best_eq (hrank : Function.Injective rank) {higher : σ → σ → Bool} {score : String → σ}
    {candidates : List String}
    (hahead : ∀ c ∈ candidates, ∀ d ∈ candidates,
      ahead higher ⟨score c, c⟩ ⟨score d, d⟩ = decide (rank c ≤ rank d)) (n : Nat) :
    best higher score n candidates =
      (Ordered.ofList (fun c d => decide (rank c < rank d)) candidates).take n := by
  have hstrict := strict_of_rank hrank
  have hsort : (candidates.map fun c => ⟨score c, c⟩).mergeSort (ahead higher) =
      (candidates.mergeSort fun c d => decide (rank c ≤ rank d)).map fun c => ⟨score c, c⟩ :=
    (List.map_mergeSort fun c hc d hd => (hahead c hc d hd).symm).symm
  have hsorted : (candidates.mergeSort fun c d => decide (rank c ≤ rank d)).Pairwise
      fun c d => decide (rank c ≤ rank d) := by
    refine List.pairwise_mergeSort ?_ ?_ candidates
    · intro c d e hcd hde
      simp only [decide_eq_true_eq] at hcd hde ⊢
      exact hcd.trans hde
    · intro c d
      simpa using le_total (rank c) (rank d)
  rw [best, hsort, List.map_take]
  congr 1
  refine (ascending_dropRepeats hrank (List.pairwise_map.mpr
    (hsorted.imp of_decide_eq_true))).ext hstrict
    (Ordered.ascending_ofList hstrict candidates) fun c => ?_
  rw [mem_candidates_dropRepeats, Ordered.mem_ofList hstrict]
  simp

end

section

variable (a : Algorithm) (query : String)

def scoreFor (c : String) : Float := a.score (lowercase query) (lowercase c)

/-- A candidate ranks before another one if its score is higher, or if the scores are equal and its
text is smaller. The order of texts is that of their code points, which UTF-8 bytes keep. -/
def RanksBefore (c d : String) : Prop :=
  scoreFor a query d < scoreFor a query c ∨
    (scoreFor a query c == scoreFor a query d) = true ∧ c < d

def rank (c : String) : (ℤ ×ₗ ℤ ×ₗ ℤ)ᵒᵈ ×ₗ String :=
  toLex (OrderDual.toDual (standing (scoreFor a query c)), c)

theorem rank_injective : Function.Injective (rank a query) := by
  intro c d h
  exact (Prod.mk.inj (toLex_inj.mp h)).2

variable {a query} {c d : String}

theorem rank_lt_iff (hc : (scoreFor a query c).isNaN = false)
    (hd : (scoreFor a query d).isNaN = false) :
    rank a query c < rank a query d ↔ RanksBefore a query c d := by
  rw [RanksBefore, lt_iff_standing hd hc, beq_iff_standing hc hd, rank, rank,
    Prod.Lex.toLex_lt_toLex, OrderDual.toDual_lt_toDual, OrderDual.toDual_inj]

theorem ahead_eq (hc : (scoreFor a query c).isNaN = false)
    (hd : (scoreFor a query d).isNaN = false) :
    ahead higherFloat ⟨scoreFor a query c, c⟩ ⟨scoreFor a query d, d⟩ =
      decide (rank a query c ≤ rank a query d) := by
  rw [Bool.eq_iff_iff, decide_eq_true_iff, rank, rank, Prod.Lex.toLex_le_toLex,
    OrderDual.toDual_lt_toDual, OrderDual.toDual_inj]
  simp only [ahead, higherFloat, lt_iff_standing hc hd, lt_iff_standing hd hc, Bool.or_eq_true,
    Bool.and_eq_true, Bool.not_eq_true', decide_eq_true_eq, decide_eq_false_iff_not]
  rcases lt_trichotomy (standing (scoreFor a query c)) (standing (scoreFor a query d)) with
    hlt | heq | hlt
  · simp [hlt, hlt.not_gt, hlt.ne]
  · simp [heq]
  · simp [hlt]

theorem search_eq {candidates : List String} (hquery : query ≠ "")
    (hnumbers : ∀ c ∈ candidates, (scoreFor a query c).isNaN = false) (n : Nat) :
    search a query n candidates =
      (Ordered.ofList (fun c d => decide (rank a query c < rank a query d)) candidates).take n := by
  have hbest := best_eq (rank_injective a query) (fun c hc d hd =>
    ahead_eq (hnumbers c hc) (hnumbers d hd)) n
  rw [search]
  split
  · next hempty =>
    rcases hempty with hempty | rfl
    · exact absurd (String.isEmpty_iff.mp hempty) hquery
    · rw [List.take_zero]
  · exact hbest

example : search .jaro "b" 2 ["b", "a", "B", "b"] = ["B", "b"] := by
  rw [search_eq (by decide) (by decide +kernel)]
  decide +kernel

end

/-- What a search should find among its candidates: as many distinct ones as it is asked for, if
there are so many, in the order of their ranks, and none that another candidate ranks before. -/
structure IsBest (a : Algorithm) (query : String) (n : Nat) (candidates found : List String) :
    Prop where
  length_eq : found.length = min n candidates.toFinset.card
  nodup : found.Nodup
  subset : ∀ c ∈ found, c ∈ candidates
  ranked : found.Pairwise (RanksBefore a query)
  none_before : ∀ c ∈ candidates, c ∉ found → ∀ d ∈ found, ¬RanksBefore a query c d

/-- Where all scores are numbers, a search finds the best candidates, and it does not matter in
which order and how often they are given. -/
theorem search_finds_best (a : Algorithm) (query : String) (n : Nat) (candidates : List String)
    (hquery : query ≠ "") (hnumbers : ∀ c ∈ candidates, (scoreFor a query c).isNaN = false) :
    IsBest a query n candidates (search a query n candidates) ∧
      ∀ others : List String, (∀ c, c ∈ others ↔ c ∈ candidates) →
        search a query n others = search a query n candidates := by
  have hstrict := strict_of_rank (rank_injective a query)
  have hascending := Ordered.ascending_ofList hstrict candidates
  have hmem := Ordered.mem_ofList hstrict candidates
  have hsearch := search_eq hquery hnumbers n
  have hsubset : ∀ c ∈ search a query n candidates, c ∈ candidates := by
    rw [hsearch]
    exact fun c hc => (hmem c).mp (List.mem_of_mem_take hc)
  have hranks : ∀ c ∈ candidates, ∀ d ∈ candidates,
      (decide (rank a query c < rank a query d) = true ↔ RanksBefore a query c d) :=
    fun c hc d hd => decide_eq_true_iff.trans (rank_lt_iff (hnumbers c hc) (hnumbers d hd))
  constructor
  · constructor
    · rw [hsearch, List.length_take, length_ofList hstrict]
    · rw [hsearch]
      exact (hascending.nodup hstrict).sublist (List.take_sublist n _)
    · exact hsubset
    · have hpairs : (search a query n candidates).Pairwise
          fun c d => decide (rank a query c < rank a query d) = true := by
        rw [hsearch]
        exact List.Pairwise.sublist (List.take_sublist n _) hascending
      exact hpairs.imp_of_mem fun hc hd hcd =>
        (hranks _ (hsubset _ hc) _ (hsubset _ hd)).mp hcd
    · intro c hc hout d hd hcd
      have hfirst := (hranks c hc d (hsubset d hd)).mpr hcd
      rw [hsearch] at hout hd
      have hlast := hascending.before_of_notMem_take ((hmem c).mpr hc) hout hd
      rw [hstrict.asymm hfirst] at hlast
      cases hlast
  · intro others hsame
    rw [hsearch, search_eq hquery fun c hc => hnumbers c ((hsame c).mp hc),
      Ordered.ofList_congr hstrict hsame]

theorem search_finds_best_of_repeated :
    ("b" ≠ "" ∧ ∀ c ∈ ["b", "a", "B", "b"], (scoreFor .jaro "b" c).isNaN = false) ∧
      IsBest .jaro "b" 2 ["b", "a", "B", "b"] (search .jaro "b" 2 ["b", "a", "B", "b"]) ∧
      search .jaro "b" 2 ["b", "B", "a", "b"] = search .jaro "b" 2 ["b", "a", "B", "b"] := by
  have hnumbers : ∀ c ∈ ["b", "a", "B", "b"], (scoreFor .jaro "b" c).isNaN = false := by
    decide +kernel
  obtain ⟨hbest, hothers⟩ :=
    search_finds_best .jaro "b" 2 ["b", "a", "B", "b"] (by decide) hnumbers
  refine ⟨⟨by decide, hnumbers⟩, hbest, ?_⟩
  exact hothers ["b", "a", "B", "b"].reverse fun _ => List.mem_reverse

end PlatformCatalog.Ranking
