import PlatformCatalog.Proofs.RankedSearch
import PlatformCatalog.Proofs.TopScores

/-!
# What a search finds first

Scores are compared as exact numbers here. No candidate has a higher score
than the query itself, but an algorithm that sees shingles only gives the same
one to other texts. Of all these the smallest is found first.
-/

set_option autoImplicit false

namespace PlatformCatalog.Ranking

open Algorithm Text

/-- Of two exact scores the first is higher. One that is not defined is never compared. -/
noncomputable def higherExact (x y : Exact) : Bool :=
  open Classical in decide (∃ r s, x = some r ∧ y = some s ∧ s < r)

def searchIn {K : Type} [Arithmetic K] (higher : K → K → Bool) (a : Algorithm) (query : String)
    (n : Nat) (candidates : List String) : List String :=
  if query.isEmpty ∨ n = 0 then []
  else
    let query := lowercase query
    best higher (fun c => a.score query (lowercase c)) n candidates

theorem search_eq_searchIn : search = searchIn higherFloat := rfl

noncomputable def exactScoreFor (a : Algorithm) (query c : String) : Exact :=
  a.score (lowercase query) (lowercase c)

noncomputable def exactRank (score : String → Exact) (c : String) : ℝᵒᵈ ×ₗ String :=
  toLex (OrderDual.toDual ((score c).getD 0), c)

theorem exactRank_injective (score : String → Exact) : Function.Injective (exactRank score) := by
  intro c d h
  exact (Prod.mk.inj (toLex_inj.mp h)).2

theorem exactRank_le_iff {score : String → Exact} {c d : String} {r s : ℝ} (hc : score c = some r)
    (hd : score d = some s) :
    exactRank score c ≤ exactRank score d ↔ s < r ∨ r = s ∧ c ≤ d := by
  rw [exactRank, exactRank, hc, hd, Prod.Lex.toLex_le_toLex, OrderDual.toDual_lt_toDual,
    OrderDual.toDual_inj]
  rfl

theorem higherExact_eq (r s : ℝ) : higherExact (some r) (some s) = decide (s < r) := by
  simp [higherExact]

theorem ahead_exact_eq {score : String → Exact} {c d : String} {r s : ℝ} (hc : score c = some r)
    (hd : score d = some s) :
    ahead higherExact ⟨score c, c⟩ ⟨score d, d⟩ =
      decide (exactRank score c ≤ exactRank score d) := by
  rw [Bool.eq_iff_iff, decide_eq_true_iff, exactRank_le_iff hc hd]
  simp only [ahead, hc, hd, higherExact_eq, Bool.or_eq_true, Bool.and_eq_true, Bool.not_eq_true',
    decide_eq_true_eq, decide_eq_false_iff_not, not_lt]
  rcases lt_trichotomy r s with hlt | rfl | hlt
  · simp [hlt.not_gt, hlt.ne, hlt.not_ge]
  · simp
  · simp [hlt]

theorem exists_best_eq_cons {score : String → Exact} {candidates : List String} {n : Nat}
    (hscores : ∀ c ∈ candidates, ∃ r, score c = some r) (hne : candidates ≠ []) (hn : 0 < n) :
    ∃ first rest, best higherExact score n candidates = first :: rest ∧ first ∈ candidates ∧
      ∀ c ∈ candidates, exactRank score first ≤ exactRank score c := by
  have hahead : ∀ c ∈ candidates, ∀ d ∈ candidates, ahead higherExact ⟨score c, c⟩ ⟨score d, d⟩ =
      decide (exactRank score c ≤ exactRank score d) := by
    intro c hc d hd
    obtain ⟨r, hr⟩ := hscores c hc
    obtain ⟨s, hs⟩ := hscores d hd
    exact ahead_exact_eq hr hs
  have hbest := best_eq (exactRank_injective score) hahead n
  have hstrict := strict_of_rank (exactRank_injective score)
  have hmem := Ordered.mem_ofList hstrict candidates
  have hascending := Ordered.ascending_ofList hstrict candidates
  obtain ⟨m, rfl⟩ := Nat.exists_eq_succ_of_ne_zero hn.ne'
  cases hrows : Ordered.ofList (fun c d => decide (exactRank score c < exactRank score d))
      candidates with
  | nil =>
    obtain ⟨c, hc⟩ := List.exists_mem_of_ne_nil candidates hne
    rw [hrows] at hmem
    exact absurd ((hmem c).mpr hc) List.not_mem_nil
  | cons first rest =>
    rw [hrows] at hbest hmem hascending
    refine ⟨first, rest.take m, hbest, (hmem first).mp List.mem_cons_self, fun c hc => ?_⟩
    rcases List.mem_cons.mp ((hmem c).mpr hc) with rfl | hrest
    · exact le_rfl
    · exact (of_decide_eq_true ((Ordered.ascending_cons.mp hascending).1 c hrest)).le

theorem exists_best_isLeast {score : String → Exact} {candidates : List String} {n : Nat}
    {own : String} (hscores : ∀ c ∈ candidates, ∃ r : ℝ, score c = some r ∧ r ≤ 1)
    (hmem : own ∈ candidates) (hown : score own = some 1) (hn : 0 < n) :
    ∃ first rest, best higherExact score n candidates = first :: rest ∧
      IsLeast {c | c ∈ candidates ∧ score c = some 1} first := by
  obtain ⟨first, rest, hbest, hfirst, hleast⟩ := exists_best_eq_cons
    (fun c hc => (hscores c hc).imp fun _ h => h.1) (List.ne_nil_of_mem hmem) hn
  obtain ⟨r, hr, hle⟩ := hscores first hfirst
  have hone : r = 1 := by
    rcases (exactRank_le_iff hr hown).mp (hleast own hmem) with hlt | ⟨heq, _⟩
    · exact absurd hlt hle.not_gt
    · exact heq
  rw [hone] at hr
  refine ⟨first, rest, hbest, ⟨hfirst, hr⟩, ?_⟩
  rintro c ⟨hc, hscore⟩
  rcases (exactRank_le_iff hr hscore).mp (hleast c hc) with hlt | ⟨_, hle⟩
  · exact absurd hlt (lt_irrefl 1)
  · exact hle

/-- Among lower-case candidates that include the query, the smallest text that the algorithm cannot
tell from the query is found first. It is the query itself for all algorithms that do not see the
shingles only, and for the others exactly if no smaller candidate is like it. -/
theorem first_found_isLeast (a : Algorithm) {query : String} {n : Nat} {candidates : List String}
    (hquery : query ≠ "") (hn : 1 ≤ n) (hmem : query ∈ candidates)
    (hlower : ∀ c ∈ candidates, lowercase c = c) :
    ∃ first rest, searchIn higherExact a query n candidates = first :: rest ∧
      IsLeast {c | c ∈ candidates ∧ a.Equates query.toList c.toList} first ∧
      (first = query ↔ ∀ c ∈ candidates, a.Equates query.toList c.toList → query ≤ c) ∧
      (a.seesShingles = false → first = query) := by
  have hscore : ∀ c ∈ candidates, exactScoreFor a query c = a.score query c := by
    intro c hc
    rw [exactScoreFor, hlower query hmem, hlower c hc]
  have hequates : ∀ c ∈ candidates,
      exactScoreFor a query c = some 1 ↔ a.Equates query.toList c.toList := by
    intro c hc
    rw [hscore c hc]
    exact score_eq_one_iff a hquery c
  have hsearch : searchIn higherExact a query n candidates =
      best higherExact (exactScoreFor a query) n candidates := by
    apply if_neg
    simp only [String.isEmpty_iff, not_or]
    exact ⟨hquery, Nat.ne_of_gt hn⟩
  have hself : a.Equates query.toList query.toList := equates_self a (by simpa using hquery)
  obtain ⟨first, rest, hbest, hfirst, hleast⟩ := exists_best_isLeast
    (fun c hc => hscore c hc ▸ exists_score_le_one a hquery c) hmem
    ((hequates query hmem).mpr hself) hn
  have hlike : a.Equates query.toList first.toList := (hequates first hfirst.1).mp hfirst.2
  have hbelow : ∀ c ∈ candidates, a.Equates query.toList c.toList → first ≤ c := by
    intro c hc h
    exact hleast ⟨hc, (hequates c hc).mpr h⟩
  refine ⟨first, rest, hsearch.trans hbest, ⟨⟨hfirst.1, hlike⟩, fun c hc => hbelow c hc.1 hc.2⟩,
    ⟨?_, ?_⟩, ?_⟩
  · rintro rfl
    exact hbelow
  · intro h
    exact le_antisymm (hbelow query hmem hself) (h first hfirst.1 hlike)
  · intro hseen
    exact String.toList_injective ((equates_iff_eq hseen).mp hlike).symm

theorem first_found_isLeast_rearranged :
    ("bbab" ≠ "" ∧ 1 ≤ 1 ∧ "bbab" ∈ ["bbab", "abba"] ∧
      ∀ c ∈ ["bbab", "abba"], lowercase c = c) ∧
      ∀ a : Algorithm, a.seesShingles = true →
        ∃ rest, searchIn higherExact a "bbab" 1 ["bbab", "abba"] = "abba" :: rest := by
  have hlower : ∀ c ∈ ["bbab", "abba"], lowercase c = c := by decide
  have hshingles : (Shingle.ofChars "bbab".toList).Perm (Shingle.ofChars "abba".toList) := by decide
  refine ⟨⟨by decide, le_rfl, by decide, hlower⟩, fun a ha => ?_⟩
  obtain ⟨first, rest, hfound, hleast, -⟩ :=
    first_found_isLeast a (n := 1) (by decide) le_rfl List.mem_cons_self hlower
  have hsmaller : first = "abba" := by
    refine hleast.unique ⟨⟨by decide, equates_of_perm ha hshingles⟩, ?_⟩
    rintro c ⟨hc, -⟩
    revert c
    decide
  rw [hsmaller] at hfound
  exact ⟨rest, hfound⟩

end PlatformCatalog.Ranking
