import Mathlib.Data.List.Forall2
import PlatformCatalog.Similarity.Matching

/-!
# The matching is greedy from both sides

A character is matched with the first free equal one that is near enough. So
whenever two places could be matched and are not, one of them is matched with
an earlier place. There is only one such pairing of places, and the condition
reads the same from both rows: it does not matter which row is gone through.
-/

set_option autoImplicit false

namespace PlatformCatalog.Matching

variable {α : Type} {w : Nat} {xs ys before : List α} {M N : Nat → Nat → Prop} {i j : Nat}

def Near (w : Nat) (xs ys : List α) (i j : Nat) : Prop :=
  i ≤ j + w ∧ j ≤ i + w ∧ ∃ x, xs[i]? = some x ∧ ys[j]? = some x

theorem Near.symm (h : Near w xs ys i j) : Near w ys xs j i := by
  obtain ⟨hij, hji, x, hi, hj⟩ := h
  exact ⟨hji, hij, x, hj, hi⟩

theorem Near.lt_length (h : Near w xs ys i j) : i < xs.length := by
  obtain ⟨_, _, x, hi, _⟩ := h
  exact (List.getElem?_eq_some_iff.mp hi).1

/-- A pairing of near places. Of two near places that are not paired with each other, one is
paired with a place before the other. -/
structure IsGreedy (w : Nat) (xs ys : List α) (M : Nat → Nat → Prop) : Prop where
  near : ∀ {i j}, M i j → Near w xs ys i j
  right_unique : ∀ {i j j'}, M i j → M i j' → j = j'
  left_unique : ∀ {i i' j}, M i j → M i' j → i = i'
  earlier : ∀ {i j}, Near w xs ys i j → ¬M i j → (∃ j' < j, M i j') ∨ ∃ i' < i, M i' j

namespace IsGreedy

theorem symm (h : IsGreedy w xs ys M) : IsGreedy w ys xs fun j i => M i j where
  near hM := (h.near hM).symm
  right_unique := h.left_unique
  left_unique := h.right_unique
  earlier hnear hM := (h.earlier hnear.symm hM).symm

/-- What is paired in one greedy pairing is paired in another one that agrees on all pairs that
lie nearer to the beginnings. -/
theorem imp_of_earlier (hM : IsGreedy w xs ys M) (hN : IsGreedy w xs ys N)
    (hbefore : ∀ i' j', i' + j' < i + j → N i' j' → M i' j') (h : M i j) : N i j := by
  by_contra hnot
  rcases hN.earlier (hM.near h) hnot with ⟨j', hlt, hj'⟩ | ⟨i', hlt, hi'⟩
  · have heq := hM.right_unique h (hbefore i j' (by omega) hj')
    omega
  · have heq := hM.left_unique h (hbefore i' j (by omega) hi')
    omega

theorem unique (hM : IsGreedy w xs ys M) (hN : IsGreedy w xs ys N) (i j : Nat) :
    M i j ↔ N i j := by
  induction hsum : i + j using Nat.strongRecOn generalizing i j with
  | ind n ih =>
    have hbefore : ∀ i' j', i' + j' < i + j → (M i' j' ↔ N i' j') := fun i' j' hlt =>
      ih (i' + j') (hsum ▸ hlt) i' j' rfl
    exact ⟨hM.imp_of_earlier hN fun i' j' hlt => (hbefore i' j' hlt).mpr,
      hN.imp_of_earlier hM fun i' j' hlt => (hbefore i' j' hlt).mp⟩

theorem self (w : Nat) (xs : List α) : IsGreedy w xs xs fun i j => i = j ∧ i < xs.length where
  near := by
    rintro i _ ⟨rfl, hi⟩
    exact ⟨by omega, by omega, xs[i], by simp [hi], by simp [hi]⟩
  right_unique := by
    rintro i j j' ⟨rfl, _⟩ ⟨rfl, _⟩
    rfl
  left_unique := by
    rintro i i' j ⟨rfl, _⟩ ⟨rfl, _⟩
    rfl
  earlier := by
    intro i j hnear hne
    have hi := hnear.lt_length
    have hj := hnear.symm.lt_length
    rcases Nat.lt_trichotomy i j with hlt | rfl | hlt
    · exact .inl ⟨i, hlt, rfl, hi⟩
    · exact absurd ⟨rfl, hi⟩ hne
    · exact .inr ⟨j, hlt, rfl, hj⟩

end IsGreedy

section

variable [DecidableEq α] {x : α} {low high k : Nat} {places places' : List (Place α)}

def Fits (x : α) (low high j : Nat) (p : Place α) : Prop :=
  low ≤ j ∧ j < high ∧ p.taken = false ∧ x = p.character

theorem take_eq_none_iff :
    take x low high k places = none ↔
      ∀ j p, places[j]? = some p → ¬Fits x low high (k + j) p := by
  induction places generalizing k with
  | nil => simp [take]
  | cons p ps ih =>
    rw [take]
    split
    · next hfits =>
      simp only [reduceCtorEq, false_iff]
      intro hnone
      exact hnone 0 p rfl hfits
    · next hfits =>
      rw [Option.map_eq_none_iff, ih]
      constructor
      · rintro hrest (_ | j) q hq
        · cases hq
          exact hfits
        · have hnot := hrest j q hq
          rwa [Nat.add_right_comm] at hnot
      · intro hall j q hq
        rw [Nat.add_right_comm]
        exact hall (j + 1) q hq

theorem exists_of_take_eq_some (h : take x low high k places = some places') :
    ∃ j p, places[j]? = some p ∧ Fits x low high (k + j) p ∧
      places' = places.set j ⟨x, true⟩ ∧
      ∀ j' < j, ∀ q, places[j']? = some q → ¬Fits x low high (k + j') q := by
  induction places generalizing k places' with
  | nil => cases h
  | cons p ps ih =>
    rw [take] at h
    split at h
    · next hfits =>
      cases h
      exact ⟨0, p, rfl, hfits, by rw [hfits.2.2.2]; rfl, by simp⟩
    · next hfits =>
      obtain ⟨rest, hrest, rfl⟩ := Option.map_eq_some_iff.mp h
      obtain ⟨j, q, hq, hj, rfl, hfirst⟩ := ih hrest
      refine ⟨j + 1, q, hq, by rwa [Nat.add_right_comm] at hj, rfl, ?_⟩
      rintro (_ | j') hlt r hr
      · cases hr
        exact hfits
      · have hnot := hfirst j' (by omega) r hr
        rwa [Nat.add_right_comm] at hnot

end

/-- The characters `before` have been gone through, and `M` tells which places they have taken. -/
structure Tracks (w : Nat) (ys before : List α) (places : List (Place α))
    (M : Nat → Nat → Prop) : Prop where
  greedy : IsGreedy w before ys M
  characters : places.map (·.character) = ys
  taken : ∀ j p, places[j]? = some p → (p.taken = true ↔ ∃ i, M i j)

section

variable {places : List (Place α)} {x : α}

theorem Tracks.getElem?_eq (h : Tracks w ys before places M) (j : Nat) :
    ys[j]? = places[j]?.map (·.character) := by
  rw [← h.characters, List.getElem?_map]

theorem Tracks.exists_place (h : Tracks w ys before places M) {xs : List α}
    (hnear : Near w xs ys i j) : ∃ p, places[j]? = some p := by
  obtain ⟨_, _, y, _, hy⟩ := hnear
  rw [h.getElem?_eq] at hy
  obtain ⟨p, hp, _⟩ := Option.map_eq_some_iff.mp hy
  exact ⟨p, hp⟩

theorem tracks_start (w : Nat) (ys : List α) :
    Tracks w ys [] (ys.map (⟨·, false⟩)) fun _ _ => False where
  greedy := {
    near := False.elim
    right_unique := False.elim
    left_unique := False.elim
    earlier := fun hnear _ => absurd hnear.lt_length (Nat.not_lt_zero _) }
  characters := by simp [List.map_map, Function.comp_def]
  taken := by
    intro j p hp
    obtain ⟨y, _, rfl⟩ := Option.map_eq_some_iff.mp (List.getElem?_map ▸ hp)
    simp

theorem near_append_iff :
    Near w (before ++ [x]) ys i j ↔
      Near w before ys i j ∨ i = before.length ∧ i ≤ j + w ∧ j ≤ i + w ∧ ys[j]? = some x := by
  rcases Nat.lt_trichotomy i before.length with hlt | rfl | hgt
  · simp [Near, List.getElem?_append_left hlt, Nat.ne_of_lt hlt]
  · simp [Near]
  · have hout : (before ++ [x])[i]? = none := List.getElem?_eq_none (by simp; omega)
    simp [Near, hout, List.getElem?_eq_none (Nat.le_of_lt hgt), Nat.ne_of_gt hgt]

theorem Tracks.near_append (h : Tracks w ys before places M) {p : Place α}
    (hp : places[j]? = some p) (hnear : Near w (before ++ [x]) ys i j) :
    Near w before ys i j ∨
      i = before.length ∧
        (p.taken = false → Fits x (before.length - w) (before.length + w + 1) j p) := by
  rcases near_append_iff.mp hnear with hold | ⟨rfl, hij, hji, hy⟩
  · exact .inl hold
  · rw [h.getElem?_eq, hp] at hy
    exact .inr ⟨rfl, fun hfree => ⟨by omega, by omega, hfree, (Option.some.inj hy).symm⟩⟩

theorem Tracks.skip (h : Tracks w ys before places M)
    (hnone : ∀ j p, places[j]? = some p →
      ¬Fits x (before.length - w) (before.length + w + 1) j p) :
    Tracks w ys (before ++ [x]) places M where
  characters := h.characters
  taken := h.taken
  greedy := {
    near := fun hM => near_append_iff.mpr (.inl (h.greedy.near hM))
    right_unique := h.greedy.right_unique
    left_unique := h.greedy.left_unique
    earlier := by
      intro i j hnear hM
      obtain ⟨p, hp⟩ := h.exists_place hnear
      rcases h.near_append hp hnear with hold | ⟨rfl, hfits⟩
      · exact h.greedy.earlier hold hM
      · cases htaken : p.taken with
        | false => exact absurd (hfits htaken) (hnone j p hp)
        | true =>
          obtain ⟨i', hi'⟩ := (h.taken j p hp).mp htaken
          exact .inr ⟨i', (h.greedy.near hi').lt_length, hi'⟩ }

theorem Tracks.not_paired_next (h : Tracks w ys before places M) (j : Nat) : ¬M before.length j :=
  fun hM => Nat.lt_irrefl _ (h.greedy.near hM).lt_length

section

variable {p : Place α} (h : Tracks w ys before places M) (hp : places[j]? = some p)
  (hfits : Fits x (before.length - w) (before.length + w + 1) j p)

include h hp hfits

theorem Tracks.getElem?_of_fits : ys[j]? = some x := by
  rw [h.getElem?_eq, hp, hfits.2.2.2]
  rfl

theorem Tracks.not_paired_of_fits (i : Nat) : ¬M i j := by
  intro hM
  have hfree := hfits.2.2.1
  rw [(h.taken j p hp).mpr ⟨i, hM⟩] at hfree
  cases hfree

theorem Tracks.greedy_pair
    (hfirst : ∀ j' < j, ∀ q, places[j']? = some q →
      ¬Fits x (before.length - w) (before.length + w + 1) j' q) :
    IsGreedy w (before ++ [x]) ys fun i' j' => M i' j' ∨ i' = before.length ∧ j' = j where
  near := by
    have hlow := hfits.1
    have hhigh := hfits.2.1
    rintro i' j' (hM | ⟨rfl, rfl⟩)
    · exact near_append_iff.mpr (.inl (h.greedy.near hM))
    · exact near_append_iff.mpr
        (.inr ⟨rfl, by omega, by omega, h.getElem?_of_fits hp hfits⟩)
  right_unique := by
    rintro i' j₁ j₂ (h₁ | ⟨rfl, rfl⟩) (h₂ | ⟨heq, rfl⟩)
    · exact h.greedy.right_unique h₁ h₂
    · exact absurd (heq ▸ h₁) (h.not_paired_next j₁)
    · exact absurd h₂ (h.not_paired_next j₂)
    · rfl
  left_unique := by
    rintro i₁ i₂ j' (h₁ | ⟨rfl, rfl⟩) (h₂ | ⟨rfl, heq⟩)
    · exact h.greedy.left_unique h₁ h₂
    · exact absurd (heq ▸ h₁) (h.not_paired_of_fits hp hfits i₁)
    · exact absurd h₂ (h.not_paired_of_fits hp hfits i₂)
    · rfl
  earlier := by
    intro i' j' hnear hnot
    obtain ⟨hM, hne⟩ := not_or.mp hnot
    obtain ⟨q, hq⟩ := h.exists_place hnear
    rcases h.near_append hq hnear with hold | ⟨rfl, hq_fits⟩
    · rcases h.greedy.earlier hold hM with ⟨j₁, hlt, h₁⟩ | ⟨i₁, hlt, h₁⟩
      · exact .inl ⟨j₁, hlt, .inl h₁⟩
      · exact .inr ⟨i₁, hlt, .inl h₁⟩
    · cases htaken : q.taken with
      | true =>
        obtain ⟨i₁, h₁⟩ := (h.taken j' q hq).mp htaken
        exact .inr ⟨i₁, (h.greedy.near h₁).lt_length, .inl h₁⟩
      | false =>
        -- the new character fits here too, so that the place it took comes first
        have hle : ¬j' < j := fun hlt => hfirst j' hlt q hq (hq_fits htaken)
        have hother : j' ≠ j := fun heq => hne ⟨rfl, heq⟩
        exact .inl ⟨j, by omega, .inr ⟨rfl, rfl⟩⟩

theorem Tracks.pair
    (hfirst : ∀ j' < j, ∀ q, places[j']? = some q →
      ¬Fits x (before.length - w) (before.length + w + 1) j' q) :
    Tracks w ys (before ++ [x]) (places.set j ⟨x, true⟩)
      fun i' j' => M i' j' ∨ i' = before.length ∧ j' = j where
  greedy := h.greedy_pair hp hfits hfirst
  characters := by
    obtain ⟨hj, hx⟩ := List.getElem?_eq_some_iff.mp (h.getElem?_of_fits hp hfits)
    rw [List.map_set, h.characters, ← hx]
    exact List.set_getElem_self hj
  taken := by
    intro j' q hq
    by_cases heq : j' = j
    · subst heq
      rw [List.getElem?_set_self (List.getElem?_eq_some_iff.mp hp).1] at hq
      cases hq
      exact ⟨fun _ => ⟨before.length, .inr ⟨rfl, rfl⟩⟩, fun _ => rfl⟩
    · rw [List.getElem?_set_ne (Ne.symm heq)] at hq
      simp only [h.taken j' q hq, heq, and_false, or_false]

end

end

open Classical in
noncomputable def select (p : Nat → Prop) : Nat → List α → List α
  | _, [] => []
  | k, x :: rest => if p k then x :: select p (k + 1) rest else select p (k + 1) rest

theorem select_sublist (p : Nat → Prop) (k : Nat) (xs : List α) : (select p k xs).Sublist xs := by
  induction xs generalizing k with
  | nil => exact List.Sublist.refl []
  | cons x xs ih =>
    rw [select]
    split
    · exact (ih (k + 1)).cons_cons x
    · exact (ih (k + 1)).cons x

theorem select_eq_self {p : Nat → Prop} {k : Nat} (h : ∀ i, i < k + xs.length → p i) :
    select p k xs = xs := by
  induction xs generalizing k with
  | nil => rfl
  | cons x xs ih =>
    rw [List.length_cons] at h
    rw [select, if_pos (h k (by omega)), ih fun i hi => h i (by omega)]

theorem map_filter_taken {p : Nat → Prop} {k : Nat} {places : List (Place α)}
    (h : ∀ j q, places[j]? = some q → (q.taken = true ↔ p (k + j))) :
    (places.filter (·.taken)).map (·.character) =
      select p k (places.map (·.character)) := by
  induction places generalizing k with
  | nil => rfl
  | cons q places ih =>
    have hrest := ih (k := k + 1) fun j r hr => by
      rw [Nat.add_right_comm]
      exact h (j + 1) r hr
    have hfirst := h 0 q rfl
    rw [Nat.add_zero] at hfirst
    rw [List.map_cons, select, List.filter_cons, ← hrest]
    by_cases htaken : q.taken = true
    · rw [if_pos htaken, if_pos (hfirst.mp htaken), List.map_cons]
    · rw [if_neg htaken, if_neg (mt hfirst.mpr htaken)]

theorem window_comm (xs ys : List α) : window ys xs = window xs ys := by
  rw [window, window, Nat.max_comm]

section

variable [DecidableEq α] {places : List (Place α)}

theorem Tracks.run (h : Tracks w ys before places M) (xs : List α) :
    ∃ N, Tracks w ys (before ++ xs) (run w before.length xs places).2 N ∧
      (∀ i < before.length, ∀ j, N i j ↔ M i j) ∧
      (run w before.length xs places).1 = select (fun i => ∃ j, N i j) before.length xs := by
  induction xs generalizing before places M with
  | nil => exact ⟨M, by rwa [List.append_nil], fun _ _ _ => Iff.rfl, rfl⟩
  | cons x xs ih =>
    have hlength : (before ++ [x]).length = before.length + 1 := by simp
    rw [Matching.run]
    cases htake : take x (before.length - w) (before.length + w + 1) 0 places with
    | none =>
      have hskip := h.skip fun j p hp => by
        have hnot := take_eq_none_iff.mp htake j p hp
        rwa [Nat.zero_add] at hnot
      obtain ⟨N, htracks, hsame, hmatched⟩ := ih hskip
      rw [hlength] at htracks hsame hmatched
      rw [List.append_assoc, List.singleton_append] at htracks
      refine ⟨N, htracks, fun i hi j => hsame i (by omega) j, ?_⟩
      rw [select, if_neg]
      · exact hmatched
      · rintro ⟨j, hN⟩
        exact h.not_paired_next j ((hsame before.length (by omega) j).mp hN)
    | some rest =>
      obtain ⟨j, p, hp, hfits, rfl, hfirst⟩ := exists_of_take_eq_some htake
      simp only [Nat.zero_add] at hfits hfirst
      obtain ⟨N, htracks, hsame, hmatched⟩ := ih (h.pair hp hfits hfirst)
      rw [hlength] at htracks hsame hmatched
      rw [List.append_assoc, List.singleton_append] at htracks
      refine ⟨N, htracks, fun i hi j' => ?_, ?_⟩
      · rw [hsame i (by omega) j']
        simp [Nat.ne_of_lt hi]
      · rw [select, if_pos ⟨j, (hsame before.length (by omega) j).mpr (.inr ⟨rfl, rfl⟩)⟩]
        exact congrArg (x :: ·) hmatched

/-- The matched characters of the two rows stand at the places of a greedy pairing. -/
theorem exists_isGreedy (xs ys : List α) :
    ∃ M, IsGreedy (window xs ys) xs ys M ∧
      matchedLeft xs ys = select (fun i => ∃ j, M i j) 0 xs ∧
      matchedRight xs ys = select (fun j => ∃ i, M i j) 0 ys := by
  obtain ⟨M, htracks, _, hmatched⟩ := (tracks_start (window xs ys) ys).run xs
  refine ⟨M, htracks.greedy, hmatched, ?_⟩
  have hplaces := map_filter_taken (k := 0) fun j q hq => by
    rw [Nat.zero_add]
    exact htracks.taken j q hq
  rwa [htracks.characters] at hplaces

theorem matchedLeft_comm (xs ys : List α) : matchedLeft ys xs = matchedRight xs ys := by
  obtain ⟨M, hM, _, hright⟩ := exists_isGreedy xs ys
  obtain ⟨N, hN, hleft, _⟩ := exists_isGreedy ys xs
  rw [window_comm] at hN
  have hsame : (fun j => ∃ i, N j i) = fun j => ∃ i, M i j := by
    funext j
    exact propext (exists_congr fun i => hN.unique hM.symm j i)
  rw [hleft, hright, hsame]

end

end PlatformCatalog.Matching
