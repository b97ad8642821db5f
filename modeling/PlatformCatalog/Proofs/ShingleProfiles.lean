import Mathlib.Algebra.BigOperators.Group.Finset.Basic
import Mathlib.Algebra.Order.BigOperators.Ring.Finset
import PlatformCatalog.Similarity.Shingle

/-!
# Shingle profiles as sums

A profile has one entry for each of its shingles, with a positive count. So
what is computed along its entries is a sum over its shingles, and what two
profiles have in common or apart is a sum over the shingles of both.
-/

set_option autoImplicit false

namespace PlatformCatalog.Shingle

variable {α : Type} [DecidableEq α] {p q : Profile α} {s : List α}

def shingles (p : Profile α) : Finset (List α) := (p.map (·.1)).toFinset

structure IsProfile (p : Profile α) : Prop where
  nodup : (p.map (·.1)).Nodup
  positive : ∀ e ∈ p, 0 < e.2
  ne_nil : p ≠ []

theorem map_add_of_mem (h : s ∈ p.map (·.1)) : (add s p).map (·.1) = p.map (·.1) := by
  induction p with
  | nil => cases h
  | cons e p ih =>
    rw [add]
    split
    · next heq => rfl
    · next hne =>
      have hrest := (List.mem_cons.mp h).resolve_left hne
      exact congrArg (e.1 :: ·) (ih hrest)

theorem map_add_of_notMem (h : s ∉ p.map (·.1)) : (add s p).map (·.1) = p.map (·.1) ++ [s] := by
  induction p with
  | nil => rfl
  | cons e p ih =>
    obtain ⟨hne, hrest⟩ := not_or.mp (mt List.mem_cons.mpr h)
    rw [add, if_neg hne]
    exact congrArg (e.1 :: ·) (ih hrest)

theorem positive_add (h : ∀ e ∈ p, 0 < e.2) : ∀ e ∈ add s p, 0 < e.2 := by
  induction p with
  | nil => simp [add]
  | cons e p ih =>
    obtain ⟨he, hrest⟩ := List.forall_mem_cons.mp h
    rw [add]
    split
    · exact List.forall_mem_cons.mpr ⟨Nat.succ_pos e.2, hrest⟩
    · exact List.forall_mem_cons.mpr ⟨he, ih hrest⟩

theorem nodup_add (h : (p.map (·.1)).Nodup) : ((add s p).map (·.1)).Nodup := by
  by_cases hs : s ∈ p.map (·.1)
  · rwa [map_add_of_mem hs]
  · rw [map_add_of_notMem hs]
    refine List.nodup_append.mpr ⟨h, List.nodup_singleton s, ?_⟩
    rintro t ht _ hu rfl
    exact hs (List.mem_singleton.mp hu ▸ ht)

theorem add_ne_nil (s : List α) (p : Profile α) : add s p ≠ [] := by
  cases p with
  | nil => simp [add]
  | cons e p =>
    rw [add]
    split <;> simp

omit [DecidableEq α] in
theorem ofChars_ne_nil (xs : List α) : ofChars xs ≠ [] := by
  rcases xs with _ | ⟨x, _ | ⟨y, rest⟩⟩
  · simp [ofChars]
  · simp [ofChars]
  · rw [ofChars, if_neg (by simp)]
    simp [pairs]

theorem isProfile_profile (xs : List α) : IsProfile (profile xs) := by
  have hstep : ∀ (rows : List (List α)) (p : Profile α), (p.map (·.1)).Nodup →
      (∀ e ∈ p, 0 < e.2) → rows ≠ [] ∨ p ≠ [] →
      IsProfile (rows.foldl (fun p s => add s p) p) := by
    intro rows
    induction rows with
    | nil => exact fun p hnodup hpositive hne => ⟨hnodup, hpositive, hne.resolve_left (by simp)⟩
    | cons s rows ih =>
      exact fun p hnodup hpositive _ =>
        ih (add s p) (nodup_add hnodup) (positive_add hpositive) (.inr (add_ne_nil s p))
  exact hstep (ofChars xs) [] List.nodup_nil (by simp) (.inl (ofChars_ne_nil xs))

theorem has_iff : has s p = true ↔ s ∈ shingles p := by
  rw [has, List.any_eq_true, shingles, List.mem_toFinset, List.mem_map]
  simp only [decide_eq_true_eq]

theorem shingles_cons (e : List α × Nat) (p : Profile α) :
    shingles (e :: p) = insert e.1 (shingles p) := by
  rw [shingles, List.map_cons, List.toFinset_cons, ← shingles]

theorem count_cons (e : List α × Nat) (p : Profile α) :
    count s (e :: p) = if e.1 = s then e.2 else count s p := by
  rw [count, List.find?_cons]
  by_cases h : e.1 = s <;> simp [h, count]

theorem count_eq_zero (h : s ∉ shingles p) : count s p = 0 := by
  induction p with
  | nil => rfl
  | cons e p ih =>
    rw [shingles_cons, Finset.mem_insert, not_or] at h
    rw [count_cons, if_neg (Ne.symm h.1), ih h.2]

theorem sumBy_eq (f : List α × Nat → Nat) (h : (p.map (·.1)).Nodup) :
    sumBy f p = ∑ s ∈ shingles p, f (s, count s p) := by
  induction p with
  | nil => rfl
  | cons e p ih =>
    obtain ⟨hnew, hrest⟩ := List.nodup_cons.mp h
    have hnotMem : e.1 ∉ shingles p := mt List.mem_toFinset.mp hnew
    rw [sumBy, shingles_cons, Finset.sum_insert hnotMem, count_cons, if_pos rfl, ih hrest]
    congr 1
    apply Finset.sum_congr rfl
    intro s hs
    have hne : e.1 ≠ s := fun heq => hnotMem (heq ▸ hs)
    rw [count_cons, if_neg hne]

/-- A sum over the shingles of one profile goes over those of both, where its terms are zero for
the others. -/
theorem sum_shingles_left {f : List α → Nat} (q : Profile α) (hf : ∀ s ∉ shingles p, f s = 0) :
    ∑ s ∈ shingles p, f s = ∑ s ∈ shingles p ∪ shingles q, f s :=
  Finset.sum_subset Finset.subset_union_left fun s _ hs => hf s hs

theorem squares_eq (hp : IsProfile p) (q : Profile α) :
    squares p = ∑ s ∈ shingles p ∪ shingles q, count s p ^ 2 := by
  rw [squares, sumBy_eq _ hp.nodup, ← sum_shingles_left q]
  · simp only [sq]
  · intro s hs
    rw [count_eq_zero hs]
    rfl

theorem total_eq (hp : IsProfile p) (q : Profile α) :
    total p = ∑ s ∈ shingles p ∪ shingles q, count s p := by
  rw [total, sumBy_eq _ hp.nodup, ← sum_shingles_left q]
  exact fun s hs => count_eq_zero hs

theorem dot_eq (hp : IsProfile p) (q : Profile α) :
    dot p q = ∑ s ∈ shingles p ∪ shingles q, count s p * count s q := by
  rw [dot, sumBy_eq _ hp.nodup, ← sum_shingles_left q]
  intro s hs
  rw [count_eq_zero hs, Nat.zero_mul]

theorem count_filter {g : List α → Bool} (hs : g s = true) :
    count s (p.filter fun e => g e.1) = count s p := by
  induction p with
  | nil => rfl
  | cons e p ih =>
    rw [List.filter_cons, count_cons]
    by_cases he : e.1 = s
    · rw [if_pos (he ▸ hs), count_cons, if_pos he, if_pos he]
    · rw [if_neg he]
      split
      · rw [count_cons, if_neg he, ih]
      · exact ih

theorem shingles_filter (g : List α → Bool) (p : Profile α) :
    shingles (p.filter fun e => g e.1) = (shingles p).filter fun s => g s = true := by
  ext s
  rw [Finset.mem_filter, shingles, shingles, List.mem_toFinset, List.mem_toFinset, List.mem_map,
    List.mem_map]
  constructor
  · rintro ⟨e, he, rfl⟩
    obtain ⟨hmem, hg⟩ := List.mem_filter.mp he
    exact ⟨⟨e, hmem, rfl⟩, hg⟩
  · rintro ⟨⟨e, hmem, rfl⟩, hg⟩
    exact ⟨e, List.mem_filter.mpr ⟨hmem, hg⟩, rfl⟩

omit [DecidableEq α] in
theorem nodup_filter (hp : IsProfile p) (g : List α × Nat → Bool) :
    ((p.filter g).map (·.1)).Nodup :=
  hp.nodup.sublist (List.filter_sublist.map _)

theorem length_eq (h : (p.map (·.1)).Nodup) : p.length = (shingles p).card := by
  rw [shingles, List.toFinset_card_of_nodup h, List.length_map]

theorem common_eq (hp : IsProfile p) (q : Profile α) :
    common p q = (shingles p ∩ shingles q).card := by
  have hlength := length_eq (nodup_filter hp fun e => has e.1 q)
  rw [shingles_filter fun s => has s q] at hlength
  simp only [has_iff, Finset.filter_mem_eq_inter] at hlength
  rw [common, List.countP_eq_length_filter, hlength]

theorem union_eq (hp : IsProfile p) (hq : IsProfile q) :
    union p q = (shingles p ∪ shingles q).card := by
  rw [union, common_eq hp, length_eq hp.nodup, length_eq hq.nodup, Finset.card_union]

theorem total_filter (hq : IsProfile q) (p : Profile α) :
    total (q.filter fun e => !has e.1 p) = ∑ s ∈ shingles q \ shingles p, count s q := by
  have hothers : ((shingles q).filter fun s => (!has s p) = true) = shingles q \ shingles p := by
    simp only [Bool.not_eq_true', ← Bool.not_eq_true, has_iff, Finset.filter_notMem_eq_sdiff]
  rw [total, sumBy_eq _ (nodup_filter hq _), shingles_filter fun s => !has s p, ← hothers]
  apply Finset.sum_congr rfl
  intro s hs
  exact count_filter (g := fun s => !has s p) (Finset.mem_filter.mp hs).2

theorem difference_eq (hp : IsProfile p) (hq : IsProfile q) :
    difference p q = ∑ s ∈ shingles p ∪ shingles q,
      ((count s p - count s q) + (count s q - count s p)) := by
  have hothers : ∀ s ∈ shingles q \ shingles p,
      (count s p - count s q) + (count s q - count s p) = count s q := by
    intro s hs
    rw [count_eq_zero (Finset.mem_sdiff.mp hs).2]
    omega
  rw [difference, sumBy_eq _ hp.nodup, total_filter hq, ← Finset.union_sdiff_self_eq_union,
    Finset.sum_union Finset.disjoint_sdiff, Finset.sum_congr rfl hothers]

theorem common_le_length (p q : Profile α) : common p q ≤ p.length := List.countP_le_length

variable (hp : IsProfile p) (hq : IsProfile q)

include hp hq

theorem common_comm : common q p = common p q := by
  rw [common_eq hp, common_eq hq, Finset.inter_comm]

theorem union_comm : union q p = union p q := by
  rw [union_eq hp hq, union_eq hq hp, Finset.union_comm]

theorem dot_comm : dot q p = dot p q := by
  rw [dot_eq hp, dot_eq hq, Finset.union_comm]
  simp only [Nat.mul_comm]

theorem difference_comm : difference q p = difference p q := by
  rw [difference_eq hp hq, difference_eq hq hp, Finset.union_comm]
  simp only [Nat.add_comm]

theorem common_le_union : common p q ≤ union p q := by
  rw [common_eq hp, union_eq hp hq]
  exact Finset.card_le_card Finset.inter_subset_union

theorem length_le_union : p.length ≤ union p q := by
  rw [length_eq hp.nodup, union_eq hp hq]
  exact Finset.card_le_card Finset.subset_union_left

theorem union_pos : 0 < union p q :=
  (List.length_pos_of_ne_nil hp.ne_nil).trans_le (length_le_union hp hq)

theorem dot_sq_le : dot p q ^ 2 ≤ squares p * squares q := by
  rw [dot_eq hp, squares_eq hp q, squares_eq hq p, Finset.union_comm (shingles q)]
  exact Finset.sum_mul_sq_le_sq_mul_sq _ _ _

theorem difference_le : difference p q ≤ total p + total q := by
  rw [difference_eq hp hq, total_eq hp q, total_eq hq p, Finset.union_comm (shingles q),
    ← Finset.sum_add_distrib]
  exact Finset.sum_le_sum fun s _ => by omega

omit hq

omit [DecidableEq α] in
theorem length_pos : 0 < p.length := List.length_pos_of_ne_nil hp.ne_nil

omit [DecidableEq α] in
theorem sumBy_pos {f : List α × Nat → Nat} (hf : ∀ e ∈ p, 0 < f e) : 0 < sumBy f p := by
  obtain ⟨e, rest, rfl⟩ := List.exists_cons_of_ne_nil hp.ne_nil
  have hfirst := hf e List.mem_cons_self
  rw [sumBy]
  omega

omit [DecidableEq α] in
theorem squares_pos : 0 < squares p :=
  sumBy_pos hp fun e he => Nat.mul_pos (hp.positive e he) (hp.positive e he)

omit [DecidableEq α] in
theorem total_pos : 0 < total p := sumBy_pos hp hp.positive

theorem common_self : common p p = p.length := by
  rw [common_eq hp, Finset.inter_self, length_eq hp.nodup]

theorem union_self : union p p = p.length := by
  rw [union_eq hp hp, Finset.union_self, length_eq hp.nodup]

theorem dot_self : dot p p = squares p := by
  rw [dot_eq hp, squares_eq hp p]
  simp only [sq]

theorem difference_self : difference p p = 0 := by
  rw [difference_eq hp hp]
  exact Finset.sum_eq_zero fun s _ => by omega

end PlatformCatalog.Shingle
