import Mathlib.Order.Lattice.Nat
import PlatformCatalog.Proofs.EditScripts

/-!
# Least costs

The least cost of an alignment of two rows follows from the least costs of
shorter rows. The rows are read backwards here, so that the shorter rows are
the beginnings that a table goes through.
-/

set_option autoImplicit false

namespace PlatformCatalog.EditDistance

variable {α : Type} [DecidableEq α] {across : List α → List α → Prop} {a b : List α} {n : Nat}

noncomputable def leastCost (across : List α → List α → Prop) (a b : List α) : Nat :=
  sInf {n | Alignment across n a b}

theorem alignment_length_add_length (across : List α → List α → Prop) (a b : List α) :
    Alignment across (b.length + a.length) a b := by
  have h := ((Alignment.nil : Alignment across 0 [] []).inserts b).deletes a
  rw [List.append_nil, List.append_nil] at h
  exact h.mono (by omega)

theorem alignment_leastCost (across : List α → List α → Prop) (a b : List α) :
    Alignment across (leastCost across a b) a b :=
  Nat.sInf_mem (s := {n | Alignment across n a b}) ⟨_, alignment_length_add_length across a b⟩

theorem leastCost_le_iff : leastCost across a b ≤ n ↔ Alignment across n a b :=
  ⟨(alignment_leastCost across a b).mono, fun h => Nat.sInf_le h⟩

theorem Alignment.length_le (h : Alignment across n a b) :
    a.length ≤ b.length + n ∧ b.length ≤ a.length + n := by
  induction h with
  | nil => exact ⟨Nat.zero_le _, Nat.zero_le _⟩
  | delete _ _ ih | insert _ _ ih | pair _ _ _ ih | swap _ _ _ _ ih =>
    simp only [List.length_cons, List.length_append]
    omega

theorem leastCost_nil_left (b : List α) : leastCost across [] b = b.length := by
  have hle := leastCost_le_iff.mpr (alignment_length_add_length across [] b)
  have hge := (alignment_leastCost across [] b).length_le.2
  simp only [List.length_nil] at hle hge
  omega

theorem leastCost_nil_right (a : List α) : leastCost across a [] = a.length := by
  have hle := leastCost_le_iff.mpr (alignment_length_add_length across a [])
  have hge := (alignment_leastCost across a []).length_le.1
  simp only [List.length_nil] at hle hge
  omega

theorem leastCost_mono {across' : List α → List α → Prop}
    (h : ∀ u v, across u v → across' u v) (a b : List α) :
    leastCost across' a b ≤ leastCost across a b :=
  leastCost_le_iff.mpr ((alignment_leastCost across a b).imp h)

theorem leastCost_comm (h : ∀ u v, across u v → across v u) (a b : List α) :
    leastCost across a b = leastCost across b a :=
  Nat.le_antisymm (leastCost_le_iff.mpr ((alignment_leastCost across b a).symm h))
    (leastCost_le_iff.mpr ((alignment_leastCost across a b).symm h))

theorem leastCost_eq_zero_iff : leastCost across a b = 0 ↔ a = b := by
  constructor
  · intro h
    exact (leastCost_le_iff.mp (Nat.le_of_eq h)).eq_of_zero
  · rintro rfl
    exact Nat.le_zero.mp (leastCost_le_iff.mpr (.refl a))

theorem leastCost_le_max (across : List α → List α → Prop) (a b : List α) :
    leastCost across a b ≤ max a.length b.length := by
  induction a generalizing b with
  | nil => rw [leastCost_nil_left]; omega
  | cons x a ih =>
    cases b with
    | nil => rw [leastCost_nil_right]; omega
    | cons y b =>
      have hpair := leastCost_le_iff.mpr ((alignment_leastCost across a b).pair x y)
      have hcost := cost_le_one x y
      have hrest := ih b
      simp only [List.length_cons]
      omega

/-- The last characters are paired, deleted, inserted or swapped with others. A bound on what the
swaps cost decides about the last possibility. -/
theorem leastCost_cons_cons {x y : α} {swap : Nat}
    (hswap : leastCost across (x :: a) (y :: b) ≤ swap)
    (hleast : ∀ u a' v b', a = u ++ y :: a' → b = v ++ x :: b' → across u v →
      swap ≤ leastCost across a' b' + u.length + v.length + 1) :
    leastCost across (x :: a) (y :: b) =
      min (min (min (leastCost across a b + cost x y) (leastCost across (x :: a) b + 1))
        (leastCost across a (y :: b) + 1)) swap := by
  have hpair := leastCost_le_iff.mpr ((alignment_leastCost across a b).pair x y)
  have hinsert := leastCost_le_iff.mpr ((alignment_leastCost across (x :: a) b).insert y)
  have hdelete := leastCost_le_iff.mpr ((alignment_leastCost across a (y :: b)).delete x)
  have hreached := alignment_leastCost across (x :: a) (y :: b)
  generalize leastCost across (x :: a) (y :: b) = least at *
  cases hreached with
  | pair _ _ h | delete _ h | insert _ h =>
    have hle := leastCost_le_iff.mpr h
    omega
  | swap _ _ huv h =>
    have hle := leastCost_le_iff.mpr h
    have hbest := hleast _ _ _ _ rfl rfl huv
    omega

theorem leastCost_swap_le {x y : α} {u v : List α} (huv : across u v) (a b : List α) :
    leastCost across (x :: (u ++ y :: a)) (y :: (v ++ x :: b)) ≤
      leastCost across a b + u.length + v.length + 1 :=
  leastCost_le_iff.mpr ((alignment_leastCost across a b).swap x y huv)

theorem leastCost_unswapped (x y : α) (a b : List α) :
    leastCost (anywhere false) (x :: a) (y :: b) =
      min (min (leastCost (anywhere false) a b + cost x y)
        (leastCost (anywhere false) a (y :: b) + 1))
        (leastCost (anywhere false) (x :: a) b + 1) := by
  have hpair := leastCost_le_iff.mpr ((alignment_leastCost (anywhere false) a b).pair x y)
  have hcell := leastCost_cons_cons hpair fun _ _ _ _ _ _ huv => absurd huv Bool.false_ne_true
  omega

noncomputable def lastSwap (x y : α) : List α → List α → Option Nat
  | y' :: a, x' :: b => if x = x' ∧ y' = y then some (leastCost adjacent a b + 1) else none
  | _, _ => none

theorem lastSwap_eq_some_iff {x y : α} {swap : Nat} :
    lastSwap x y a b = some swap ↔
      ∃ a' b', a = y :: a' ∧ b = x :: b' ∧ leastCost adjacent a' b' + 1 = swap := by
  unfold lastSwap
  split
  · next y' a x' b =>
    simp only [Option.ite_none_right_eq_some, Option.some.injEq, List.cons.injEq]
    constructor
    · rintro ⟨⟨rfl, rfl⟩, hswap⟩
      exact ⟨a, b, ⟨rfl, rfl⟩, ⟨rfl, rfl⟩, hswap⟩
    · rintro ⟨a', b', ⟨rfl, rfl⟩, ⟨rfl, rfl⟩, hswap⟩
      exact ⟨⟨rfl, rfl⟩, hswap⟩
  · next hshort =>
    refine iff_of_false (by simp) ?_
    rintro ⟨a', b', rfl, rfl, _⟩
    exact hshort y a' x b' rfl rfl

theorem leastCost_adjacent (x y : α) (a b : List α) :
    leastCost adjacent (x :: a) (y :: b) =
      minWith (min (min (leastCost adjacent a (y :: b) + 1) (leastCost adjacent (x :: a) b + 1))
        (leastCost adjacent a b + cost x y)) (lastSwap x y a b) := by
  cases hswap : lastSwap x y a b with
  | none =>
    have hpair := leastCost_le_iff.mpr ((alignment_leastCost adjacent a b).pair x y)
    have hcell := leastCost_cons_cons hpair fun u a' v b' ha hb huv => by
      obtain ⟨rfl, rfl⟩ := huv
      rw [lastSwap_eq_some_iff.mpr ⟨a', b', ha, hb, rfl⟩] at hswap
      cases hswap
    rw [minWith]
    omega
  | some swap =>
    obtain ⟨a', b', rfl, rfl, rfl⟩ := lastSwap_eq_some_iff.mp hswap
    have hle : leastCost adjacent (x :: y :: a') (y :: x :: b') ≤ leastCost adjacent a' b' + 1 :=
      leastCost_swap_le (u := []) (v := []) ⟨rfl, rfl⟩ a' b'
    have hcell := leastCost_cons_cons hle fun u a'' v b'' ha hb huv => by
      obtain ⟨rfl, rfl⟩ := huv
      obtain ⟨_, rfl⟩ := List.cons.inj ha
      obtain ⟨_, rfl⟩ := List.cons.inj hb
      exact Nat.le_refl _
    rw [minWith]
    omega

omit [DecidableEq α] in
theorem exists_split_of_notMem {x : α} {u u' b b' : List α} (hu : x ∉ u)
    (h : u ++ x :: b = u' ++ x :: b') : ∃ w, b = w ++ b' ∧ u.length + w.length = u'.length := by
  induction u generalizing u' with
  | nil =>
    cases u' with
    | nil =>
      cases h
      exact ⟨[], rfl, rfl⟩
    | cons z u' =>
      cases h
      exact ⟨u' ++ [x], by simp, by simp⟩
  | cons z u ih =>
    obtain ⟨hz, hu⟩ := not_or.mp (mt List.mem_cons.mpr hu)
    cases u' with
    | nil =>
      cases h
      exact absurd rfl hz
    | cons z' u' =>
      rw [List.cons_append, List.cons_append] at h
      obtain ⟨w, hw, hlength⟩ := ih hu (List.cons.inj h).2
      exact ⟨w, hw, by simp only [List.length_cons]; omega⟩

theorem leastCost_append_le (across : List α → List α → Prop) (u v a b : List α) :
    leastCost across (u ++ a) (v ++ b) ≤ leastCost across a b + u.length + v.length :=
  leastCost_le_iff.mpr (((alignment_leastCost across a b).deletes u).inserts v)

theorem leastCost_anywhere {x y : α} {u v : List α} (hu : y ∉ u) (hv : x ∉ v) (a b : List α) :
    leastCost (anywhere true) (x :: (u ++ y :: a)) (y :: (v ++ x :: b)) =
      min (min (min (leastCost (anywhere true) (u ++ y :: a) (v ++ x :: b) + cost x y)
        (leastCost (anywhere true) (x :: (u ++ y :: a)) (v ++ x :: b) + 1))
        (leastCost (anywhere true) (u ++ y :: a) (y :: (v ++ x :: b)) + 1))
        (leastCost (anywhere true) a b + u.length + v.length + 1) := by
  have hle : leastCost (anywhere true) (x :: (u ++ y :: a)) (y :: (v ++ x :: b)) ≤
      leastCost (anywhere true) a b + u.length + v.length + 1 :=
    leastCost_swap_le (anywhere_true u v) a b
  refine leastCost_cons_cons hle fun u' a' v' b' ha hb _ => ?_
  obtain ⟨s, rfl, hs⟩ := exists_split_of_notMem hu ha
  obtain ⟨t, rfl, ht⟩ := exists_split_of_notMem hv hb
  have hmore := leastCost_append_le (anywhere true) s t a' b'
  omega

end PlatformCatalog.EditDistance
