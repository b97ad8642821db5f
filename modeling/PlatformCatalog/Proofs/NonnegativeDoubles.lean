import PlatformCatalog.Proofs.DoubleOrder
import PlatformCatalog.Time.Duration

/-!
# Doubles that are not below zero

Sums, products and powers of doubles that are not below zero are not below
zero, and so are the seconds that a number of nanoseconds takes. What is not
a number counts as not below zero, as do both zeros.
-/

set_option autoImplicit false

namespace PlatformCatalog.Time

open Float.Model (UnpackedFloat Format)
open Float.Model.UnpackedFloat hiding normalize

def Nonneg : UnpackedFloat → Prop
  | .infinity s | .finite s _ _ _ => s = .positive
  | .zero _ | .notANumber => True

theorem unpackSign_packComponents (spec : Format) (s : Sign) (e : BitVec spec.exponentBits)
    (m : BitVec spec.mantissaBitsWithoutImplicit) :
    unpackSign (packComponents spec s e m) = s.toBitVec := by
  ext i hi
  obtain rfl : i = 0 := by omega
  simp [unpackSign, packComponents, BitVec.getLsbD_append, BitVec.getElem_append]

theorem nonneg_unpack {spec : Format} {b : BitVec spec.numBits} (hb : unpackSign b = 0#1) :
    Nonneg (unpack spec b) := by
  have hs : Sign.ofBitVec (unpackSign b) = .positive := by rw [hb]; rfl
  simp only [unpack, hs]
  split_ifs <;> trivial

theorem nonneg_unpack_pack {x : UnpackedFloat} (hx : Nonneg x) :
    Nonneg (unpack .binary64 (pack .binary64 x)) := by
  cases x with
  | zero s =>
    have hz : unpack .binary64 (pack .binary64 (.zero s)) = .zero (.ofBitVec s.toBitVec) := by
      cases s <;> rfl
    rw [hz]
    trivial
  | notANumber => exact nonneg_unpack (unpackSign_packComponents ..)
  | infinity s =>
    obtain rfl : s = .positive := hx
    exact nonneg_unpack (unpackSign_packComponents ..)
  | finite s m e hm =>
    obtain rfl : s = .positive := hx
    apply nonneg_unpack
    simp only [pack]
    split_ifs <;> exact unpackSign_packComponents ..

theorem nonneg_roundWithAccuracy (spec : Format) (m : ℕ) (e : ℤ) (acc : Accuracy) :
    Nonneg (roundWithAccuracy spec .positive m e acc) := by
  fun_cases roundWithAccuracy <;> trivial

theorem nonneg_normalize (spec : Format) {m : ℤ} (hm : 0 ≤ m) (e : ℤ) (s : Sign) :
    Nonneg (Float.Model.UnpackedFloat.normalize spec m e s) := by
  fun_cases Float.Model.UnpackedFloat.normalize with
  | case1 hlt => exact absurd (Int.compare_eq_lt.1 hlt) (by omega)
  | case2 => trivial
  | case3 => exact nonneg_roundWithAccuracy ..

theorem nonneg_mul (spec : Format) {x y : UnpackedFloat} (hx : Nonneg x) (hy : Nonneg y) :
    Nonneg (mul spec x y) := by
  rcases x with _ | _ | _ | _ <;> rcases y with _ | _ | _ | _ <;> cases hx <;> cases hy <;>
    first | trivial | exact nonneg_roundWithAccuracy ..

theorem nonneg_add (spec : Format) {x y : UnpackedFloat} (hx : Nonneg x) (hy : Nonneg y) :
    Nonneg (add spec x y) := by
  have hsum (m n : ℕ) : 0 ≤ Sign.positive.apply m + Sign.positive.apply n := by
    simp only [Sign.apply]
    omega
  rcases x with _ | _ | s | _ <;> rcases y with _ | _ | t | _ <;> cases hx <;> cases hy
  case zero.zero.intro.intro => cases s <;> cases t <;> trivial
  all_goals first | trivial | exact nonneg_normalize spec (hsum _ _) _ _

/-- A quotient by the zero below zero would be the infinity there. -/
theorem nonneg_div (spec : Format) {x y : UnpackedFloat} (hx : Nonneg x) (hy : Nonneg y)
    (hz : ∀ s, y ≠ .zero s) : Nonneg (div spec x y) := by
  rcases x with _ | _ | _ | _ <;> rcases y with _ | _ | _ | _ <;> cases hx <;> cases hy <;>
    first | trivial | exact nonneg_roundWithAccuracy .. | exact absurd rfl (hz _)

theorem nonneg_ofNat (spec : Format) (n : ℕ) : Nonneg (ofNat spec n) :=
  nonneg_normalize spec (Int.natCast_nonneg n) 0 .positive

theorem nonneg_ofScientific (spec : Format) (m : ℕ) (e : ℤ) : Nonneg (ofScientific spec m e) := by
  rw [ofScientific]
  split_ifs
  · trivial
  · trivial
  · trivial
  · exact nonneg_mul spec rfl rfl
  · exact nonneg_div spec rfl rfl (by simp)

theorem not_lt_zero_iff {x : Float} : ¬ x < 0.0 ↔ Nonneg x.toModel.unpack := by
  have h0 : (0.0 : Float).toModel.unpack = .zero .positive := rfl
  rw [Ranking.lt_iff_compare, h0]
  rcases x.toModel.unpack with (_ | _) | _ | _ | ⟨_ | _, m, e, _⟩ <;>
    simp [UnpackedFloat.compare, Nonneg]

theorem one_not_lt_zero : ¬ (1.0 : Float) < 0.0 := by decide +kernel

theorem mul_not_lt_zero {x y : Float} (hx : ¬ x < 0.0) (hy : ¬ y < 0.0) : ¬ x * y < 0.0 :=
  not_lt_zero_iff.2 (nonneg_unpack_pack
    (nonneg_mul _ (not_lt_zero_iff.1 hx) (not_lt_zero_iff.1 hy)))

theorem add_not_lt_zero {x y : Float} (hx : ¬ x < 0.0) (hy : ¬ y < 0.0) : ¬ x + y < 0.0 :=
  not_lt_zero_iff.2 (nonneg_unpack_pack
    (nonneg_add _ (not_lt_zero_iff.1 hx) (not_lt_zero_iff.1 hy)))

theorem div_billion_not_lt_zero {x : Float} (hx : ¬ x < 0.0) : ¬ x / 1e9 < 0.0 := by
  have hy : (1e9 : Float).toModel.unpack =
      .finite .positive 8388608000000000 (-23) (by decide) := rfl
  refine not_lt_zero_iff.2 (nonneg_unpack_pack (nonneg_div _ (not_lt_zero_iff.1 hx) ?_ ?_))
  · rw [hy]
    rfl
  · simp [hy]

theorem toFloat_not_lt_zero (n : ℕ) : ¬ n.toFloat < 0.0 := by
  change ¬ Float.ofScientific n false 0 < 0.0
  rw [Float.ofScientific]
  split
  case isTrue h =>
    have hone : Float.exactlyRepresentablePowersOfTen[0] = 1.0 := rfl
    rw [if_neg (by simp), hone]
    exact mul_not_lt_zero (not_lt_zero_iff.2 (nonneg_unpack_pack (nonneg_ofNat ..))) one_not_lt_zero
  case isFalse h =>
    exact not_lt_zero_iff.2 (nonneg_unpack_pack (nonneg_ofScientific ..))

theorem secondsOfNanos_not_lt_zero (nanos : ℕ) : ¬ secondsOfNanos nanos < 0.0 :=
  add_not_lt_zero (toFloat_not_lt_zero _) (div_billion_not_lt_zero (toFloat_not_lt_zero _))

theorem powerTimes_not_lt_zero {acc x : Float} (hacc : ¬ acc < 0.0) (hx : ¬ x < 0.0) (n : ℕ) :
    ¬ powerTimes acc x n < 0.0 := by
  have next {acc x : Float} (hacc : ¬ acc < 0.0) (hx : ¬ x < 0.0) (n : ℕ) :
      ¬ (if n % 2 = 1 then acc * x else acc) < 0.0 := by
    split
    · exact mul_not_lt_zero hacc hx
    · exact hacc
  fun_induction powerTimes acc x n with
  | case1 acc x n _ _ => exact next hacc hx n
  | case2 acc x n _ _ ih => exact ih (next hacc hx n) (mul_not_lt_zero hx hx)

theorem power_not_lt_zero {x : Float} (hx : ¬ x < 0.0) (n : ℕ) : ¬ power x n < 0.0 :=
  powerTimes_not_lt_zero one_not_lt_zero hx n

end PlatformCatalog.Time
