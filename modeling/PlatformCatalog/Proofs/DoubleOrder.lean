import Mathlib

/-!
# The order of doubles

Doubles that are numbers are ordered like rows of integers: by their sign
and whether they are infinite, then by their exponent, then by their
mantissa. The two zeros stand at one place.
-/

set_option autoImplicit false

namespace PlatformCatalog.Ranking

open Float.Model (UnpackedFloat)

def place : UnpackedFloat → ℤ ×ₗ ℤ ×ₗ ℤ
  | .infinity .negative => toLex (-2, toLex (0, 0))
  | .finite .negative m e _ => toLex (-1, toLex (-e, -m))
  | .zero _ | .notANumber => toLex (0, toLex (0, 0))
  | .finite .positive m e _ => toLex (1, toLex (e, m))
  | .infinity .positive => toLex (2, toLex (0, 0))

theorem compare_sign : compare UnpackedFloat.Sign.negative .negative = .eq ∧
    compare UnpackedFloat.Sign.negative .positive = .lt ∧
    compare UnpackedFloat.Sign.positive .negative = .gt ∧
    compare UnpackedFloat.Sign.positive .positive = .eq := ⟨rfl, rfl, rfl, rfl⟩

theorem compare_eq_lt_iff {x y : UnpackedFloat} (hx : x.isNaN = false) (hy : y.isNaN = false) :
    x.compare y = some .lt ↔ place x < place y := by
  rcases x with (_ | _) | _ | _ | ⟨_ | _, m, e, _⟩ <;>
    rcases y with (_ | _) | _ | _ | ⟨_ | _, m', e', _⟩ <;>
    simp_all [UnpackedFloat.compare, UnpackedFloat.isNaN, place, compare_sign,
      Prod.Lex.toLex_lt_toLex, Ordering.then_eq_lt, Ordering.then_eq_gt, Int.compare_eq_lt,
      Int.compare_eq_gt, Nat.compare_eq_lt, Nat.compare_eq_gt]

theorem compare_eq_eq_iff {x y : UnpackedFloat} (hx : x.isNaN = false) (hy : y.isNaN = false) :
    x.compare y = some .eq ↔ place x = place y := by
  rcases x with (_ | _) | _ | _ | ⟨_ | _, m, e, _⟩ <;>
    rcases y with (_ | _) | _ | _ | ⟨_ | _, m', e', _⟩ <;>
    simp_all [UnpackedFloat.compare, UnpackedFloat.isNaN, place, compare_sign,
      Ordering.then_eq_eq]

def standing (x : Float) : ℤ ×ₗ ℤ ×ₗ ℤ := place x.toModel.unpack

theorem lt_iff_compare {x y : Float} :
    x < y ↔ x.toModel.unpack.compare y.toModel.unpack = some .lt := by
  change decide (x.toModel.unpack.lt y.toModel.unpack = true) = true ↔ _
  rw [decide_eq_true_iff, UnpackedFloat.lt, beq_iff_eq]

theorem lt_iff_standing {x y : Float} (hx : x.isNaN = false) (hy : y.isNaN = false) :
    x < y ↔ standing x < standing y := by
  rw [lt_iff_compare, standing, standing, compare_eq_lt_iff hx hy]

theorem beq_iff_standing {x y : Float} (hx : x.isNaN = false) (hy : y.isNaN = false) :
    (x == y) = true ↔ standing x = standing y := by
  have heq : (x == y) = true ↔ x.toModel.unpack.compare y.toModel.unpack = some .eq := by
    change x.toModel.unpack.beq y.toModel.unpack = true ↔ _
    rw [UnpackedFloat.beq, beq_iff_eq]
  rw [heq, standing, standing, compare_eq_eq_iff hx hy]

end PlatformCatalog.Ranking
