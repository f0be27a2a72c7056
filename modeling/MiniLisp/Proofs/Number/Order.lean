import MiniLisp.Proofs.Number.Double

/-!
# The order of doubles

Two doubles are compared by what they stand for, which gives less, equal or greater, or nothing if
one of them is not a number. The other way round it gives the opposite (`compare_swap`). So the
tests for less, for at most and for equality, each of which reads off this one answer, fit together:
less is at most (`float_le_of_lt`), and equal is at most either way (`float_beq_iff`).
-/

namespace MiniLisp

open Float.Model (UnpackedFloat)
open Float.Model.UnpackedFloat

theorem sign_compare_swap (s t : Sign) : compare s t = (compare t s).swap := by
  cases s <;> cases t <;> rfl

/-- Compared the other way round, two doubles give the opposite answer. -/
theorem compare_swap (u v : UnpackedFloat) : u.compare v = (v.compare u).map Ordering.swap := by
  cases u with
  | notANumber => cases v <;> rfl
  | infinity s =>
    cases v with
    | infinity t => exact congrArg some (sign_compare_swap s t)
    | _ => cases s <;> rfl
  | zero s =>
    cases v with
    | infinity t | finite t => cases t <;> rfl
    | _ => rfl
  | finite s m e hm =>
    cases v with
    | notANumber => rfl
    | infinity t => cases s <;> cases t <;> rfl
    | zero t => cases s <;> rfl
    | finite t n d hn =>
      cases s <;> cases t <;>
        simp [UnpackedFloat.compare, Ordering.swap_then, Int.compare_swap, Nat.compare_swap]

section Tests

variable {x y : Float}

theorem float_lt_iff : x < y ↔ x.toModel.unpack.compare y.toModel.unpack = some .lt := by
  have h : x < y ↔ UnpackedFloat.lt x.toModel.unpack y.toModel.unpack = true :=
    decide_eq_true_iff
  rw [h, UnpackedFloat.lt, beq_iff_eq]

theorem float_le_iff :
    x ≤ y ↔ ∃ o, x.toModel.unpack.compare y.toModel.unpack = some o ∧ o.isLE = true := by
  have h : x ≤ y ↔ UnpackedFloat.le x.toModel.unpack y.toModel.unpack = true :=
    decide_eq_true_iff
  rw [h, UnpackedFloat.le, Option.any_eq_true]

theorem float_le_of_lt (h : x < y) : x ≤ y :=
  float_le_iff.2 ⟨.lt, float_lt_iff.1 h, rfl⟩

theorem float_beq_iff_compare :
    (x == y) = true ↔ x.toModel.unpack.compare y.toModel.unpack = some .eq := by
  change UnpackedFloat.beq _ _ = true ↔ _
  rw [UnpackedFloat.beq, beq_iff_eq]

theorem float_not_lt_of_beq (h : (x == y) = true) : ¬ x < y := by
  rw [float_lt_iff, float_beq_iff_compare.1 h]
  exact fun heq => nomatch heq

/-- Doubles are equal if each is at most the other. -/
theorem float_beq_iff : (x == y) = true ↔ x ≤ y ∧ y ≤ x := by
  rw [float_beq_iff_compare, float_le_iff, float_le_iff, compare_swap y.toModel.unpack]
  cases x.toModel.unpack.compare y.toModel.unpack with
  | none => simp
  | some o => cases o <;> simp

end Tests

end MiniLisp
