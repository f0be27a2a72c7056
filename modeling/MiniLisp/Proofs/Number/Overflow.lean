import MiniLisp.Proofs.Number.Readback

/-!
# Decimals beyond the doubles

A literal denotes an infinite double just if its exact value is not below `2 ^ 1024 - 2 ^ 970`, the
number half way between the largest double and the next power of two (`isInf_toFloat_iff`).

Rounding cuts off binary digits and looks at the first of them to round up. So the significand with
that digit is the value in halves of a unit, rounded down (`halves`), whatever stands further on.
Whether the result is too large can be read off this number (`excessive_roundWithAccuracy_iff`), and
in this form it is the same for a product and a quotient.
-/

namespace MiniLisp

open Float.Model (Format UnpackedFloat totalExponent)
open Float.Model.UnpackedFloat

/-! ## Results that are kept as infinite doubles -/

/-- What is kept as an infinite double: infinity, and a number with an exponent beyond the greatest
one. -/
def Excessive : UnpackedFloat → Prop
  | .infinity _ => True
  | .finite _ _ e _ => 971 < e
  | _ => False

theorem unpackExponent_of_unpack_infinity {b : BitVec Format.binary64.numBits} {s : Sign}
    (h : UnpackedFloat.unpack .binary64 b = .infinity s) : unpackExponent b = -1#_ := by
  unfold UnpackedFloat.unpack at h
  dsimp only at h
  split at h
  · assumption
  · split at h
    · split at h
      · cases h
      · cases h
    · cases h

theorem unpackExponent_pack_ne {s : Sign} {m : Nat} {e : Int} (hm : 0 < m) (he : e ≤ 971) :
    unpackExponent (UnpackedFloat.pack .binary64 (.finite s m e hm)) ≠ -1#_ := by
  have hbias : (e + (Format.binary64.exponentBias : Int) +
      (Format.binary64.mantissaBitsWithoutImplicit : Int)).toNat = (e + 1075).toNat := by
    change (e + 1023 + 52).toNat = _
    omega
  have hfits : ¬2 ^ Format.binary64.exponentBits ≤ (e + 1075).toNat + 1 := by
    change ¬2 ^ 11 ≤ _
    omega
  unfold UnpackedFloat.pack
  simp only [hbias, if_neg hfits]
  split
  · rw [unpackExponent_packComponents, ne_eq, ← BitVec.toNat_inj, BitVec.toNat_ofNat]
    change ¬_ % 2 ^ 11 = 2047
    omega
  · rw [unpackExponent_packComponents]
    decide

theorem pack_of_lt {s : Sign} {m : Nat} {e : Int} (hm : 0 < m) (he : 971 < e) :
    UnpackedFloat.pack .binary64 (.finite s m e hm) = UnpackedFloat.pack .binary64 (.infinity s) := by
  have hbeyond : 2 ^ Format.binary64.exponentBits ≤ (e + (Format.binary64.exponentBias : Int) +
      (Format.binary64.mantissaBitsWithoutImplicit : Int)).toNat + 1 := by
    change 2 ^ 11 ≤ (e + 1023 + 52).toNat + 1
    omega
  unfold UnpackedFloat.pack
  simp only [if_pos hbeyond]

theorem isInf_pack_iff (u : UnpackedFloat) :
    (Float.ofModel (.pack u)).isInf = true ↔ Excessive u := by
  rw [isInf_iff]
  change (∃ s, UnpackedFloat.unpack .binary64 (UnpackedFloat.pack .binary64 u) = .infinity s) ↔ _
  cases u with
  | notANumber => exact ⟨fun ⟨_, h⟩ => absurd h UnpackedFloat.noConfusion, False.elim⟩
  | infinity s => exact ⟨fun _ => trivial, fun _ => ⟨s, by cases s <;> rfl⟩⟩
  | zero s => cases s <;> exact ⟨fun ⟨_, h⟩ => absurd h UnpackedFloat.noConfusion, False.elim⟩
  | finite s m e hm =>
    change _ ↔ 971 < e
    constructor
    · rintro ⟨t, ht⟩
      by_contra he
      exact unpackExponent_pack_ne hm (Int.not_lt.1 he) (unpackExponent_of_unpack_infinity ht)
    · intro he
      rw [pack_of_lt hm he]
      exact ⟨s, by cases s <;> rfl⟩

/-! ## Rounding in halves -/

/-- A significand with the first digit that has been cut off from it. -/
def halves (em : ExtendedMantissa) : Nat :=
  2 * em.mantissa + em.roundBit.toNat

theorem halves_shiftRightOne (em : ExtendedMantissa) :
    halves em.shiftRightOne = halves em / 2 := by
  obtain ⟨m, r, s⟩ := em
  have hm : 2 * (m / 2) + (m % 2 != 0).toNat = m := by
    rcases Nat.mod_two_eq_zero_or_one m with h | h
    · simp [h]; omega
    · simp [h]; omega
  change 2 * (m / 2) + (m % 2 != 0).toNat = (2 * m + r.toNat) / 2
  rw [hm]
  have hr := Bool.toNat_lt r
  omega

theorem halves_shiftRight (em : ExtendedMantissa) (n : Nat) :
    halves (em >>> n) = halves em / 2 ^ n := by
  change halves (n.repeat ExtendedMantissa.shiftRightOne em) = _
  induction n with
  | zero => rw [Nat.pow_zero, Nat.div_one, Nat.repeat]
  | succ n ih => rw [Nat.repeat, halves_shiftRightOne, ih, Nat.div_div_eq_div_mul, Nat.pow_succ]

theorem mantissa_eq_halves (em : ExtendedMantissa) : em.mantissa = halves em / 2 := by
  have hr := Bool.toNat_lt em.roundBit
  unfold halves
  omega

theorem le_roundedMantissa (em : ExtendedMantissa) :
    em.mantissa ≤ em.roundedMantissa ∧ em.roundedMantissa ≤ em.mantissa + 1 := by
  obtain ⟨m, r, s⟩ := em
  cases r <;> cases s <;>
    simp only [ExtendedMantissa.roundedMantissa, ExtendedMantissa.accuracy,
      Accuracy.roundToNearestEven] <;> omega

/-- The largest significand is odd, so that a half is rounded up from it. -/
theorem roundedMantissa_eq_iff {em : ExtendedMantissa} (h : em.mantissa < 2 ^ 53) :
    em.roundedMantissa = 2 ^ 53 ↔ 2 ^ 54 - 1 ≤ halves em := by
  obtain ⟨m, r, s⟩ := em
  dsimp only at h
  cases r <;> cases s <;>
    simp only [ExtendedMantissa.roundedMantissa, ExtendedMantissa.accuracy,
      Accuracy.roundToNearestEven, halves, Bool.toNat_true, Bool.toNat_false] <;> omega

theorem mantissa_ofMantissaAndAccuracy (m : Nat) (accuracy : Accuracy) :
    (ExtendedMantissa.ofMantissaAndAccuracy m accuracy).mantissa = m := by
  cases accuracy with
  | exact => rfl
  | inexact o => cases o <;> rfl

/-! ## The exponent of a rounded result -/

theorem targetExponent_binary64 (m : Nat) (e : Int) :
    Format.binary64.targetExponent (totalExponent m e) = max (m.log2 + 1 + e - 53) (-1074) := rfl

/-- A significand that is short enough is left as it is. -/
theorem shiftToTargetExponent_short {m : Nat} {e : Int} (hm : m < 2 ^ 53) (he : -1074 ≤ e) :
    shiftToTargetExponent .binary64 m e .exact = (⟨m, false, false⟩, e) := by
  have hlog : m.log2 < 53 := by
    rcases Nat.eq_zero_or_pos m with rfl | hpos
    · decide
    · exact (Nat.log2_lt (Nat.ne_of_gt hpos)).2 hm
  have hshift : (max ((m.log2 : Int) + 1 + e - 53) (-1074) - e).toNat = 0 := by omega
  unfold shiftToTargetExponent shiftToExponent
  dsimp only
  rw [targetExponent_binary64, hshift]
  exact congrArg (Prod.mk _) (Int.add_zero e)

/-- A significand that has become too long by rounding is shifted once more. -/
theorem shiftToTargetExponent_limit {e : Int} (he : -1074 ≤ e) :
    shiftToTargetExponent .binary64 (2 ^ 53) e .exact = (⟨2 ^ 52, false, false⟩, e + 1) := by
  have hlog : (2 ^ 53).log2 = 53 := by decide
  have hshift : (max (((2 ^ 53).log2 : Int) + 1 + e - 53) (-1074) - e).toNat = 1 := by
    rw [hlog]
    omega
  unfold shiftToTargetExponent shiftToExponent
  dsimp only
  rw [targetExponent_binary64, hshift]
  rfl

/-- The number of digits that are cut off from a significand. -/
def cutDigits (m : Nat) (e : Int) : Nat :=
  (max ((m.log2 : Int) + 1 + e - 53) (-1074) - e).toNat

theorem div_cutDigits_lt (m : Nat) (e : Int) : m / 2 ^ cutDigits m e < 2 ^ 53 := by
  rw [Nat.div_lt_iff_lt_mul (Nat.two_pow_pos _), ← Nat.pow_add]
  refine Nat.lt_of_lt_of_le Nat.lt_log2_self (Nat.pow_le_pow_right (by decide) ?_)
  unfold cutDigits
  omega

/-- The value in halves of a unit tells whether the exponent is too large. -/
theorem le_halves_iff {m d : Nat} {e : Int} (he : e ≤ 970) (hd : d / 2 = m) :
    (2 ^ 54 - 1) * 2 ^ (971 - e).toNat ≤ d ↔
      971 < e + cutDigits m e ∨ e + cutDigits m e = 971 ∧ 2 ^ 54 - 1 ≤ d / 2 ^ cutDigits m e := by
  have hcut : cutDigits m e = (max ((m.log2 : Int) + 1 + e - 53) (-1074) - e).toNat := rfl
  generalize cutDigits m e = n at hcut
  obtain ⟨k, hk⟩ : ∃ k : Nat, (971 - e).toNat = k := ⟨_, rfl⟩
  rw [hk]
  rcases Nat.lt_trichotomy n k with hlt | rfl | hgt
  · -- the value is below a power of two that is a double
    have hm : m < 2 ^ (53 + n) :=
      Nat.lt_of_lt_of_le Nat.lt_log2_self (Nat.pow_le_pow_right (by decide) (by omega))
    have hpow : 2 ^ (n + 1) ≤ 2 ^ k := Nat.pow_le_pow_right (by decide) hlt
    rw [Nat.pow_add] at hm
    rw [Nat.pow_succ] at hpow
    exact ⟨fun h => by omega, fun h => by omega⟩
  · rw [Nat.le_div_iff_mul_le (Nat.two_pow_pos n)]
    exact ⟨fun h => .inr ⟨by omega, h⟩, fun h => by omega⟩
  · -- the value is at least a power of two that is none
    have hlog : m.log2 = 52 + n := by omega
    have hm : 2 ^ (52 + n) ≤ m := hlog ▸ Nat.log2_self_le (by rintro rfl; simp at hlog; omega)
    have hpow : 2 ^ (k + 1) ≤ 2 ^ n := Nat.pow_le_pow_right (by decide) hgt
    rw [Nat.pow_add] at hm
    rw [Nat.pow_succ] at hpow
    exact ⟨fun _ => .inl (by omega), fun _ => by omega⟩

/-- A number that has become too large by cutting digits off has not lost all of them. -/
theorem div_cutDigits_pos {m : Nat} {e : Int} (he : e ≤ 970) (h : 971 < e + cutDigits m e) :
    0 < m / 2 ^ cutDigits m e := by
  have hlog : cutDigits m e ≤ m.log2 := by
    unfold cutDigits at h ⊢
    omega
  have hm : m ≠ 0 := by
    rintro rfl
    rw [Nat.log2_zero] at hlog
    omega
  rw [Nat.div_pos_iff]
  exact ⟨Nat.two_pow_pos _,
    Nat.le_trans (Nat.pow_le_pow_right (by decide) hlog) (Nat.log2_self_le hm)⟩

theorem excessive_roundWithAccuracy (s : Sign) (m : Nat) (e : Int) (accuracy : Accuracy)
    {final : ExtendedMantissa × Int}
    (hfinal : shiftToTargetExponent .binary64 (ExtendedMantissa.ofMantissaAndAccuracy m accuracy >>>
      cutDigits m e).roundedMantissa (e + cutDigits m e) .exact = final) :
    Excessive (roundWithAccuracy .binary64 s m e accuracy) ↔
      final.1.mantissa ≠ 0 ∧ 971 < final.2 := by
  have hround : roundWithAccuracy .binary64 s m e accuracy =
      if h : final.1.mantissa = 0 then .zero s
      else .finite s final.1.mantissa final.2 (Nat.pos_of_ne_zero h) := by
    subst hfinal
    rfl
  rw [hround]
  split
  · rename_i hzero
    exact ⟨False.elim, fun h => h.1 hzero⟩
  · rename_i hne
    exact ⟨fun h => ⟨hne, h⟩, And.right⟩

/-- **Rounding gives too large a number** just if the value is not below the largest significand and
a half, in units of the greatest exponent. -/
theorem excessive_roundWithAccuracy_iff (s : Sign) (m : Nat) {e : Int} (he : e ≤ 970)
    (accuracy : Accuracy) :
    Excessive (roundWithAccuracy .binary64 s m e accuracy) ↔
      (2 ^ 54 - 1) * 2 ^ (971 - e).toNat ≤ halves (.ofMantissaAndAccuracy m accuracy) := by
  have hm := mantissa_ofMantissaAndAccuracy m accuracy
  have hfinal := excessive_roundWithAccuracy s m e accuracy rfl
  generalize ExtendedMantissa.ofMantissaAndAccuracy m accuracy = whole at hm hfinal ⊢
  rw [hfinal, le_halves_iff he ((mantissa_eq_halves whole).symm.trans hm)]
  have hleast : -1074 ≤ e + cutDigits m e := by
    unfold cutDigits
    omega
  have hhalves := halves_shiftRight whole (cutDigits m e)
  have hmantissa : (whole >>> cutDigits m e).mantissa = m / 2 ^ cutDigits m e := by
    rw [mantissa_eq_halves, hhalves, Nat.div_div_eq_div_mul, Nat.mul_comm,
      ← Nat.div_div_eq_div_mul, ← mantissa_eq_halves, hm]
  have hlt := hmantissa ▸ div_cutDigits_lt m e
  have hlimit := roundedMantissa_eq_iff hlt
  obtain ⟨hlower, hupper⟩ := le_roundedMantissa (whole >>> cutDigits m e)
  rw [hhalves] at hlimit
  rw [← hlimit]
  rw [hmantissa] at hlower
  generalize (whole >>> cutDigits m e).roundedMantissa = rounded at hlower hupper
  rcases Nat.lt_or_eq_of_le (Nat.le_trans hupper hlt) with hshort | rfl
  · rw [shiftToTargetExponent_short hshort hleast]
    constructor
    · exact fun h => .inl h.2
    · rintro (h | h)
      · exact ⟨Nat.ne_of_gt (Nat.lt_of_lt_of_le (div_cutDigits_pos he h) hlower), h⟩
      · exact absurd h.2 (Nat.ne_of_lt hshort)
  · rw [shiftToTargetExponent_limit hleast]
    dsimp only
    omega

/-! ## Values -/

/-- The number half way between the largest double and the next power of two. -/
def overflowBound : ℚ := 2 ^ 1024 - 2 ^ 970

theorem overflowBound_eq : overflowBound = (2 ^ 54 - 1) * 2 ^ 970 := by
  rw [overflowBound, sub_mul, ← pow_add, one_mul]

/-- The bound in halves of a unit. -/
theorem overflowBound_mul {e : Int} (he : e ≤ 970) :
    overflowBound * 2 ^ (1 - e) = ((2 ^ 54 - 1) * 2 ^ (971 - e).toNat : Nat) := by
  obtain ⟨k, hk⟩ : ∃ k : Nat, (971 - e).toNat = k := ⟨_, rfl⟩
  have hexponent : (970 : Int) + (1 - e) = (k : Int) := by omega
  have hpow : (2 : ℚ) ^ 970 * 2 ^ (1 - e) = 2 ^ k := by
    rw [← zpow_natCast, ← zpow_add₀ two_ne_zero, ← zpow_natCast, ← hexponent]
    rfl
  rw [hk, overflowBound_eq, mul_assoc, hpow]
  norm_num

/-- A value is rounded to too large a number just if it is not below the bound. What is known of it
is how many halves of a unit it has. -/
theorem excessive_roundWithAccuracy_iff_value (s : Sign) (m : Nat) {e : Int} (he : e ≤ 970)
    (accuracy : Accuracy) {v : ℚ}
    (hlower : (halves (.ofMantissaAndAccuracy m accuracy) : ℚ) ≤ v * 2 ^ (1 - e))
    (hupper : v * 2 ^ (1 - e) < (halves (.ofMantissaAndAccuracy m accuracy) + 1 : Nat)) :
    Excessive (roundWithAccuracy .binary64 s m e accuracy) ↔ overflowBound ≤ v := by
  have hunit : (0 : ℚ) < 2 ^ (1 - e) := zpow_pos two_pos _
  rw [excessive_roundWithAccuracy_iff s m he, ← mul_le_mul_iff_left₀ hunit, overflowBound_mul he]
  constructor
  · exact fun h => le_trans (Nat.cast_le.2 h) hlower
  · exact fun h => Nat.le_of_lt_succ (Nat.cast_lt.1 (lt_of_le_of_lt h hupper))

section Values

variable {s₁ s₂ : Sign} {m₁ m₂ : Nat} {e₁ e₂ : Int} {h₁ : 0 < m₁} {h₂ : 0 < m₂}

theorem excessive_mul_iff (he : e₁ + e₂ ≤ 970) :
    Excessive (UnpackedFloat.mul .binary64 (.finite s₁ m₁ e₁ h₁) (.finite s₂ m₂ e₂ h₂)) ↔
      overflowBound ≤ m₁ * 2 ^ e₁ * (m₂ * 2 ^ e₂) := by
  have hvalue : (m₁ * 2 ^ e₁ * (m₂ * 2 ^ e₂) : ℚ) * 2 ^ (1 - (e₁ + e₂)) =
      (halves (.ofMantissaAndAccuracy (m₁ * m₂) .exact) : Nat) := by
    have hcancel : (2 : ℚ) ^ e₁ * 2 ^ e₂ * 2 ^ (1 - (e₁ + e₂)) = 2 := by
      rw [← zpow_add₀ two_ne_zero, ← zpow_add₀ two_ne_zero, add_sub_cancel, zpow_one]
    have hhalves : halves (.ofMantissaAndAccuracy (m₁ * m₂) .exact) = 2 * (m₁ * m₂) := rfl
    rw [hhalves]
    push_cast
    calc (m₁ * 2 ^ e₁ * (m₂ * 2 ^ e₂) : ℚ) * 2 ^ (1 - (e₁ + e₂))
        = m₁ * m₂ * (2 ^ e₁ * 2 ^ e₂ * 2 ^ (1 - (e₁ + e₂))) := by ring
      _ = 2 * (m₁ * m₂) := by rw [hcancel, mul_comm]
  refine excessive_roundWithAccuracy_iff_value _ _ he .exact (le_of_eq hvalue.symm) ?_
  rw [hvalue, Nat.cast_lt]
  exact Nat.lt_succ_self _

/-- The digit that tells whether the rest of a division is half of the divisor. -/
theorem halves_accuracyOfFraction (n : Nat) {m : Nat} (hm : 0 < m) :
    halves (.ofMantissaAndAccuracy (n / m) (accuracyOfFraction (n % m) m)) = 2 * n / m := by
  have hrest := Nat.mod_lt n hm
  have htwice : 2 * n / m = 2 * (n / m) + 2 * (n % m) / m := by
    have hn : 2 * n = m * (2 * (n / m)) + 2 * (n % m) := by
      calc 2 * n = 2 * (m * (n / m) + n % m) := by rw [Nat.div_add_mod]
        _ = m * (2 * (n / m)) + 2 * (n % m) := by ring
    rw [hn, Nat.mul_add_div hm]
  rw [htwice]
  generalize n % m = r at hrest
  have hzero : 2 * r < m → 2 * r / m = 0 := Nat.div_eq_of_lt
  have hone : m ≤ 2 * r → 2 * r / m = 1 := fun h => Nat.div_eq_of_lt_le (by omega) (by omega)
  unfold accuracyOfFraction
  split
  · rename_i h
    rw [hzero (by omega)]
    rfl
  · rcases Nat.lt_trichotomy (2 * r) m with h | h | h
    · rw [Nat.compare_eq_lt.2 h, hzero h]
      rfl
    · rw [Nat.compare_eq_eq.2 h, hone h.ge]
      rfl
    · rw [Nat.compare_eq_gt.2 h, hone h.le]
      rfl

theorem excessive_div_iff (he : e₁ - e₂ ≤ 970) :
    Excessive (UnpackedFloat.div .binary64 (.finite s₁ m₁ e₁ h₁) (.finite s₂ m₂ e₂ h₂)) ↔
      overflowBound ≤ m₁ * 2 ^ e₁ / (m₂ * 2 ^ e₂) := by
  change Excessive (let (m, e, accuracy) := divCore .binary64 m₁ e₁ m₂ e₂
    roundWithAccuracy .binary64 (s₁ / s₂) m e accuracy) ↔ _
  unfold divCore
  dsimp only
  generalize Format.binary64.targetExponent (totalExponent m₁ e₁ - totalExponent m₂ e₂) = t
  obtain ⟨j, hj⟩ : ∃ j : Nat, e₁ - e₂ - min (e₁ - e₂) t = j :=
    ⟨_, (Int.toNat_of_nonneg (by omega)).symm⟩
  have hle : min (e₁ - e₂) t ≤ 970 := Int.le_trans (Int.min_le_left _ _) he
  rw [hj, Int.toNat_natCast]
  generalize min (e₁ - e₂) t = e at hj hle
  have hhalves := halves_accuracyOfFraction (m₁ <<< j) h₂
  have hm₂ : (0 : ℚ) < m₂ := Nat.cast_pos.2 h₂
  have hvalue : (m₁ * 2 ^ e₁ / (m₂ * 2 ^ e₂) : ℚ) * 2 ^ (1 - e) = (2 * m₁ <<< j : Nat) / m₂ := by
    have hpow : (2 : ℚ) ^ e₁ * 2 ^ (1 - e) = 2 * 2 ^ j * 2 ^ e₂ := by
      rw [← zpow_natCast, ← hj, ← zpow_add₀ two_ne_zero, ← zpow_one_add₀ two_ne_zero,
        ← zpow_add₀ two_ne_zero]
      congr 1
      omega
    have hden : (m₂ : ℚ) * 2 ^ e₂ ≠ 0 := mul_ne_zero hm₂.ne' (zpow_ne_zero e₂ two_ne_zero)
    rw [Nat.shiftLeft_eq, div_mul_eq_mul_div, div_eq_div_iff hden hm₂.ne']
    push_cast
    calc (m₁ * 2 ^ e₁ * 2 ^ (1 - e) * m₂ : ℚ)
        = m₁ * m₂ * (2 ^ e₁ * 2 ^ (1 - e)) := by ring
      _ = 2 * (m₁ * 2 ^ j) * (m₂ * 2 ^ e₂) := by rw [hpow]; ring
  refine excessive_roundWithAccuracy_iff_value _ _ hle _ ?_ ?_
  · rw [hhalves, hvalue]
    exact Nat.cast_div_le
  · rw [hhalves, hvalue, div_lt_iff₀ hm₂]
    exact_mod_cast Nat.lt_mul_of_div_lt (Nat.lt_succ_self _) h₂

end Values

/-! ## Decimals -/

/-- A number below the bound. -/
theorem lt_overflowBound_of_le {v : ℚ} (h : v ≤ 2 ^ 1023) : v < overflowBound := by
  have hbound : (2 : ℚ) ^ 1023 < overflowBound := by
    have hpow : (2 : ℚ) ^ 1023 = 2 ^ 53 * 2 ^ 970 := by rw [← pow_add]
    rw [overflowBound_eq, hpow]
    exact mul_lt_mul_of_pos_right (by norm_num) (pow_pos two_pos _)
  exact lt_of_le_of_lt h hbound

theorem overflowBound_pos : 0 < overflowBound :=
  lt_overflowBound_of_le (by positivity)

theorem overflowBound_le_of_le {v : ℚ} (h : 2 ^ 1024 ≤ v) : overflowBound ≤ v :=
  le_trans (sub_le_self _ (pow_nonneg two_pos.le _)) h

/-- A decimal with so large an exponent is too large. -/
theorem overflowBound_le_of_exponent {c : Nat} (hc : c ≠ 0) {k : Int} (hk : 2048 < k) :
    overflowBound ≤ (c : ℚ) * 10 ^ k := by
  obtain ⟨n, rfl⟩ := Int.eq_ofNat_of_zero_le (Int.le_trans (by decide) hk.le)
  have hone : (1 : ℚ) ≤ c := Nat.one_le_cast.2 (Nat.one_le_iff_ne_zero.2 hc)
  refine overflowBound_le_of_le ?_
  rw [zpow_natCast]
  calc (2 : ℚ) ^ 1024 ≤ 2 ^ n := pow_le_pow_right₀ one_le_two (by omega)
    _ ≤ 10 ^ n := pow_le_pow_left₀ two_pos.le (by norm_num) n
    _ ≤ c * 10 ^ n := le_mul_of_one_le_left (by positivity) hone

/-- A decimal with so small an exponent is below one. -/
theorem lt_overflowBound_of_exponent {c : Nat} {k : Int} (hk : k < -(2048 + (c.log2 : Int))) :
    (c : ℚ) * 10 ^ k < overflowBound := by
  have hdigits : (c : ℚ) ≤ 10 ^ (c.log2 + 1) := by
    have hlog : (c : ℚ) < 2 ^ (c.log2 + 1) := by exact_mod_cast Nat.lt_log2_self (n := c)
    exact hlog.le.trans (pow_le_pow_left₀ two_pos.le (by norm_num) _)
  refine lt_overflowBound_of_le ?_
  calc (c : ℚ) * 10 ^ k ≤ 10 ^ (c.log2 + 1) * 10 ^ k :=
        mul_le_mul_of_nonneg_right hdigits (zpow_nonneg (by norm_num) k)
    _ = 10 ^ ((c.log2 + 1 : Nat) + k) := by
        rw [← zpow_natCast, ← zpow_add₀ (by norm_num : (10 : ℚ) ≠ 0)]
    _ ≤ 1 := zpow_le_one_of_nonpos₀ (by norm_num) (by omega)
    _ ≤ 2 ^ 1023 := one_le_pow₀ one_le_two

/-- The way of all decimals but the short ones. -/
theorem excessive_ofScientific_iff {c : Nat} {k : Int} :
    Excessive (UnpackedFloat.ofScientific .binary64 c k) ↔ overflowBound ≤ (c : ℚ) * 10 ^ k := by
  unfold UnpackedFloat.ofScientific
  split
  · rename_i hc
    rw [hc, Nat.cast_zero, zero_mul]
    exact ⟨False.elim, fun h => absurd h overflowBound_pos.not_ge⟩
  rename_i hc
  split
  · rename_i hk
    exact ⟨fun _ => overflowBound_le_of_exponent hc hk, fun _ => trivial⟩
  split
  · rename_i hk
    exact ⟨False.elim, fun h => absurd h (lt_overflowBound_of_exponent hk).not_ge⟩
  split
  · rename_i hk
    obtain ⟨n, rfl⟩ := Int.eq_ofNat_of_zero_le hk
    have hvalue : ((c <<< Format.binary64.mantissaBits : Nat) : ℚ) *
        2 ^ (-(Format.binary64.mantissaBits : Int)) * ((10 ^ n : Nat) * 2 ^ (0 : Int)) =
          c * 10 ^ (n : Int) := by
      rw [Nat.shiftLeft_eq, zpow_neg, zpow_natCast, zpow_zero, zpow_natCast, mul_one]
      push_cast
      rw [mul_inv_cancel_right₀ (pow_ne_zero _ two_ne_zero)]
    rw [excessive_mul_iff (by decide), ← hvalue, Int.toNat_natCast]
  · rename_i hk
    obtain ⟨n, hn⟩ := Int.eq_ofNat_of_zero_le (show 0 ≤ -k by omega)
    have hvalue : (c * 2 ^ (0 : Int) / ((10 ^ (-k).toNat : Nat) * 2 ^ (0 : Int)) : ℚ) =
        c * 10 ^ k := by
      rw [hn, Int.toNat_natCast, zpow_zero, mul_one, mul_one, ← Int.neg_neg k, hn, zpow_neg,
        zpow_natCast, div_eq_mul_inv]
      norm_cast
    rw [excessive_div_iff (by decide), hvalue]

/-- The exponents of the powers of ten that are kept in a table. -/
theorem exponent_of_powerOfTen {m p : Nat} {e : Int} (hpos : 0 < m) (hlt : m < 2 ^ 53)
    (hp : p ≤ 22) (h : (m : ℚ) * 2 ^ e = 10 ^ p) : -53 < e ∧ e ≤ 74 := by
  have hunit : (0 : ℚ) < 2 ^ e := zpow_pos two_pos e
  have hone : (1 : ℚ) ≤ m := Nat.one_le_cast.2 hpos
  constructor
  · have hpower : (2 : ℚ) ^ (0 : Int) < 2 ^ (53 + e) := by
      calc (2 : ℚ) ^ (0 : Int) = 1 := zpow_zero 2
        _ ≤ 10 ^ p := one_le_pow₀ (by norm_num)
        _ = m * 2 ^ e := h.symm
        _ < 2 ^ 53 * 2 ^ e := mul_lt_mul_of_pos_right (by exact_mod_cast hlt) hunit
        _ = 2 ^ (53 + e) := by rw [zpow_add₀ two_ne_zero]; rfl
    have := (zpow_lt_zpow_iff_right₀ (one_lt_two : (1 : ℚ) < 2)).1 hpower
    omega
  · refine (zpow_le_zpow_iff_right₀ (one_lt_two : (1 : ℚ) < 2)).1 ?_
    calc (2 : ℚ) ^ e ≤ m * 2 ^ e := le_mul_of_one_le_left hunit.le hone
      _ = 10 ^ p := h
      _ ≤ 10 ^ 22 := pow_le_pow_right₀ (by norm_num) hp
      _ ≤ 2 ^ (74 : Int) := by norm_num

/-- The way of short decimals. -/
theorem isInf_ofScientific_fast_iff {c p : Nat} (hc : c < 2 ^ 53)
    (hp : p < Float.exactlyRepresentablePowersOfTen.size) (negative : Bool) :
    (if negative = true then c.toUInt64.toFloat / Float.exactlyRepresentablePowersOfTen[p]
      else c.toUInt64.toFloat * Float.exactlyRepresentablePowersOfTen[p]).isInf = true ↔
      overflowBound ≤ (c : ℚ) * 10 ^ (if negative then -(p : Int) else p) := by
  obtain ⟨m, e, hm, hpower, hvalue⟩ := unpack_powerOfTen hp
  obtain ⟨hlow, hhigh⟩ := exponent_of_powerOfTen hm (canonical_of_unpack hpower).lt
    (Nat.le_of_lt_succ hp) hvalue
  rcases Nat.eq_zero_or_pos c with rfl | hpos
  · -- a zero stays one
    have hnatural : (0 : Nat).toUInt64.toFloat.toModel.unpack = .zero .positive := by rfl
    rw [Nat.cast_zero, zero_mul, ← not_iff_not, iff_true_right overflowBound_pos.not_ge]
    cases negative with
    | true =>
      refine mt (isInf_pack_iff (UnpackedFloat.div .binary64 _ _)).1 ?_
      rw [hnatural, hpower]
      exact id
    | false =>
      refine mt (isInf_pack_iff (UnpackedFloat.mul .binary64 _ _)).1 ?_
      rw [hnatural, hpower]
      exact id
  · obtain ⟨i, hi⟩ := exists_canonical_natural hpos hc
    have hnatural := unpack_toFloat hpos hc hi
    have hexact : ((c * 2 ^ i : Nat) : ℚ) * 2 ^ (-(i : Int)) = c := by
      rw [zpow_neg, zpow_natCast, Nat.cast_mul, Nat.cast_pow, Nat.cast_ofNat,
        mul_inv_cancel_right₀ (pow_ne_zero i two_ne_zero)]
    cases negative with
    | true =>
      refine (isInf_pack_iff (UnpackedFloat.div .binary64 _ _)).trans ?_
      rw [hnatural, hpower, excessive_div_iff (by omega), hexact, hvalue, if_pos rfl, zpow_neg,
        zpow_natCast, div_eq_mul_inv]
    | false =>
      refine (isInf_pack_iff (UnpackedFloat.mul .binary64 _ _)).trans ?_
      rw [hnatural, hpower, excessive_mul_iff (by omega), hexact, hvalue,
        if_neg Bool.false_ne_true, zpow_natCast]

/-- **A decimal is too large** for a double just if it is not below the bound. -/
theorem isInf_ofScientific_iff {c p : Nat} {negative : Bool} :
    (Float.ofScientific c negative p).isInf = true ↔
      overflowBound ≤ (c : ℚ) * 10 ^ (if negative then -(p : Int) else p) := by
  unfold Float.ofScientific
  split
  · rename_i hfast
    exact isInf_ofScientific_fast_iff hfast.1 _ negative
  · refine (isInf_pack_iff _).trans (excessive_ofScientific_iff.trans ?_)
    cases negative with
    | true => simp [Int.negOfNat_eq]
    | false => simp

theorem excessive_neg_iff (u : UnpackedFloat) : Excessive u.neg ↔ Excessive u := by
  cases u <;> rfl

theorem isInf_neg_iff (x : Float) : (-x).isInf = true ↔ x.isInf = true := by
  have hx := isInf_pack_iff x.toModel.unpack
  rw [← eq_ofModel_pack rfl] at hx
  exact (isInf_pack_iff x.toModel.unpack.neg).trans ((excessive_neg_iff _).trans hx.symm)

namespace Decimal

/-- The exact value of a decimal without its sign. -/
def magnitude (d : Decimal) : ℚ := d.coefficient * 10 ^ d.exponent

/-- A decimal that is too large for a double. -/
def Overflows (d : Decimal) : Prop := overflowBound ≤ d.magnitude

theorem isInf_toFloat_iff (d : Decimal) : d.toFloat.isInf = true ↔ d.Overflows := by
  have hmagnitude : (Float.ofScientific d.coefficient (d.exponent < 0) d.exponent.natAbs).isInf =
      true ↔ d.Overflows := by
    rw [isInf_ofScientific_iff, Overflows, magnitude]
    congr! 3
    simp only [decide_eq_true_iff]
    omega
  unfold toFloat
  dsimp only
  split
  · rw [isInf_neg_iff, hmagnitude]
  · exact hmagnitude

end Decimal

end MiniLisp
