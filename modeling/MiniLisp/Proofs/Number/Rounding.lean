import MiniLisp.Proofs.Number.Double

/-!
# Exact results are not rounded

A product or a quotient that is a double comes out as that double: the operations work with enough
binary digits to hold it, and rounding drops only zeros from it (`round_exact`). So a decimal that
is a double is read as that double (`ofScientific_exact`), whether the reader takes the way for
few digits and small powers of ten or the one for all others.
-/

namespace MiniLisp

open Float.Model (Format UnpackedFloat totalExponent)
open Float.Model.UnpackedFloat

/-! ## Shifting -/

theorem log2_mul_two_pow {m : Nat} (hm : 0 < m) (j : Nat) : (m * 2 ^ j).log2 = m.log2 + j := by
  induction j with
  | zero => rw [Nat.pow_zero, Nat.mul_one, Nat.add_zero]
  | succ j ih =>
    have hne : m * 2 ^ j ≠ 0 := Nat.ne_of_gt (Nat.mul_pos hm (Nat.two_pow_pos j))
    have hdouble : m * 2 ^ (j + 1) = 2 * (m * 2 ^ j) := by ring
    rw [hdouble, Nat.log2_two_mul hne, ih, Nat.add_assoc]

/-- The exponent that a canonical pair is rounded to is its own. -/
theorem targetExponent_eq {m : Nat} {e : Int} (h : Binary.Canonical ⟨m, e⟩) (j : Nat) :
    Format.binary64.targetExponent (totalExponent (m * 2 ^ j) (e - j)) = e := by
  obtain ⟨hpos, hlt, hleast, -, hnormal⟩ := h
  dsimp only at hpos hlt hleast hnormal
  have hlog := log2_eq_iff hpos hlt
  have hub : m.log2 < 53 := (Nat.log2_lt (by omega)).2 hlt
  unfold totalExponent
  rw [log2_mul_two_pow hpos]
  change max ((m.log2 + j : Nat) + 1 + (e - j) - 53) (-1074) = e
  omega

/-- Zeros at the end are shifted out without a trace. -/
theorem repeat_shiftRightOne (m j : Nat) :
    j.repeat ExtendedMantissa.shiftRightOne ⟨m * 2 ^ j, false, false⟩ = ⟨m, false, false⟩ := by
  induction j generalizing m with
  | zero => rw [Nat.pow_zero, Nat.mul_one, Nat.repeat]
  | succ j ih =>
    have hdouble : m * 2 ^ (j + 1) = m * 2 * 2 ^ j := by ring
    rw [Nat.repeat, hdouble, ih (m * 2)]
    simp [ExtendedMantissa.shiftRightOne]

theorem shiftToTargetExponent_exact {m : Nat} {e : Int} (h : Binary.Canonical ⟨m, e⟩) (j : Nat) :
    shiftToTargetExponent .binary64 (m * 2 ^ j) (e - j) .exact = (⟨m, false, false⟩, e) := by
  have hshift : (e - (e - j)).toNat = j := by omega
  unfold shiftToTargetExponent shiftToExponent
  dsimp only
  rw [targetExponent_eq h, hshift]
  change (j.repeat ExtendedMantissa.shiftRightOne ⟨m * 2 ^ j, false, false⟩, _) = _
  rw [repeat_shiftRightOne, Int.sub_add_cancel]

/-- **Rounding a double** gives that double. -/
theorem round_exact (s : Sign) {m : Nat} {e : Int} (h : Binary.Canonical ⟨m, e⟩) (j : Nat) :
    roundWithAccuracy .binary64 s (m * 2 ^ j) (e - j) .exact = .finite s m e h.pos := by
  -- what has been rounded is shifted once more, as it may have become longer; here it has not
  have hagain := shiftToTargetExponent_exact h 0
  rw [Nat.pow_zero, Nat.mul_one, Int.natCast_zero, Int.sub_zero] at hagain
  have hpos : m ≠ 0 := Nat.ne_of_gt h.pos
  unfold roundWithAccuracy
  simp only [shiftToTargetExponent_exact h j, ExtendedMantissa.roundedMantissa,
    ExtendedMantissa.accuracy, Accuracy.roundToNearestEven, hagain, dif_neg hpos]

/-! ## Pairs with the same value -/

/-- An equation with a power of two, cleared of its denominator. -/
theorem mul_zpow_eq_iff {x y : Nat} {a : Int} :
    (x : ℚ) * 2 ^ a = y ↔ x * 2 ^ a.toNat = y * 2 ^ (-a).toNat := by
  rcases Int.le_total 0 a with ha | ha
  · obtain ⟨n, rfl⟩ := Int.eq_ofNat_of_zero_le ha
    have hzero : (-(n : Int)).toNat = 0 := by omega
    rw [hzero, Int.toNat_natCast, Nat.pow_zero, Nat.mul_one, zpow_natCast]
    norm_cast
  · obtain ⟨n, hn⟩ := Int.eq_ofNat_of_zero_le (Int.neg_nonneg_of_nonpos ha)
    obtain rfl : a = -(n : Int) := by omega
    have hzero : (-(n : Int)).toNat = 0 := by omega
    have htwo : (2 : ℚ) ^ n ≠ 0 := pow_ne_zero n two_ne_zero
    rw [hzero, Int.neg_neg, Int.toNat_natCast, Nat.pow_zero, Nat.mul_one, zpow_neg, zpow_natCast,
      mul_inv_eq_iff_eq_mul₀ htwo]
    norm_cast

/-- Of two pairs with the same value, the one with the smaller exponent has more zeros. -/
theorem eq_mul_two_pow {n m j : Nat} {d : Int} (h : (n : ℚ) * 2 ^ d = m * 2 ^ (d + j)) :
    n = m * 2 ^ j := by
  have htwo : (2 : ℚ) ^ d ≠ 0 := zpow_ne_zero d two_ne_zero
  rw [zpow_add₀ two_ne_zero, zpow_natCast, mul_comm ((2 : ℚ) ^ d), ← mul_assoc] at h
  exact_mod_cast mul_right_cancel₀ htwo h

/-- A pair with the value of a double is rounded to that double. -/
theorem round_eq (s : Sign) {m n : Nat} {e d : Int} (h : Binary.Canonical ⟨m, e⟩)
    (hvalue : (n : ℚ) * 2 ^ d = m * 2 ^ e) :
    UnpackedFloat.round .binary64 s n d = .finite s m e h.pos := by
  rcases Int.le_total d e with hle | hle
  · -- zeros are shifted out
    obtain ⟨j, hj⟩ := Int.eq_ofNat_of_zero_le (Int.sub_nonneg_of_le hle)
    obtain rfl : e = d + j := by omega
    obtain rfl : n = m * 2 ^ j := eq_mul_two_pow hvalue
    have htarget := targetExponent_eq h j
    have hround := round_exact s h j
    have hshift : (d - (d + (j : Int))).toNat = 0 := by omega
    rw [Int.add_sub_cancel] at htarget hround
    unfold UnpackedFloat.round decreaseExponent
    simp only [htarget, hshift, Nat.shiftLeft_zero, Int.natCast_zero, Int.sub_zero]
    exact hround
  · -- zeros are shifted in
    obtain ⟨j, hj⟩ := Int.eq_ofNat_of_zero_le (Int.sub_nonneg_of_le hle)
    obtain rfl : d = e + j := by omega
    obtain rfl : m = n * 2 ^ j := eq_mul_two_pow hvalue.symm
    have hn : 0 < n := Nat.pos_of_mul_pos_right h.pos
    have htotal : totalExponent n (e + j) = totalExponent (n * 2 ^ j) e := by
      unfold totalExponent
      rw [log2_mul_two_pow hn]
      omega
    have htarget := targetExponent_eq h 0
    have hround := round_exact s h 0
    have hshift : (e + (j : Int) - e).toNat = j := by omega
    rw [Nat.pow_zero, Nat.mul_one, Int.natCast_zero, Int.sub_zero] at htarget hround
    unfold UnpackedFloat.round decreaseExponent
    simp only [htotal, htarget, hshift, Nat.shiftLeft_eq, Int.add_sub_cancel]
    exact hround

/-! ## Products and quotients -/

theorem mul_exact {s₁ s₂ : Sign} {m₁ m₂ m : Nat} {e₁ e₂ e : Int} {h₁ : 0 < m₁} {h₂ : 0 < m₂}
    (h : Binary.Canonical ⟨m, e⟩) {j : Nat} (he : e₁ + e₂ = e - j) (hm : m₁ * m₂ = m * 2 ^ j) :
    UnpackedFloat.mul .binary64 (.finite s₁ m₁ e₁ h₁) (.finite s₂ m₂ e₂ h₂) =
      .finite (s₁ * s₂) m e h.pos := by
  change roundWithAccuracy .binary64 (s₁ * s₂) (m₁ * m₂) (e₁ + e₂) .exact = _
  rw [he, hm]
  exact round_exact (s₁ * s₂) h j

/-- A quotient that is a double is computed with enough digits. -/
theorem divCore_target_le {m₁ m₂ m : Nat} {e₁ e₂ e : Int} (h₁ : 0 < m₁)
    (h : Binary.Canonical ⟨m, e⟩) {a b : Nat} (hab : (a : Int) - b = e₁ - e₂ - e)
    (hv : m₁ * 2 ^ a = m * m₂ * 2 ^ b) :
    Format.binary64.targetExponent (totalExponent m₁ e₁ - totalExponent m₂ e₂) ≤ e := by
  have hlow : 2 ^ (m₁.log2 + a) ≤ m₁ * 2 ^ a := by
    rw [Nat.pow_add]
    exact Nat.mul_le_mul_right _ (Nat.log2_self_le (Nat.ne_of_gt h₁))
  have hhigh : m * m₂ * 2 ^ b < 2 ^ (53 + (m₂.log2 + 1) + b) := by
    rw [Nat.pow_add, Nat.pow_add]
    exact Nat.mul_lt_mul_of_pos_right
      (Nat.mul_lt_mul_of_lt_of_le h.lt (Nat.le_of_lt Nat.lt_log2_self) (Nat.two_pow_pos _))
      (Nat.two_pow_pos _)
  have hlog : m₁.log2 + a < 53 + (m₂.log2 + 1) + b := by
    refine (Nat.pow_lt_pow_iff_right (by decide : 1 < 2)).1 ?_
    exact Nat.lt_of_le_of_lt (hv ▸ hlow) hhigh
  have hleast := h.least
  dsimp only at hleast
  unfold totalExponent
  change max ((m₁.log2 : Int) + 1 + e₁ - (m₂.log2 + 1 + e₂) - 53) (-1074) ≤ e
  omega

theorem div_exact {s₁ s₂ : Sign} {m₁ m₂ m : Nat} {e₁ e₂ e : Int} {h₁ : 0 < m₁} {h₂ : 0 < m₂}
    (h : Binary.Canonical ⟨m, e⟩) (hv : (m₁ : ℚ) * 2 ^ (e₁ - e₂ - e) = (m * m₂ : Nat)) :
    UnpackedFloat.div .binary64 (.finite s₁ m₁ e₁ h₁) (.finite s₂ m₂ e₂ h₂) =
      .finite (s₁ / s₂) m e h.pos := by
  have hcleared := mul_zpow_eq_iff.1 hv
  have hbalance : ((e₁ - e₂ - e).toNat : Int) - (-(e₁ - e₂ - e)).toNat = e₁ - e₂ - e := by omega
  have hmin : (e₁ - e₂ - e).toNat = 0 ∨ (-(e₁ - e₂ - e)).toNat = 0 := by omega
  have htarget := divCore_target_le h₁ h hbalance hcleared
  generalize (e₁ - e₂ - e).toNat = a at hcleared hbalance hmin
  generalize (-(e₁ - e₂ - e)).toNat = b at hcleared hbalance hmin
  change (let (m, e, accuracy) := divCore .binary64 m₁ e₁ m₂ e₂
    roundWithAccuracy .binary64 (s₁ / s₂) m e accuracy) = _
  unfold divCore
  dsimp only
  generalize Format.binary64.targetExponent (totalExponent m₁ e₁ - totalExponent m₂ e₂) = t
    at htarget ⊢
  -- the dividend is shifted further than the equation asks for, by the same on both sides
  obtain ⟨c, j, hleft, hright, hexponent⟩ : ∃ c j : Nat,
      (e₁ - e₂ - min (e₁ - e₂) t).toNat = a + c ∧ j = b + c ∧ min (e₁ - e₂) t = e - j :=
    ⟨(e₁ - e₂ - min (e₁ - e₂) t).toNat - a, (e - min (e₁ - e₂) t).toNat,
      by omega, by omega, by omega⟩
  have hshifted : m₁ <<< (a + c) = m * 2 ^ j * m₂ := by
    rw [Nat.shiftLeft_eq, Nat.pow_add, ← Nat.mul_assoc, hcleared, hright, Nat.pow_add]
    ring
  rw [hleft, hshifted, Nat.mul_div_cancel _ h₂, Nat.mul_mod_left, accuracyOfFraction, if_pos rfl,
    hexponent]
  exact round_exact (s₁ / s₂) h j

/-! ## Natural numbers -/

/-- A natural number of at most 53 binary digits is a double, with zeros added to it. -/
theorem exists_canonical_natural {c : Nat} (hpos : 0 < c) (hlt : c < 2 ^ 53) :
    ∃ i : Nat, Binary.Canonical ⟨c * 2 ^ i, -(i : Int)⟩ := by
  have hlog : c.log2 < 53 := (Nat.log2_lt (Nat.ne_of_gt hpos)).2 hlt
  have hself : 2 ^ c.log2 ≤ c := Nat.log2_self_le (Nat.ne_of_gt hpos)
  have hnext : c < 2 ^ (c.log2 + 1) := Nat.lt_log2_self
  have hlow : 2 ^ 52 = 2 ^ c.log2 * 2 ^ (52 - c.log2) := by
    rw [← Nat.pow_add]
    congr 1
    omega
  have hhigh : 2 ^ 53 = 2 ^ (c.log2 + 1) * 2 ^ (52 - c.log2) := by
    rw [← Nat.pow_add]
    congr 1
    omega
  refine ⟨52 - c.log2, Binary.canonical_normal ?_ ?_ (by omega) (by omega)⟩
  · rw [hlow]
    exact Nat.mul_le_mul_right _ hself
  · rw [hhigh]
    exact Nat.mul_lt_mul_of_pos_right hnext (Nat.two_pow_pos _)

theorem ofNat_exact {c i : Nat} (hpos : 0 < c) (h : Binary.Canonical ⟨c * 2 ^ i, -(i : Int)⟩) :
    UnpackedFloat.ofNat .binary64 c = .finite .positive (c * 2 ^ i) (-(i : Int)) h.pos := by
  have hcompare : compare (c : Int) 0 = .gt := Int.compare_eq_gt.2 (by omega)
  have htwo : (2 : ℚ) ^ i ≠ 0 := pow_ne_zero i two_ne_zero
  unfold UnpackedFloat.ofNat UnpackedFloat.ofInt UnpackedFloat.normalize
  simp only [hcompare, Int.toNat_natCast]
  refine round_eq .positive h ?_
  rw [zpow_zero, mul_one, zpow_neg, zpow_natCast, Nat.cast_mul, Nat.cast_pow, Nat.cast_ofNat,
    mul_inv_cancel_right₀ htwo]

theorem unpack_toFloat {c i : Nat} (hpos : 0 < c) (hlt : c < 2 ^ 53)
    (h : Binary.Canonical ⟨c * 2 ^ i, -(i : Int)⟩) :
    c.toUInt64.toFloat.toModel.unpack = .finite .positive (c * 2 ^ i) (-(i : Int)) h.pos := by
  have hc : c.toUInt64.toNat = c := UInt64.toNat_ofNat_of_lt (Nat.lt_trans hlt (by decide))
  change (Float.Model.pack (UnpackedFloat.ofNat .binary64 c.toUInt64.toNat)).unpack = _
  rw [hc, ofNat_exact hpos h]
  exact unpack_pack _ _ h

/-! ## Powers of ten -/

/-- Whether something stands for a power of ten. -/
def standsForPower (p : Nat) : UnpackedFloat → Bool
  | .finite .positive m e _ => m * 2 ^ e.toNat == 10 ^ p * 2 ^ (-e).toNat
  | _ => false

theorem standsForPower_table : ∀ p : Fin 23,
    standsForPower p.1 Float.exactlyRepresentablePowersOfTen[p].toModel.unpack = true := by
  decide +kernel

theorem unpack_powerOfTen {p : Nat} (h : p < Float.exactlyRepresentablePowersOfTen.size) :
    ∃ m e, ∃ hm : 0 < m, (Float.exactlyRepresentablePowersOfTen[p]).toModel.unpack =
      .finite .positive m e hm ∧ (m : ℚ) * 2 ^ e = 10 ^ p := by
  have htable := standsForPower_table ⟨p, h⟩
  change standsForPower p (Float.exactlyRepresentablePowersOfTen[p]).toModel.unpack = true
    at htable
  generalize (Float.exactlyRepresentablePowersOfTen[p]).toModel.unpack = u at htable ⊢
  cases u with
  | infinity s => cases htable
  | notANumber => cases htable
  | zero s => cases htable
  | finite s m e hm =>
    cases s with
    | negative => cases htable
    | positive =>
      refine ⟨m, e, hm, rfl, ?_⟩
      have hvalue := mul_zpow_eq_iff.2 (eq_of_beq htable)
      rw [hvalue]
      norm_cast

theorem unpack_powerOfTen_zero :
    (Float.exactlyRepresentablePowersOfTen[0]).toModel.unpack =
      .finite .positive 4503599627370496 (-52) (by decide) := by
  rfl

/-! ## Decimals that are doubles -/

section Exact

variable {c p m : Nat} {e : Int} (h : Binary.Canonical ⟨m, e⟩)
  (hv : (c : ℚ) = m * 2 ^ e * 10 ^ p)

include h hv

theorem coefficient_pos : 0 < c := by
  refine Nat.pos_of_ne_zero fun hzero => ?_
  have hm : (m : ℚ) ≠ 0 := Nat.cast_ne_zero.2 (Nat.ne_of_gt h.pos)
  have hten : (10 : ℚ) ^ p ≠ 0 := pow_ne_zero p (by norm_num)
  rw [hzero, Nat.cast_zero] at hv
  exact mul_ne_zero (mul_ne_zero hm (zpow_ne_zero e two_ne_zero)) hten hv.symm

/-- A double that is a natural number, with zeros added to it. -/
theorem natural_scaled (hp : p = 0) (k : Nat) :
    ∃ j : Nat, (j : Int) = e + (52 + k) ∧ c * 2 ^ (52 + k) = m * 2 ^ j := by
  have hc := coefficient_pos h hv
  have hlt := h.lt
  dsimp only at hlt
  rw [hp, pow_zero, mul_one] at hv
  have hcleared := mul_zpow_eq_iff.1 hv.symm
  have hleast : -52 ≤ e := by
    -- otherwise the significand would have a factor `2 ^ 53`
    by_contra hlow
    have hzero : e.toNat = 0 := by omega
    rw [hzero, Nat.pow_zero, Nat.mul_one] at hcleared
    have hbig : 2 ^ 53 ≤ 2 ^ (-e).toNat := Nat.pow_le_pow_right (by decide) (by omega)
    have hone : 1 * 2 ^ (-e).toNat ≤ c * 2 ^ (-e).toNat := Nat.mul_le_mul_right _ hc
    omega
  obtain ⟨j, hj⟩ := Int.eq_ofNat_of_zero_le (show 0 ≤ e + (52 + k) by omega)
  refine ⟨j, hj.symm, ?_⟩
  rcases Int.le_total 0 e with he | he
  · have hzero : (-e).toNat = 0 := by omega
    have hexponent : j = e.toNat + (52 + k) := by omega
    rw [hzero, Nat.pow_zero, Nat.mul_one] at hcleared
    rw [← hcleared, hexponent, Nat.pow_add _ e.toNat, Nat.mul_assoc]
  · have hzero : e.toNat = 0 := by omega
    have hexponent : 52 + k = (-e).toNat + j := by omega
    rw [hzero, Nat.pow_zero, Nat.mul_one] at hcleared
    rw [hcleared, hexponent, Nat.pow_add, Nat.mul_assoc]

/-- The way of few digits and a small power of ten. -/
theorem fast_exact (hlt : c < 2 ^ 53) (hp : p < Float.exactlyRepresentablePowersOfTen.size) :
    (if decide (0 < p) = true then
        c.toUInt64.toFloat / Float.exactlyRepresentablePowersOfTen[p]
      else c.toUInt64.toFloat * Float.exactlyRepresentablePowersOfTen[p]) =
      .ofModel (.pack (.finite .positive m e h.pos)) := by
  have hc := coefficient_pos h hv
  obtain ⟨i, hi⟩ := exists_canonical_natural hc hlt
  have hnatural := unpack_toFloat hc hlt hi
  rcases Nat.eq_zero_or_pos p with rfl | hpos
  · rw [if_neg (by decide)]
    change Float.ofModel (.pack (UnpackedFloat.mul .binary64 _ _)) = _
    obtain ⟨j, hj, hscaled⟩ := natural_scaled h hv rfl i
    have hexponent : -(i : Int) + -52 = e - j := by omega
    have hmantissa : c * 2 ^ i * 4503599627370496 = m * 2 ^ j := by
      rw [← hscaled]
      ring
    rw [hnatural, unpack_powerOfTen_zero, mul_exact h hexponent hmantissa]
    rfl
  · rw [if_pos (decide_eq_true hpos)]
    change Float.ofModel (.pack (UnpackedFloat.div .binary64 _ _)) = _
    obtain ⟨m', e', hm', hpower, hvalue⟩ := unpack_powerOfTen hp
    rw [hnatural, hpower, div_exact h]
    · rfl
    · -- the powers of two of the three doubles cancel
      have hcancel : (2 : ℚ) ^ e * 2 ^ e' * 2 ^ (i : Int) * 2 ^ (-(i : Int) - e' - e) = 1 := by
        rw [← zpow_add₀ two_ne_zero, ← zpow_add₀ two_ne_zero, ← zpow_add₀ two_ne_zero]
        have hzero : e + e' + i + (-(i : Int) - e' - e) = 0 := by omega
        rw [hzero, zpow_zero]
      push_cast
      rw [hv, ← hvalue, ← zpow_natCast]
      calc (m : ℚ) * 2 ^ e * (m' * 2 ^ e') * 2 ^ (i : Int) * 2 ^ (-(i : Int) - e' - e)
          = m * m' * (2 ^ e * 2 ^ e' * 2 ^ (i : Int) * 2 ^ (-(i : Int) - e' - e)) := by ring
        _ = m * m' := by rw [hcancel, mul_one]

/-- The way of all other decimals. -/
theorem slow_exact (hp : p ≤ 1074) :
    UnpackedFloat.ofScientific .binary64 c (if decide (0 < p) = true then Int.negOfNat p
      else Int.ofNat p) = .finite .positive m e h.pos := by
  have hc := coefficient_pos h hv
  have hlog : (0 : Int) ≤ c.log2 := Int.natCast_nonneg _
  rcases Nat.eq_zero_or_pos p with rfl | hpos
  · obtain ⟨j, hj, hscaled⟩ := natural_scaled h hv rfl 1
    have hexponent : -53 + 0 = e - (j : Int) := by omega
    have hmantissa : c <<< 53 * 10 ^ 0 = m * 2 ^ j := by
      rw [Nat.shiftLeft_eq, Nat.pow_zero, Nat.mul_one]
      exact hscaled
    have hbig : ¬Int.ofNat 0 > 2 ^ Format.binary64.exponentBits := by decide
    have hsmall : ¬Int.ofNat 0 < -((2 ^ Format.binary64.exponentBits : Int) + c.log2) := by
      change ¬(0 : Int) < -(2048 + c.log2)
      omega
    unfold UnpackedFloat.ofScientific
    rw [if_neg (by decide), dif_neg (Nat.ne_of_gt hc), if_neg hbig, if_neg hsmall,
      if_pos (show 0 ≤ Int.ofNat 0 from Int.le_refl 0)]
    exact mul_exact h hexponent hmantissa
  · have hnegative : Int.negOfNat p = -(p : Int) := Int.negOfNat_eq
    have hbig : ¬-(p : Int) > 2 ^ Format.binary64.exponentBits := by
      change ¬-(p : Int) > 2048
      omega
    have hsmall : ¬-(p : Int) < -((2 ^ Format.binary64.exponentBits : Int) + c.log2) := by
      change ¬-(p : Int) < -(2048 + c.log2)
      omega
    have hpower : (-(-(p : Int))).toNat = p := by omega
    unfold UnpackedFloat.ofScientific
    rw [if_pos (decide_eq_true hpos), dif_neg (Nat.ne_of_gt hc), hnegative, if_neg hbig,
      if_neg hsmall, if_neg (by omega)]
    refine div_exact h ?_
    rw [hpower, hv]
    push_cast
    have hcancel : (2 : ℚ) ^ e * 2 ^ (0 - 0 - e) = 1 := by
      rw [← zpow_add₀ two_ne_zero]
      simp
    calc (m : ℚ) * 2 ^ e * 10 ^ p * 2 ^ (0 - 0 - e)
        = m * 10 ^ p * (2 ^ e * 2 ^ (0 - 0 - e)) := by ring
      _ = m * 10 ^ p := by rw [hcancel, mul_one]

/-- **A decimal that is a double** is read as that double. -/
theorem ofScientific_exact (hp : p ≤ 1074) :
    Float.ofScientific c (decide (0 < p)) p = .ofModel (.pack (.finite .positive m e h.pos)) := by
  have hc := coefficient_pos h hv
  unfold Float.ofScientific
  split
  · rename_i hfast
    exact fast_exact h hv hfast.1 _
  · exact congrArg (fun u => Float.ofModel (.pack u)) (slow_exact h hv hp)

end Exact

end MiniLisp
