import MiniLisp.Proofs.Number.Rounding

/-!
# Integers as doubles

The integers up to `2 ^ 53` on either side of zero are doubles (`standsFor_ofInt`). Unequal ones are
unequal doubles (`ofInt_beq_ofInt`), and a sum that is in the range as well comes without an error
(`ofInt_add_ofInt`). At the end of the range one more makes no difference (`ofInt_limit_add_one`).
-/

namespace MiniLisp

open Float.Model (Format UnpackedFloat)
open Float.Model.UnpackedFloat

/-- What stands for the integer `k`. Of the two zeros it is the positive one. -/
inductive StandsFor : UnpackedFloat → Int → Prop
  | zero : StandsFor (.zero .positive) 0
  | finite {s : Sign} {m : Nat} {e k : Int} (h : Binary.Canonical ⟨m, e⟩)
    (hvalue : ((s.apply m : Int) : ℚ) * 2 ^ e = k) : StandsFor (.finite s m e h.pos) k

namespace StandsFor

variable {u v w : UnpackedFloat} {a b : Int}

theorem eq (h : StandsFor u a) (h' : StandsFor u b) : a = b := by
  cases h with
  | zero =>
    cases h' with
    | zero => rfl
  | finite h hvalue =>
    cases h' with
    | finite h' hvalue' => exact_mod_cast hvalue.symm.trans hvalue'

theorem neg (h : StandsFor u a) (ha : a ≠ 0) : StandsFor u.neg (-a) := by
  cases h with
  | zero => exact absurd rfl ha
  | @finite s m e _ h hvalue =>
    refine .finite h ?_
    have hsign : (-s).apply m = -s.apply m := by cases s <;> simp [Sign.apply]
    rw [hsign, Int.cast_neg, Int.cast_neg, neg_mul, hvalue]

/-- A number with the value of an integer that is a double comes out as that double. -/
theorem normalize_eq (h : StandsFor u a) {n d : Int} (hvalue : (n : ℚ) * 2 ^ d = a) :
    UnpackedFloat.normalize .binary64 n d .positive = u := by
  have htwo : (0 : ℚ) < 2 ^ d := zpow_pos two_pos d
  cases h with
  | zero =>
    have hn : (n : ℚ) = 0 := (mul_eq_zero.1 hvalue).resolve_right htwo.ne'
    obtain rfl : n = 0 := by exact_mod_cast hn
    rfl
  | @finite s m e _ h hvalue' =>
    have hvalue : ((s.apply n : Int) : ℚ) * 2 ^ d = m * 2 ^ e := by
      rw [← hvalue'] at hvalue
      cases s with
      | positive => exact hvalue
      | negative => simpa [Sign.apply, neg_mul, neg_eq_iff_eq_neg] using hvalue
    have hpos : 0 < s.apply n := by
      have hm : (0 : ℚ) < m * 2 ^ e := mul_pos (Nat.cast_pos.2 h.pos) (zpow_pos two_pos e)
      exact_mod_cast pos_of_mul_pos_left (hvalue ▸ hm) htwo.le
    obtain ⟨k, hk⟩ := Int.eq_ofNat_of_zero_le hpos.le
    rw [hk] at hvalue hpos
    have hround := round_eq s h hvalue
    unfold UnpackedFloat.normalize
    cases s with
    | positive =>
      obtain rfl : n = k := hk
      rw [Int.compare_eq_gt.2 hpos]
      exact hround
    | negative =>
      obtain rfl : n = -k := by rw [← hk]; exact (Int.neg_neg n).symm
      rw [Int.compare_eq_lt.2 (Int.neg_neg_of_pos hpos)]
      dsimp only
      rw [Int.neg_neg]
      exact hround

/-- An integer is stood for by one thing at most. -/
theorem unique (hu : StandsFor u a) (hv : StandsFor v a) : u = v := by
  have hvalue : (a : ℚ) * 2 ^ (0 : Int) = a := by rw [zpow_zero, mul_one]
  rw [← hu.normalize_eq hvalue, hv.normalize_eq hvalue]

/-- A significand is brought to a smaller exponent. -/
theorem aligned_value (s : Sign) (m : Nat) {d e : Int} (h : d ≤ e) :
    ((s.apply (m <<< (e - d).toNat : Nat) : Int) : ℚ) * 2 ^ d = ((s.apply m : Int) : ℚ) * 2 ^ e := by
  obtain ⟨j, hj⟩ := Int.eq_ofNat_of_zero_le (Int.sub_nonneg_of_le h)
  obtain rfl : e = d + j := by omega
  rw [hj, Int.toNat_natCast, Nat.shiftLeft_eq, zpow_add₀ two_ne_zero, zpow_natCast]
  cases s <;> simp only [Sign.apply] <;> push_cast <;> ring

/-- **A sum of integers** that is a double comes out as that double. -/
theorem add (hu : StandsFor u a) (hv : StandsFor v b) (hw : StandsFor w (a + b)) :
    UnpackedFloat.add .binary64 u v = w := by
  cases hu with
  | zero =>
    rw [Int.zero_add] at hw
    obtain rfl := hv.unique hw
    cases hv <;> rfl
  | @finite s m e _ hx hxvalue =>
    cases hv with
    | zero =>
      rw [Int.add_zero] at hw
      exact (StandsFor.finite hx hxvalue).unique hw
    | @finite s' m' e' _ hy hyvalue =>
      refine hw.normalize_eq (d := min e e') ?_
      rw [Int.cast_add, add_mul, aligned_value s m (min_le_left e e'),
        aligned_value s' m' (min_le_right e e'), hxvalue, hyvalue, Int.cast_add]

/-- What stands for an integer is a double, and still stands for it when it is kept as one. -/
theorem unpack_pack (h : StandsFor u a) : StandsFor (Float.Model.pack u).unpack a := by
  cases h with
  | zero => exact .zero
  | finite h hvalue =>
    rw [MiniLisp.unpack_pack _ h.pos h]
    exact .finite h hvalue

theorem beq_iff (hu : StandsFor u a) (hv : StandsFor v b) : u.beq v = true ↔ a = b := by
  rw [beq_iff_ne_notANumber_and_eq]
  constructor
  · rintro ⟨-, -, rfl | ⟨rfl, rfl⟩ | ⟨rfl, rfl⟩⟩
    · exact hu.eq hv
    · cases hv
    · cases hu
  · rintro rfl
    obtain rfl := hu.unique hv
    refine ⟨?_, ?_, .inl rfl⟩ <;> rintro rfl <;> cases hu

end StandsFor

/-! ## The integers in the range -/

/-- A positive integer in the range has a canonical pair. -/
theorem exists_canonical_of_le {n : Nat} (hpos : 0 < n) (h : n ≤ 2 ^ 53) :
    ∃ m e, Binary.Canonical ⟨m, e⟩ ∧ (n : ℚ) = m * 2 ^ e := by
  rcases Nat.lt_or_eq_of_le h with hlt | rfl
  · obtain ⟨i, hi⟩ := exists_canonical_natural hpos hlt
    refine ⟨n * 2 ^ i, -(i : Int), hi, ?_⟩
    rw [zpow_neg, zpow_natCast, Nat.cast_mul, Nat.cast_pow, Nat.cast_ofNat,
      mul_inv_cancel_right₀ (pow_ne_zero i two_ne_zero)]
  · exact ⟨2 ^ 52, 1, Binary.canonical_normal (Nat.le_refl _) (by decide) (by decide) (by decide),
      by norm_num⟩

theorem standsFor_ofNat {n : Nat} (h : n ≤ 2 ^ 53) :
    StandsFor (Float.ofNat n).toModel.unpack n := by
  rcases Nat.eq_zero_or_pos n with rfl | hpos
  · have hzero : (Float.ofNat 0).toModel.unpack = .zero .positive := by rfl
    rw [hzero]
    exact .zero
  · obtain ⟨m, e, hcanonical, hvalue⟩ := exists_canonical_of_le hpos h
    have hstands : StandsFor (.finite .positive m e hcanonical.pos) n :=
      .finite hcanonical hvalue.symm
    have hexact : Float.ofNat n = .ofModel (.pack (.finite .positive m e hcanonical.pos)) :=
      ofScientific_exact (p := 0) hcanonical (by rw [hvalue, pow_zero, mul_one]) (by decide)
    rw [hexact]
    exact hstands.unpack_pack

theorem standsFor_ofInt {k : Int} (h : k.natAbs ≤ 2 ^ 53) :
    StandsFor (Float.ofInt k).toModel.unpack k := by
  cases k with
  | ofNat n => exact standsFor_ofNat h
  | negSucc n =>
    exact ((standsFor_ofNat h).neg (Int.natCast_ne_zero.2 (Nat.succ_ne_zero n))).unpack_pack

/-- **Integers are added exactly**, if their sum is in the range as well. -/
theorem ofInt_add_ofInt {a b : Int} (ha : a.natAbs ≤ 2 ^ 53) (hb : b.natAbs ≤ 2 ^ 53)
    (hab : (a + b).natAbs ≤ 2 ^ 53) : Float.ofInt a + Float.ofInt b = Float.ofInt (a + b) := by
  have hadd := (standsFor_ofInt ha).add (standsFor_ofInt hb) (standsFor_ofInt hab)
  rw [eq_ofModel_pack (x := Float.ofInt (a + b)) rfl, ← hadd]
  rfl

theorem ofInt_beq_ofInt {a b : Int} (ha : a.natAbs ≤ 2 ^ 53) (hb : b.natAbs ≤ 2 ^ 53) :
    (Float.ofInt a == Float.ofInt b) = decide (a = b) := by
  rw [Bool.eq_iff_iff, decide_eq_true_iff]
  exact (standsFor_ofInt ha).beq_iff (standsFor_ofInt hb)

theorem ofInt_limit_add_one : Float.ofInt (2 ^ 53) + Float.ofInt 1 = Float.ofInt (2 ^ 53) := by
  decide +kernel

/-- Counting up ends at the end of the range. -/
theorem ofInt_add_one {a : Int} (ha : a.natAbs ≤ 2 ^ 53) :
    Float.ofInt a + Float.ofInt 1 = Float.ofInt (min (a + 1) (2 ^ 53)) := by
  rcases lt_or_ge a (2 ^ 53) with hlt | hge
  · rw [Int.min_eq_left hlt]
    exact ofInt_add_ofInt ha (by decide) (by omega)
  · obtain rfl : a = 2 ^ 53 := by omega
    exact ofInt_limit_add_one

end MiniLisp
