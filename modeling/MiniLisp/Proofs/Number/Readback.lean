import MiniLisp.Proofs.Number.Digits
import MiniLisp.Proofs.Number.Rounding

/-!
# Doubles are read back as they are written

The text of a finite double is a literal that denotes this very double, a negative zero included
(`ofChars?_floatChars`). The search for the shortest text tries its candidates by reading them
back, so nothing has to be known of how they are found; should all fail, every digit is written,
and a double with all its digits is a decimal that is read exactly. A literal never denotes
not-a-number (`toFloat_ne_nan`), and the infinite doubles are written as words
(`floatText_of_isInf`). So no two doubles have the same text (`floatText_injective`).
-/

namespace MiniLisp

open Float.Model (Format UnpackedFloat)
open Float.Model.UnpackedFloat

/-! ## Literals denote numbers -/

theorem fields_of_unpack_nan {b : BitVec Format.binary64.numBits}
    (h : UnpackedFloat.unpack .binary64 b = .notANumber) :
    unpackExponent b = -1#_ ∧ unpackMantissa b ≠ 0#_ := by
  unfold UnpackedFloat.unpack at h
  dsimp only at h
  split at h
  · rename_i hexponent
    split at h
    · cases h
    · rename_i hmantissa
      exact ⟨hexponent, hmantissa⟩
  · split at h
    · split at h
      · cases h
      · cases h
    · cases h

/-- Packing makes no double that is not a number of one that is. -/
theorem unpack_pack_ne_nan {u : UnpackedFloat} (h : u ≠ .notANumber) :
    (Float.Model.pack u).unpack ≠ .notANumber := by
  intro hnan
  change UnpackedFloat.unpack .binary64 (UnpackedFloat.pack .binary64 u) = _ at hnan
  obtain ⟨hexponent, hmantissa⟩ := fields_of_unpack_nan hnan
  cases u with
  | notANumber => exact h rfl
  | infinity s => exact hmantissa unpackMantissa_packComponents
  | zero s => exact hmantissa unpackMantissa_packComponents
  | finite s m e hm =>
    rw [UnpackedFloat.pack] at hexponent hmantissa
    dsimp only at hexponent hmantissa
    split at hmantissa
    · exact hmantissa unpackMantissa_packComponents
    · rename_i hfits
      rw [if_neg hfits] at hexponent
      split at hexponent
      · rw [unpackExponent_packComponents, ← BitVec.toNat_inj, BitVec.toNat_ofNat] at hexponent
        change _ % 2 ^ 11 = 2047 at hexponent
        change ¬2 ^ 11 ≤ _ at hfits
        omega
      · rw [unpackExponent_packComponents] at hexponent
        exact absurd hexponent (by decide)

theorem roundWithAccuracy_ne_nan (s : Sign) (m : Nat) (e : Int) (accuracy : Accuracy) :
    roundWithAccuracy .binary64 s m e accuracy ≠ .notANumber := by
  unfold roundWithAccuracy
  dsimp only
  split
  · exact UnpackedFloat.noConfusion
  · exact UnpackedFloat.noConfusion

theorem ofNat_ne_nan (n : Nat) : UnpackedFloat.ofNat .binary64 n ≠ .notANumber := by
  unfold UnpackedFloat.ofNat UnpackedFloat.ofInt UnpackedFloat.normalize
  split
  · exact roundWithAccuracy_ne_nan _ _ _ _
  · exact UnpackedFloat.noConfusion
  · exact roundWithAccuracy_ne_nan _ _ _ _

section Finite

variable {u : UnpackedFloat} (h : u ≠ .notANumber) (s : Sign) (m : Nat) (e : Int) (hm : 0 < m)

include h

theorem mul_ne_nan : UnpackedFloat.mul .binary64 u (.finite s m e hm) ≠ .notANumber := by
  cases u with
  | notANumber => exact absurd rfl h
  | infinity s' => exact UnpackedFloat.noConfusion
  | zero s' => exact UnpackedFloat.noConfusion
  | finite s' m' e' hm' => exact roundWithAccuracy_ne_nan _ _ _ _

theorem div_ne_nan : UnpackedFloat.div .binary64 u (.finite s m e hm) ≠ .notANumber := by
  cases u with
  | notANumber => exact absurd rfl h
  | infinity s' => exact UnpackedFloat.noConfusion
  | zero s' => exact UnpackedFloat.noConfusion
  | finite s' m' e' hm' => exact roundWithAccuracy_ne_nan _ _ _ _

end Finite

theorem ofScientific_model_ne_nan (c : Nat) (e : Int) :
    UnpackedFloat.ofScientific .binary64 c e ≠ .notANumber := by
  unfold UnpackedFloat.ofScientific
  split
  · exact UnpackedFloat.noConfusion
  split
  · exact UnpackedFloat.noConfusion
  split
  · exact UnpackedFloat.noConfusion
  split
  · exact roundWithAccuracy_ne_nan _ _ _ _
  · exact roundWithAccuracy_ne_nan _ _ _ _

theorem ofScientific_ne_nan (c : Nat) (negative : Bool) (p : Nat) :
    (Float.ofScientific c negative p).toModel.unpack ≠ .notANumber := by
  unfold Float.ofScientific
  split
  · rename_i hfast
    have hnatural : c.toUInt64.toFloat.toModel.unpack ≠ .notANumber :=
      unpack_pack_ne_nan (ofNat_ne_nan _)
    have hp : p < Float.exactlyRepresentablePowersOfTen.size := Nat.lt_succ_of_le hfast.2
    obtain ⟨m, e, hm, hpower, -⟩ := unpack_powerOfTen hp
    dsimp only
    split
    · change (Float.Model.pack (UnpackedFloat.div .binary64 _ _)).unpack ≠ _
      rw [hpower]
      exact unpack_pack_ne_nan (div_ne_nan hnatural _ _ _ _)
    · change (Float.Model.pack (UnpackedFloat.mul .binary64 _ _)).unpack ≠ _
      rw [hpower]
      exact unpack_pack_ne_nan (mul_ne_nan hnatural _ _ _ _)
  · exact unpack_pack_ne_nan (ofScientific_model_ne_nan _ _)

/-- **A literal denotes a number.** -/
theorem Decimal.toFloat_ne_nan (d : Decimal) : d.toFloat.toModel.unpack ≠ .notANumber := by
  have hmagnitude := ofScientific_ne_nan d.coefficient (d.exponent < 0) d.exponent.natAbs
  unfold Decimal.toFloat
  dsimp only
  split
  · refine unpack_pack_ne_nan ?_
    generalize (Float.ofScientific _ _ _).toModel.unpack = u at hmagnitude
    cases u with
    | notANumber => exact absurd rfl hmagnitude
    | infinity s => exact UnpackedFloat.noConfusion
    | zero s => exact UnpackedFloat.noConfusion
    | finite s m e hm => exact UnpackedFloat.noConfusion
  · exact hmagnitude

/-! ## All digits -/

namespace Decimal

/-- Zeros that are dropped after the point do not change a number. -/
theorem dropZeros_spec (coefficient places : Nat) :
    (dropZeros coefficient places).2 ≤ places ∧
      (dropZeros coefficient places).1 * 10 ^ (places - (dropZeros coefficient places).2) =
        coefficient := by
  induction places generalizing coefficient with
  | zero => exact ⟨Nat.le_refl 0, Nat.mul_one _⟩
  | succ places ih =>
    rw [dropZeros]
    split
    · rename_i hzero
      obtain ⟨hle, hvalue⟩ := ih (coefficient / 10)
      generalize dropZeros (coefficient / 10) places = p at hle hvalue
      refine ⟨Nat.le_succ_of_le hle, ?_⟩
      rw [Nat.succ_sub hle, Nat.pow_succ, ← Nat.mul_assoc, hvalue]
      omega
    · refine ⟨Nat.le_refl _, ?_⟩
      rw [Nat.sub_self, Nat.pow_zero, Nat.mul_one]

theorem dropZeros_value (coefficient places : Nat) :
    ((dropZeros coefficient places).1 : ℚ) * 10 ^ places =
      coefficient * 10 ^ (dropZeros coefficient places).2 := by
  obtain ⟨hle, hvalue⟩ := dropZeros_spec coefficient places
  generalize dropZeros coefficient places = p at hle hvalue
  obtain ⟨k, rfl⟩ := Nat.exists_eq_add_of_le hle
  rw [Nat.add_sub_cancel_left] at hvalue
  rw [← hvalue]
  push_cast
  ring

/-- The digits of a binary fraction: a power of two is taken below the point by one of five. -/
theorem dropZeros_five (m k : Nat) :
    ((dropZeros (m * Nat.pow 5 k) k).1 : ℚ) =
      m * 2 ^ (-(k : Int)) * 10 ^ (dropZeros (m * Nat.pow 5 k) k).2 := by
  have hvalue := dropZeros_value (m * Nat.pow 5 k) k
  generalize dropZeros (m * Nat.pow 5 k) k = p at hvalue
  have hten : (10 : ℚ) ^ k = 5 ^ k * 2 ^ k := by
    rw [← mul_pow]
    norm_num
  have hcast : ((m * Nat.pow 5 k : Nat) : ℚ) = m * 5 ^ k := by
    push_cast [Nat.pow_eq]
    rfl
  have hfive : (5 : ℚ) ^ k ≠ 0 := pow_ne_zero k (by norm_num)
  have htwo : (2 : ℚ) ^ k ≠ 0 := pow_ne_zero k two_ne_zero
  rw [hten, hcast] at hvalue
  rw [zpow_neg, zpow_natCast]
  field_simp
  refine mul_left_cancel₀ hfive ?_
  calc (5 : ℚ) ^ k * (p.1 * 2 ^ k) = p.1 * (5 ^ k * 2 ^ k) := by ring
    _ = m * 5 ^ k * 10 ^ p.2 := hvalue
    _ = 5 ^ k * (m * 10 ^ p.2) := by ring

theorem toFloat_of_places (coefficient places : Nat) :
    toFloat ⟨false, coefficient, -(places : Int)⟩ =
      Float.ofScientific coefficient (decide (0 < places)) places := by
  unfold toFloat
  have hsign : decide (-(places : Int) < 0) = decide (0 < places) := by
    rw [decide_eq_decide]
    omega
  rw [if_neg Bool.false_ne_true, Int.natAbs_neg, Int.natAbs_natCast, hsign]

end Decimal

/-- **A double with all its digits** is read exactly. -/
theorem Binary.toFloat_toDecimal {b : Binary} (h : b.Canonical) :
    b.toDecimal.positional.toFloat = .ofModel (.pack (.finite .positive b.significand b.exponent
      h.pos)) := by
  obtain ⟨m, e⟩ := b
  have hleast : -1074 ≤ e := h.least
  unfold Binary.toDecimal
  dsimp only
  split
  · rename_i he
    obtain ⟨k, rfl⟩ := Int.eq_ofNat_of_zero_le he
    have hpositional : Decimal.positional ⟨false, Binary.num ⟨m, k⟩, 0⟩ =
        ⟨false, m * 2 ^ k, -((0 : Nat) : Int)⟩ := by
      refine (Decimal.positional_of_places false _ 0).trans ?_
      simp [Decimal.dropZeros, Binary.num, Binary.unit, Nat.shiftLeft_eq]
    rw [hpositional, Decimal.toFloat_of_places]
    refine ofScientific_exact h ?_ (by decide)
    push_cast
    rw [pow_zero, mul_one, zpow_natCast]
  · rename_i he
    obtain ⟨k, hk⟩ := Int.eq_ofNat_of_zero_le (show 0 ≤ -e by omega)
    obtain rfl : e = -(k : Int) := by omega
    rw [hk, Int.toNat_natCast, Decimal.positional_of_places, Decimal.toFloat_of_places]
    have hle := (Decimal.dropZeros_spec (m * Nat.pow 5 k) k).1
    exact ofScientific_exact h (Decimal.dropZeros_five m k) (by omega)

/-! ## The shortest text -/

theorem Binary.enclosing_positive {b : Binary} {e : Int} {d : Decimal}
    (h : d ∈ b.enclosing e) : d.negative = false := by
  unfold Binary.enclosing at h
  dsimp only at h
  have hlist : ∀ (p : Prop) [Decidable p] (c : Nat),
      d ∈ (if p then [⟨false, c, e⟩] else []) → d.negative = false := by
    intro p _ c hd
    split at hd
    · obtain rfl := List.mem_singleton.1 hd
      rfl
    · cases hd
  split at h
  · rcases List.mem_append.1 h with h | h
    · exact hlist _ _ h
    · exact hlist _ _ h
  · rcases List.mem_append.1 h with h | h
    · exact hlist _ _ h
    · exact hlist _ _ h

/-- **The decimal that is written** is the double, and has the form in which it is written. -/
theorem Decimal.shortest_spec {x : Float} {b : Binary} {hm : 0 < b.significand}
    (h : x.toModel.unpack = .finite .positive b.significand b.exponent hm) :
    (Decimal.shortest x b).toFloat = x ∧ (Decimal.shortest x b).negative = false ∧
      (Decimal.shortest x b).positional = Decimal.shortest x b := by
  unfold Decimal.shortest
  dsimp only
  -- what has been found was read back; where nothing was, all digits are written
  generalize hfound : List.findSome? _ _ = found
  cases found with
  | none =>
    refine ⟨?_, ?_, Decimal.positional_idempotent _⟩
    · rw [eq_ofModel_pack h]
      exact Binary.toFloat_toDecimal (canonical_of_unpack h)
    · rw [Option.getD_none, Decimal.positional_negative]
      unfold Binary.toDecimal
      split
      · rfl
      · rfl
  | some d =>
    obtain ⟨n, -, hn⟩ := List.exists_of_findSome?_eq_some hfound
    obtain ⟨candidate, hmem, hd⟩ := List.exists_of_findSome?_eq_some hn
    split at hd
    · rename_i hbeq
      obtain rfl := Option.some.inj hd
      refine ⟨eq_of_beq_of_finite hbeq h, ?_, Decimal.positional_idempotent _⟩
      rw [Option.getD_some, Decimal.positional_negative]
      exact Binary.enclosing_positive hmem
    · cases hd

/-! ## Texts of doubles -/

theorem Decimal.toFloat_minus {d : Decimal} (h : d.negative = false) :
    Decimal.toFloat { d with negative := true } = -d.toFloat := by
  unfold Decimal.toFloat
  dsimp only
  rw [h, if_pos rfl, if_neg Bool.false_ne_true]

/-- **A double is read back** as it is written, unless it is infinite or not a number. -/
theorem ofChars?_floatChars {x : Float} (hnan : x.toModel.unpack ≠ .notANumber)
    (hinf : ∀ s, x.toModel.unpack ≠ .infinity s) :
    ∃ d, Decimal.ofChars? (floatChars x) = some d ∧ d.toFloat = x := by
  unfold floatChars
  cases h : x.toModel.unpack with
  | notANumber => exact absurd h hnan
  | infinity s => exact absurd h (hinf s)
  | zero s =>
    rw [eq_ofModel_pack h]
    cases s with
    | positive => exact ⟨⟨false, 0, 0⟩, by decide, by decide +kernel⟩
    | negative => exact ⟨⟨true, 0, 0⟩, by decide, by decide +kernel⟩
  | finite s m e hm =>
    cases s with
    | positive =>
      obtain ⟨hvalue, -, hpositional⟩ := Decimal.shortest_spec (b := ⟨m, e⟩) h
      exact ⟨_, Decimal.ofChars?_chars _, by rw [hpositional, hvalue]⟩
    | negative =>
      obtain ⟨hvalue, hnegative, hpositional⟩ :=
        Decimal.shortest_spec (b := ⟨m, e⟩) (unpack_neg h)
      refine ⟨_, Decimal.ofChars?_minus_chars hnegative, ?_⟩
      rw [hpositional, Decimal.toFloat_minus hnegative, hvalue, neg_neg_of_finite h]

theorem Decimal.Unsigned.mem {text : List Char} {coefficient places : Nat}
    (h : Decimal.Unsigned text coefficient places) : ∀ c ∈ text, c.isDigit ∨ c = '.' := by
  cases h with
  | whole ne h => exact fun c hc => .inl (h c hc)
  | pointed ne h hfraction =>
    intro c hc
    rcases List.mem_append.1 hc with hc | hc
    · exact .inl (h c hc)
    · rcases List.mem_cons.1 hc with rfl | hc
      · exact .inr rfl
      · exact .inl (hfraction c hc)

theorem Decimal.mem_chars {d : Decimal} : ∀ c ∈ d.chars, c.isDigit ∨ c = '.' ∨ c = '-' := by
  intro c hc
  obtain ⟨text, places, -, htext, h⟩ := d.exists_unsigned
  have hmem : ∀ c ∈ text, c.isDigit ∨ c = '.' ∨ c = '-' := fun c hc =>
    (h.mem c hc).imp_right .inl
  rw [htext] at hc
  split at hc
  · rcases List.mem_cons.1 hc with rfl | hc
    · exact .inr (.inr rfl)
    · exact hmem c hc
  · exact hmem c hc

/-- The text of a double that is written with digits. -/
theorem mem_floatChars {x : Float} (hnan : x.toModel.unpack ≠ .notANumber)
    (hinf : ∀ s, x.toModel.unpack ≠ .infinity s) :
    ∀ c ∈ floatChars x, c.isDigit ∨ c = '.' ∨ c = '-' := by
  unfold floatChars
  cases h : x.toModel.unpack with
  | notANumber => exact absurd h hnan
  | infinity s => exact absurd h (hinf s)
  | zero s => cases s <;> simp
  | finite s m e hm =>
    cases s with
    | positive => exact Decimal.mem_chars
    | negative =>
      intro c hc
      rcases List.mem_cons.1 hc with rfl | hc
      · exact .inr (.inr rfl)
      · exact Decimal.mem_chars c hc

/-! ## Infinite numbers -/

theorem isInf_iff {x : Float} : x.isInf = true ↔ ∃ s, x.toModel.unpack = .infinity s := by
  have h : x.isInf = x.toModel.unpack.isInf := rfl
  rw [h]
  cases x.toModel.unpack with
  | infinity s => exact ⟨fun _ => ⟨s, rfl⟩, fun _ => rfl⟩
  | _ => simp [Float.Model.UnpackedFloat.isInf]

theorem unpack_ne_infinity {x : Float} (h : x.isInf = false) (s : Float.Model.UnpackedFloat.Sign) :
    x.toModel.unpack ≠ .infinity s := by
  intro hs
  rw [isInf_iff.2 ⟨s, hs⟩] at h
  cases h

theorem floatText_of_isInf {x : Float} (h : x.isInf = true) :
    floatText x = if x < 0 then "-inf" else "inf" := by
  obtain ⟨s, hs⟩ := isInf_iff.1 h
  rw [eq_ofModel_pack hs]
  cases s with
  | positive => decide +kernel
  | negative => decide +kernel

/-! ## Distinct doubles have distinct texts -/

/-- The doubles that are written as words. -/
inductive WordFor : UnpackedFloat → List Char → Prop
  | notANumber : WordFor .notANumber ['N', 'a', 'N']
  | infinity : WordFor (.infinity .positive) ['i', 'n', 'f']
  | negativeInfinity : WordFor (.infinity .negative) ['-', 'i', 'n', 'f']

namespace WordFor

variable {u w : UnpackedFloat} {text : List Char}

theorem eq (hu : WordFor u text) (hw : WordFor w text) : u = w := by
  cases hu <;> cases hw <;> rfl

/-- No such word is a literal. -/
theorem ofChars?_eq_none (h : WordFor u text) : Decimal.ofChars? text = none := by
  cases h <;> decide

end WordFor

/-- A double is written as a literal that denotes it, or as a word. -/
theorem floatChars_cases (x : Float) :
    (x.toModel.unpack ≠ .notANumber ∧ ∀ s, x.toModel.unpack ≠ .infinity s) ∨
      WordFor x.toModel.unpack (floatChars x) := by
  unfold floatChars
  cases x.toModel.unpack with
  | notANumber => exact .inr .notANumber
  | infinity s =>
    cases s with
    | positive => exact .inr .infinity
    | negative => exact .inr .negativeInfinity
  | zero s => exact .inl ⟨UnpackedFloat.noConfusion, fun _ => UnpackedFloat.noConfusion⟩
  | finite s m e hm => exact .inl ⟨UnpackedFloat.noConfusion, fun _ => UnpackedFloat.noConfusion⟩

theorem floatChars_injective {x y : Float} (h : floatChars x = floatChars y) : x = y := by
  rcases floatChars_cases x with ⟨hnan, hinf⟩ | hx
  · obtain ⟨d, hd, rfl⟩ := ofChars?_floatChars hnan hinf
    rw [h] at hd
    rcases floatChars_cases y with ⟨hnan', hinf'⟩ | hy
    · obtain ⟨d', hd', rfl⟩ := ofChars?_floatChars hnan' hinf'
      rw [hd] at hd'
      rw [Option.some.inj hd']
    · rw [hy.ofChars?_eq_none] at hd
      cases hd
  · rcases floatChars_cases y with ⟨hnan, hinf⟩ | hy
    · obtain ⟨d, hd, -⟩ := ofChars?_floatChars hnan hinf
      rw [← h, hx.ofChars?_eq_none] at hd
      cases hd
    · rw [← h] at hy
      rw [eq_ofModel_pack (hx.eq hy), ← eq_ofModel_pack rfl]

/-- **The text of a double tells the double**, the sign of a zero included. -/
theorem floatText_injective {x y : Float} (h : floatText x = floatText y) : x = y :=
  floatChars_injective (String.ofList_injective h)

end MiniLisp
