import Mathlib
import MiniLisp.Number.Shortest

/-!
# Doubles and what they stand for

A double is kept as 64 bits and computed with as a sign, a significand and an exponent. Of the
pairs of a significand and an exponent, the canonical ones (`Binary.Canonical`) are those that the
bits can express, each in one way only, so that such a pair comes back when it is packed and
unpacked (`unpack_pack`). From that follow the laws of negation and equality which the reader and
the printer rest on.
-/

namespace MiniLisp

open Float.Model (Format UnpackedFloat)
open Float.Model.UnpackedFloat

/-! ## The fields of a double -/

theorem toNat_packComponents (s : Sign) (e : BitVec 11) (m : BitVec 52) :
    (packComponents .binary64 s e m).toNat =
      s.toBitVec.toNat * 2 ^ 63 + e.toNat * 2 ^ 52 + m.toNat := by
  have he := e.isLt
  have hm := m.isLt
  unfold packComponents
  rw [BitVec.toNat_append, BitVec.toNat_append, ← Nat.shiftLeft_add_eq_or_of_lt hm,
    ← Nat.shiftLeft_add_eq_or_of_lt he, Nat.shiftLeft_eq, Nat.shiftLeft_eq]
  change (s.toBitVec.toNat * 2 ^ 11 + e.toNat) * 2 ^ 52 + m.toNat = _
  omega

section Fields

variable (b : BitVec Format.binary64.numBits)

theorem toNat_unpackMantissa : (unpackMantissa b).toNat = b.toNat % 2 ^ 52 := by
  unfold unpackMantissa
  rw [BitVec.toNat_cast, BitVec.extractLsb_toNat]
  rfl

theorem toNat_unpackExponent : (unpackExponent b).toNat = b.toNat / 2 ^ 52 % 2 ^ 11 := by
  unfold unpackExponent
  rw [BitVec.toNat_cast, BitVec.extractLsb_toNat, Nat.shiftRight_eq_div_pow]
  rfl

theorem toNat_unpackSign : (unpackSign b).toNat = b.toNat / 2 ^ 63 % 2 := by
  unfold unpackSign
  rw [BitVec.toNat_cast, BitVec.extractLsb_toNat, Nat.shiftRight_eq_div_pow]
  rfl

theorem unpackExponent_eq_ones :
    unpackExponent b = -1#_ ↔ b.toNat / 2 ^ 52 % 2 ^ 11 = 2047 := by
  rw [← toNat_unpackExponent, ← BitVec.toNat_inj]
  rfl

theorem unpackMantissa_eq_zero : unpackMantissa b = 0#_ ↔ b.toNat % 2 ^ 52 = 0 := by
  rw [← toNat_unpackMantissa, ← BitVec.toNat_inj]
  rfl

/-- The sign of a double, from its highest bit. -/
theorem ofBitVec_unpackSign :
    Sign.ofBitVec (unpackSign b) = if b.toNat < 2 ^ 63 then .positive else .negative := by
  have hlt : b.toNat < 2 ^ 64 := b.isLt
  have hsign := toNat_unpackSign b
  unfold Sign.ofBitVec
  by_cases h : b.toNat < 2 ^ 63
  · rw [if_pos h, if_pos]
    refine BitVec.eq_of_toNat_eq ?_
    rw [hsign, BitVec.toNat_ofNat]
    omega
  · rw [if_neg h, if_neg]
    intro heq
    rw [heq, BitVec.toNat_ofNat] at hsign
    omega

/-- What the fields of a double stand for. -/
theorem unpack_eq :
    unpack .binary64 b =
      let sign : Sign := if b.toNat < 2 ^ 63 then .positive else .negative
      let exponent : Nat := b.toNat / 2 ^ 52 % 2 ^ 11
      let mantissa : Nat := b.toNat % 2 ^ 52
      if exponent = 2047 then
        if mantissa = 0 then .infinity sign else .notANumber
      else if exponent = 0 then
        if h : mantissa = 0 then .zero sign
        else .finite sign mantissa (-1074) (Nat.pos_of_ne_zero h)
      else
        .finite sign (2 ^ 52 + mantissa) ((exponent : Int) - 1075)
          (Nat.add_pos_left (by decide) _) := by
  have hmantissa := toNat_unpackMantissa b
  have hexponent := toNat_unpackExponent b
  have hnormal : (1#1 ++ unpackMantissa b).toNat = 2 ^ 52 + b.toNat % 2 ^ 52 := by
    rw [BitVec.toNat_append, ← Nat.shiftLeft_add_eq_or_of_lt (unpackMantissa b).isLt,
      hmantissa]
    rfl
  have hones := unpackExponent_eq_ones b
  have hzero : unpackExponent b = 0#_ ↔ b.toNat / 2 ^ 52 % 2 ^ 11 = 0 := by
    rw [← hexponent, ← BitVec.toNat_inj]
    rfl
  have hnone := unpackMantissa_eq_zero b
  unfold unpack
  simp only [ofBitVec_unpackSign, hones, hzero, hnone, hnormal, hexponent, hmantissa]
  split
  · rfl
  · split
    · rename_i h
      split
      · rfl
      · simp only [h]
        rfl
    · rfl

end Fields

/-! ## Packing and unpacking -/

/-- A significand and an exponent that the bits of a double can express: the exponent is the
smallest one with which the significand has 53 binary digits, or the least exponent of all. -/
structure Binary.Canonical (b : Binary) : Prop where
  pos : 0 < b.significand
  lt : b.significand < 2 ^ 53
  least : -1074 ≤ b.exponent
  greatest : b.exponent ≤ 971
  normal : 2 ^ 52 ≤ b.significand ∨ b.exponent = -1074

theorem Binary.canonical_subnormal {m : Nat} (hpos : 0 < m) (hlt : m < 2 ^ 52) :
    Canonical ⟨m, -1074⟩ :=
  ⟨hpos, Nat.lt_trans hlt (by decide), Int.le_refl _, (by decide : (-1074 : Int) ≤ 971), .inr rfl⟩

theorem Binary.canonical_normal {m : Nat} {e : Int} (hge : 2 ^ 52 ≤ m) (hlt : m < 2 ^ 53)
    (hleast : -1074 ≤ e) (hgreatest : e ≤ 971) : Canonical ⟨m, e⟩ :=
  ⟨Nat.lt_of_lt_of_le (by decide) hge, hlt, hleast, hgreatest, .inl hge⟩

/-- The highest bit tells the sign. -/
theorem sign_of_bits (s : Sign) {rest : Nat} (h : rest < 2 ^ 63) :
    (if s.toBitVec.toNat * 2 ^ 63 + rest < 2 ^ 63 then Sign.positive else .negative) = s := by
  cases s with
  | positive =>
    refine if_pos ?_
    change 0 * 2 ^ 63 + rest < 2 ^ 63
    omega
  | negative =>
    refine if_neg ?_
    change ¬1 * 2 ^ 63 + rest < 2 ^ 63
    omega

theorem log2_eq_iff {m : Nat} (hpos : 0 < m) (hlt : m < 2 ^ 53) :
    m.log2 + 1 = 53 ↔ 2 ^ 52 ≤ m := by
  have hle : 52 ≤ m.log2 ↔ 2 ^ 52 ≤ m := Nat.le_log2 (by omega)
  have hub : m.log2 < 53 := (Nat.log2_lt (by omega)).2 hlt
  omega

/-- The bits of a finite double. -/
theorem toNat_pack_finite (s : Sign) {m : Nat} {e : Int} (hm : 0 < m)
    (h : Binary.Canonical ⟨m, e⟩) :
    (UnpackedFloat.pack .binary64 (.finite s m e hm)).toNat =
      s.toBitVec.toNat * 2 ^ 63 +
        if 2 ^ 52 ≤ m then (e + 1075).toNat * 2 ^ 52 + (m - 2 ^ 52) else m := by
  obtain ⟨-, hlt, hleast, hgreatest, hnormal⟩ := h
  dsimp only at hlt hleast hgreatest hnormal
  have hbias : (e + (Format.binary64.exponentBias : Int) +
      (Format.binary64.mantissaBitsWithoutImplicit : Int)).toNat = (e + 1075).toNat := by
    change (e + 1023 + 52).toNat = _
    omega
  have hfits : ¬2 ^ Format.binary64.exponentBits ≤ (e + 1075).toNat + 1 := by
    change ¬2 ^ 11 ≤ _
    omega
  unfold UnpackedFloat.pack
  simp only [hbias, if_neg hfits]
  by_cases hbig : 2 ^ 52 ≤ m
  · have hlog : m.log2 + 1 = Format.binary64.mantissaBits := (log2_eq_iff hm hlt).2 hbig
    rw [if_pos hlog, if_pos hbig, toNat_packComponents, BitVec.toNat_ofNat, BitVec.toNat_ofNat,
      Nat.mod_eq_of_lt (by omega)]
    omega
  · have hlog : ¬m.log2 + 1 = Format.binary64.mantissaBits :=
      fun hlog => hbig ((log2_eq_iff hm hlt).1 hlog)
    rw [if_neg hlog, if_neg hbig, toNat_packComponents, BitVec.toNat_ofNat, BitVec.toNat_ofNat,
      Nat.mod_eq_of_lt (by omega)]
    omega

/-- A canonical pair comes back when it is packed and unpacked. -/
theorem unpack_pack (s : Sign) {m : Nat} {e : Int} (hm : 0 < m) (h : Binary.Canonical ⟨m, e⟩) :
    (Float.Model.pack (.finite s m e hm)).unpack = .finite s m e hm := by
  have hbits := toNat_pack_finite s hm h
  obtain ⟨-, hlt, hleast, hgreatest, hnormal⟩ := h
  dsimp only at hlt hleast hgreatest hnormal
  change UnpackedFloat.unpack .binary64 (UnpackedFloat.pack .binary64 (.finite s m e hm)) = _
  rw [unpack_eq, hbits]
  have hbit : s.toBitVec.toNat < 2 := s.toBitVec.isLt
  by_cases hbig : 2 ^ 52 ≤ m
  · rw [if_pos hbig]
    have hexponent : (s.toBitVec.toNat * 2 ^ 63 + ((e + 1075).toNat * 2 ^ 52 + (m - 2 ^ 52))) /
        2 ^ 52 % 2 ^ 11 = (e + 1075).toNat := by omega
    have hmantissa : (s.toBitVec.toNat * 2 ^ 63 + ((e + 1075).toNat * 2 ^ 52 + (m - 2 ^ 52))) %
        2 ^ 52 = m - 2 ^ 52 := by omega
    have hm' : 2 ^ 52 + (m - 2 ^ 52) = m := by omega
    have he' : ((e + 1075).toNat : Int) - 1075 = e := by omega
    simp only [sign_of_bits s (show (e + 1075).toNat * 2 ^ 52 + (m - 2 ^ 52) < 2 ^ 63 by omega),
      hexponent, hmantissa, hm', he']
    rw [if_neg (by omega), if_neg (by omega)]
  · rw [if_neg hbig]
    have hexponent : (s.toBitVec.toNat * 2 ^ 63 + m) / 2 ^ 52 % 2 ^ 11 = 0 := by omega
    have hmantissa : (s.toBitVec.toNat * 2 ^ 63 + m) % 2 ^ 52 = m := by omega
    have he : e = -1074 := hnormal.resolve_left hbig
    simp only [sign_of_bits s (show m < 2 ^ 63 by omega), hexponent, hmantissa, he]
    rw [if_neg (by decide), if_pos True.intro, dif_neg (by omega)]

/-- The pair that a finite double stands for is canonical. -/
theorem canonical_of_unpack {f : Float.Model} {s : Sign} {m : Nat} {e : Int} {hm : 0 < m}
    (h : f.unpack = .finite s m e hm) : Binary.Canonical ⟨m, e⟩ := by
  change UnpackedFloat.unpack .binary64 f.toBits.toBitVec = _ at h
  rw [unpack_eq] at h
  generalize f.toBits.toBitVec.toNat = n at h
  have hmantissa : n % 2 ^ 52 < 2 ^ 52 := Nat.mod_lt _ (by decide)
  have hexponent : n / 2 ^ 52 % 2 ^ 11 < 2 ^ 11 := Nat.mod_lt _ (by decide)
  dsimp only at h
  split at h
  · split at h
    · cases h
    · cases h
  · split at h
    · split at h
      · cases h
      · cases h
        exact Binary.canonical_subnormal hm hmantissa
    · cases h
      exact Binary.canonical_normal (by omega) (by omega) (by omega) (by omega)

/-! ## Equality and negation -/

/-- A double is determined by what it stands for. -/
theorem eq_ofModel_pack {x : Float} {u : UnpackedFloat} (h : x.toModel.unpack = u) :
    x = .ofModel (.pack u) := by
  obtain ⟨⟨bits, hvalid⟩⟩ := x
  have hpack := pack_unpack_of_valid hvalid
  subst h
  simp only [Float.Model.pack, Float.Model.unpack, hpack]

/-- A double that is equal to a finite one, other than zero, is the same. -/
theorem eq_of_beq_of_finite {x y : Float} (h : (x == y) = true) {s : Sign} {m : Nat} {e : Int}
    {hm : 0 < m} (hy : y.toModel.unpack = .finite s m e hm) : x = y := by
  have hbeq : x.toModel.unpack.beq y.toModel.unpack = true := h
  rw [beq_iff_ne_notANumber_and_eq] at hbeq
  obtain ⟨-, -, heq | ⟨-, hzero⟩ | ⟨-, hzero⟩⟩ := hbeq
  · rw [eq_ofModel_pack heq, ← eq_ofModel_pack rfl]
  · rw [hy] at hzero
    cases hzero
  · rw [hy] at hzero
    cases hzero

theorem unpack_neg {x : Float} {s : Sign} {m : Nat} {e : Int} {hm : 0 < m}
    (h : x.toModel.unpack = .finite s m e hm) : (-x).toModel.unpack = .finite (-s) m e hm := by
  change (Float.Model.pack x.toModel.unpack.neg).unpack = _
  rw [h]
  exact unpack_pack (-s) hm (canonical_of_unpack h)

theorem neg_neg_of_finite {x : Float} {s : Sign} {m : Nat} {e : Int} {hm : 0 < m}
    (h : x.toModel.unpack = .finite s m e hm) : - -x = x := by
  rw [eq_ofModel_pack h]
  refine eq_ofModel_pack ?_
  rw [← eq_ofModel_pack h, unpack_neg (unpack_neg h)]
  cases s <;> rfl

end MiniLisp
