import MiniLisp.Proofs.Number.Notation

/-!
# Decimals are read back as they are written

The text of a decimal is a sign, digits, and a point and further digits where some stand after it
(`Decimal.Unsigned`). The reader takes such a text apart again at the sign and at the point, and
finds the same coefficient and power of ten (`Decimal.ofChars?_chars`).
-/

namespace MiniLisp

namespace Decimal

/-! ## Digits -/

theorem isDigit_of_mem_toDigits {n : Nat} {c : Char} (h : c ∈ Nat.toDigits 10 n) : c.isDigit :=
  Nat.isDigit_of_mem_toDigits (by decide) (by decide) h

theorem Unsigned.ofChars? {text : List Char} {coefficient places : Nat}
    (h : Unsigned text coefficient places) (negative : Bool) :
    Decimal.ofChars? (if negative then '-' :: text else text) =
      some ⟨negative, coefficient, -(places : Int)⟩ := by
  have hliteral : ∀ {sign}, Signed sign negative →
      Literal (sign ++ text) ⟨negative, coefficient, -(places : Int)⟩ := fun hsign => by
    simpa using Literal.mk hsign (.unsigned h) .none
  rw [ofChars?_eq_some_iff]
  cases negative with
  | true => exact hliteral .minus
  | false => exact hliteral .none

/-! ## Writing -/

theorem unsigned_toDigits (n : Nat) : Unsigned (Nat.toDigits 10 n) n 0 := by
  have h := Unsigned.whole Nat.toDigits_ne_nil fun c hc => isDigit_of_mem_toDigits (n := n) hc
  rwa [Nat.ofDigitChars_ten_toDigits] at h

/-- Zeros before the digits of a number do not change it. -/
theorem ofDigitChars_padded (k n : Nat) :
    Nat.ofDigitChars 10 (List.replicate k '0' ++ Nat.toDigits 10 n) 0 = n := by
  rw [Nat.ofDigitChars_append, Nat.ofDigitChars_replicate_zero, Nat.mul_zero,
    Nat.ofDigitChars_ten_toDigits]

theorem isDigit_of_mem_padded {k n : Nat} :
    ∀ c ∈ List.replicate k '0' ++ Nat.toDigits 10 n, c.isDigit := by
  intro c hc
  rcases List.mem_append.1 hc with hc | hc
  · rw [(List.mem_replicate.1 hc).2]
    rfl
  · exact isDigit_of_mem_toDigits hc

theorem unsigned_pointed (n places : Nat) :
    Unsigned (pointed (Nat.toDigits 10 n) places) n places := by
  unfold pointed
  have hvalue := ofDigitChars_padded (places + 1 - (Nat.toDigits 10 n).length) n
  have hdigits := isDigit_of_mem_padded (k := places + 1 - (Nat.toDigits 10 n).length) (n := n)
  have hlength : places + 1 ≤ (List.replicate (places + 1 - (Nat.toDigits 10 n).length) '0' ++
      Nat.toDigits 10 n).length := by
    rw [List.length_append, List.length_replicate]
    omega
  generalize List.replicate (places + 1 - (Nat.toDigits 10 n).length) '0' ++ Nat.toDigits 10 n =
    padded at hvalue hdigits hlength
  have hne : padded.take (padded.length - places) ≠ [] := by
    rw [← List.length_pos_iff, List.length_take]
    omega
  have h := Unsigned.pointed hne (fun c hc => hdigits c (List.mem_of_mem_take hc))
    fun c hc => hdigits c (List.mem_of_mem_drop (i := padded.length - places) hc)
  have hfraction : (padded.drop (padded.length - places)).length = places := by
    rw [List.length_drop]
    omega
  rwa [List.take_append_drop, hvalue, hfraction] at h

/-- The digits that are written after the point end with no zero. -/
theorem dropZeros_idempotent (coefficient places : Nat) :
    dropZeros (dropZeros coefficient places).1 (dropZeros coefficient places).2 =
      dropZeros coefficient places := by
  induction places generalizing coefficient with
  | zero => rfl
  | succ places ih =>
    by_cases h : coefficient % 10 = 0
    · rw [dropZeros, if_pos h]
      exact ih _
    · have hdrop : dropZeros coefficient (places + 1) = (coefficient, places + 1) := by
        rw [dropZeros, if_neg h]
      rw [hdrop]
      exact hdrop

/-- A decimal as it is written: its exponent counts the digits after the point. -/
theorem exists_positional (d : Decimal) : ∃ places : Nat,
    d.positional = ⟨d.negative, d.positional.coefficient, -(places : Int)⟩ := by
  unfold positional
  split
  · exact ⟨0, rfl⟩
  · exact ⟨_, rfl⟩

theorem positional_negative (d : Decimal) : d.positional.negative = d.negative := by
  obtain ⟨places, h⟩ := d.exists_positional
  rw [h]

theorem positional_of_places (negative : Bool) (coefficient places : Nat) :
    positional ⟨negative, coefficient, -(places : Int)⟩ =
      ⟨negative, (dropZeros coefficient places).1, -((dropZeros coefficient places).2 : Int)⟩ := by
  cases places with
  | zero => simp [positional, dropZeros]
  | succ places =>
    have hexponent : ¬0 ≤ -((places + 1 : Nat) : Int) := by omega
    have hplaces : (-(-((places + 1 : Nat) : Int))).toNat = places + 1 := by omega
    rw [positional, if_neg hexponent, hplaces]

theorem positional_idempotent (d : Decimal) : d.positional.positional = d.positional := by
  by_cases h : 0 ≤ d.exponent
  · have hd : d.positional = ⟨d.negative, d.coefficient * Nat.pow 10 d.exponent.toNat, 0⟩ := by
      rw [positional, if_pos h]
    rw [hd]
    exact positional_of_places _ _ 0
  · have hd : d.positional = ⟨d.negative, (dropZeros d.coefficient (-d.exponent).toNat).1,
        -((dropZeros d.coefficient (-d.exponent).toNat).2 : Int)⟩ := by
      rw [positional, if_neg h]
    rw [hd, positional_of_places, dropZeros_idempotent]

/-- The text of a decimal without its sign. -/
theorem exists_unsigned (d : Decimal) : ∃ (text : List Char) (places : Nat),
    d.positional = ⟨d.negative, d.positional.coefficient, -(places : Int)⟩ ∧
      d.chars = (if d.negative then '-' :: text else text) ∧
      Unsigned text d.positional.coefficient places := by
  obtain ⟨places, h⟩ := d.exists_positional
  have hnegative : d.positional.negative = d.negative := d.positional_negative
  have hexponent : d.positional.exponent = -(places : Int) := by rw [h]
  unfold chars
  generalize d.positional = p at h hnegative hexponent
  simp only [hnegative, hexponent]
  refine ⟨_, places, h, rfl, ?_⟩
  by_cases hp : places = 0
  · rw [hp, if_pos (by rfl)]
    exact unsigned_toDigits _
  · rw [if_neg (by omega), Int.natAbs_neg, Int.natAbs_natCast]
    exact unsigned_pointed _ _

/-- **A decimal is read back** as it is written. -/
theorem ofChars?_chars (d : Decimal) : ofChars? d.chars = some d.positional := by
  obtain ⟨text, places, hd, htext, h⟩ := d.exists_unsigned
  rw [htext, h.ofChars?, ← hd]

/-- A decimal that is written after a minus is read back with the other sign. -/
theorem ofChars?_minus_chars {d : Decimal} (h : d.negative = false) :
    ofChars? ('-' :: d.chars) = some { d.positional with negative := true } := by
  obtain ⟨text, places, hd, htext, hunsigned⟩ := d.exists_unsigned
  rw [htext, h, if_neg Bool.false_ne_true, hd]
  exact hunsigned.ofChars? true

end Decimal

end MiniLisp
