import MiniLisp.Proofs.Number.Notation
import MiniLisp.Proofs.Number.Overflow
import MiniLisp.Reader

/-!
# What literals denote

A literal denotes a number just if it is written in the notation of numbers, and the number is what
its decimal is rounded to: never not-a-number, and infinite only where the decimal is beyond the
doubles. Of all other texts three are words with a meaning, and the rest are symbols, among them the
words for infinity and not-a-number (`Token.value_literal`).
-/

namespace MiniLisp

open Decimal (Literal Word)

/-- What a text denotes that is no number. -/
def Value.ofWord (text : String) : Value :=
  if text = "true" then .boolean true
  else if text = "false" then .boolean false
  else if text = "none" then .none
  else .symbol text

theorem Decimal.Word.not_mem {text : List Char} (h : Word text) :
    text ∉ ["true".toList, "false".toList, "none".toList] := by
  obtain ⟨hsign, h⟩ := h
  cases hsign with
  | none =>
    have hlower : ∀ l ∈ ["true".toList, "false".toList, "none".toList],
        l.map Char.toLower ∉ ["inf".toList, "infinity".toList, "nan".toList] := by decide
    exact fun hmem => hlower _ hmem h
  | plus => simp
  | minus => simp

namespace Value

variable {text : String}

theorem ofWord_ne_number (x : Float) : ofWord text ≠ .number x := by
  unfold ofWord
  split
  · exact nofun
  split
  · exact nofun
  split
  · exact nofun
  · exact nofun

theorem ofLiteral_of_literal {d : Decimal} (h : Literal text.toList d) :
    ofLiteral text = .number d.toFloat := by
  unfold ofLiteral
  rw [Decimal.ofChars?_eq_some_iff.2 h]

theorem ofLiteral_of_not_literal (h : ¬∃ d, Literal text.toList d) :
    ofLiteral text = ofWord text := by
  unfold ofLiteral ofWord
  rw [Decimal.ofChars?_eq_none_iff.2 h]
  dsimp only
  split
  · rfl
  · rfl
  · rfl
  · rename_i htrue hfalse hnone
    rw [if_neg htrue, if_neg hfalse, if_neg hnone]

theorem exists_ofLiteral_eq_number_iff :
    (∃ x, ofLiteral text = .number x) ↔ ∃ d, Literal text.toList d := by
  constructor
  · rintro ⟨x, hx⟩
    by_contra h
    rw [ofLiteral_of_not_literal h] at hx
    exact ofWord_ne_number x hx
  · rintro ⟨d, hd⟩
    exact ⟨d.toFloat, ofLiteral_of_literal hd⟩

/-- The numbers among the literals are numbers, and beyond the doubles only where they have to be. -/
theorem sound_of_ofLiteral {x : Float} (h : ofLiteral text = .number x) :
    x.isNaN = false ∧ (x.isInf = true ↔ ∃ d, Literal text.toList d ∧ d.Overflows) := by
  obtain ⟨d, hd⟩ := exists_ofLiteral_eq_number_iff.1 ⟨x, h⟩
  rw [ofLiteral_of_literal hd] at h
  cases h
  refine ⟨?_, ?_⟩
  · rw [← Bool.not_eq_true]
    exact fun hnan => d.toFloat_ne_nan (Float.Model.UnpackedFloat.isNaN_iff.1 hnan)
  · rw [Decimal.isInf_toFloat_iff]
    constructor
    · exact fun h => ⟨d, hd, h⟩
    · rintro ⟨e, he, h⟩
      have hde : some d = some e := by
        rw [← Decimal.ofChars?_eq_some_iff.2 hd, Decimal.ofChars?_eq_some_iff.2 he]
      exact Option.some.inj hde ▸ h

/-- The words for infinity and not-a-number are none of the words that have a meaning. -/
theorem ofWord_of_word (h : Word text.toList) : ofWord text = .symbol text := by
  have hmeant := h.not_mem
  rw [ofWord, if_neg, if_neg, if_neg]
  all_goals
    rintro rfl
    exact hmeant (by decide)

end Value

/-- **Literals are classified by one notation.** The texts in it are the ones that denote numbers;
such a number is one, and is infinite only where its decimal is too large. What a quoted text looks
like does not matter. -/
theorem Token.value_literal (text : String) :
    (∀ d, Literal text.toList d → (Token.literal text).value = .number d.toFloat) ∧
    ((¬∃ d, Literal text.toList d) → (Token.literal text).value = Value.ofWord text) ∧
    ((∃ x, (Token.literal text).value = .number x) ↔ ∃ d, Literal text.toList d) ∧
    (∀ x, (Token.literal text).value = .number x → x.isNaN = false ∧
      (x.isInf = true ↔ ∃ d, Literal text.toList d ∧ d.Overflows)) ∧
    (Word text.toList → (Token.literal text).value = .symbol text) ∧
    (Token.quoted text).value = .string text :=
  ⟨fun _ => Value.ofLiteral_of_literal, Value.ofLiteral_of_not_literal,
    Value.exists_ofLiteral_eq_number_iff, fun _ => Value.sound_of_ofLiteral,
    fun h => (Value.ofLiteral_of_not_literal h.not_literal).trans (Value.ofWord_of_word h), rfl⟩

theorem Token.value_literal_overflow :
    (∃ x, (Token.literal "-1.e9999").value = .number x ∧ x.isInf = true) ∧
      (Token.literal "-Infinity").value = .symbol "-Infinity" := by
  have hd : Literal "-1.e9999".toList ⟨true, 1, 9999⟩ := Decimal.ofChars?_eq_some_iff.1 (by decide)
  have hfar : (⟨true, 1, 9999⟩ : Decimal).Overflows :=
    overflowBound_le_of_exponent one_ne_zero (by decide)
  obtain ⟨hliteral, -, -, hsound, -, -⟩ := Token.value_literal "-1.e9999"
  exact ⟨⟨_, hliteral _ hd, (hsound _ (hliteral _ hd)).2.2 ⟨_, hd, hfar⟩⟩,
    (Token.value_literal "-Infinity").2.2.2.2.1 (.mk .minus (by decide))⟩

end MiniLisp
