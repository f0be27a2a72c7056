import MiniLisp.Proofs.Number.Readback
import MiniLisp.Proofs.Reader.Marks
import MiniLisp.Proofs.Token.Spelling
import MiniLisp.Proofs.Value.Text

/-!
# Atoms are read back

The reader makes atoms of few sorts (`Value.Readable`). The text of such an atom is one token
(`Value.Readable.spells`), and the reader makes the same atom of this token again, but for `none`
and the infinite numbers: they are written as words that are names to the reader
(`Value.Readable.mark_token`, with `Value.readBack` for what they become).
-/

namespace MiniLisp

/-- What an atom is after it has been written and read again. -/
def Value.readBack : Value → Value
  | .none => .symbol "None"
  | .number x => if x.isInf then .symbol (if x < 0 then "-inf" else "inf") else .number x
  | v => v

theorem Value.readBack_eq_self {v : Value} (hnone : v ≠ .none)
    (hfinite : ∀ x, v = .number x → x.isInf = false) : v.readBack = v := by
  cases v with
  | none => exact absurd rfl hnone
  | number x => rw [Value.readBack, hfinite x rfl, if_neg Bool.false_ne_true]
  | _ => rfl

/-! ## Atoms that are read -/

/-- The atoms that the reader makes. -/
inductive Value.Readable : Value → Prop where
  | string {text : String} (h : (Token.quoted text).Spellable) : Readable (.string text)
  | number (d : Decimal) : Readable (.number d.toFloat)
  | boolean (b : Bool) : Readable (.boolean b)
  | none : Readable .none
  | symbol {name : String} (h : (Token.literal name).Spellable)
      (hname : Value.ofLiteral name = .symbol name) : Readable (.symbol name)

theorem Value.ofLiteral_number {text : String} {d : Decimal}
    (h : Decimal.ofChars? text.toList = some d) : Value.ofLiteral text = .number d.toFloat := by
  unfold Value.ofLiteral
  rw [h]

theorem Value.readable_ofLiteral {text : String} (h : (Token.literal text).Spellable) :
    (Value.ofLiteral text).Readable := by
  cases hd : Decimal.ofChars? text.toList with
  | some d =>
    rw [Value.ofLiteral_number hd]
    exact .number d
  | none =>
    by_cases htrue : text = "true"
    · subst htrue
      exact .boolean true
    by_cases hfalse : text = "false"
    · subst hfalse
      exact .boolean false
    by_cases hnone : text = "none"
    · subst hnone
      exact .none
    have hname : Value.ofLiteral text = .symbol text := by simp [Value.ofLiteral, *]
    rw [hname]
    exact .symbol h hname

/-- What the reader makes of a token with a spelling. -/
theorem Token.Spellable.readable {token : Token} {v : Value} (h : token.Spellable)
    (hmark : token.mark = .leaf v) : v.Readable := by
  cases token with
  | leftParen => cases hmark
  | rightParen => cases hmark
  | quoted text =>
    obtain rfl := Mark.leaf.inj hmark
    exact .string h
  | literal text =>
    obtain rfl := Mark.leaf.inj hmark
    exact Value.readable_ofLiteral h

/-- The token that the text of an atom is. -/
def Value.token : Value → Token
  | .string text => .quoted text
  | .symbol name => .literal name
  | v => .literal v.text

/-! ## Their texts -/

theorem Token.spells_quoted {text : String} (h : (Token.quoted text).Spellable) :
    Spells (Value.string text).text.toList [.quoted text] := by
  have hspells := Spells.quoted (show '\'' ∉ text.toList from h)
  rw [String.ofList_toList] at hspells
  have htext : (Value.string text).text.toList = '\'' :: (text.toList ++ ['\'']) := by
    simp [Value.text, Value.write]
  rw [htext]
  exact hspells

theorem Token.spells_literal {text : String} (h : (Token.literal text).Spellable) :
    Spells text.toList [.literal text] := by
  have hspells := Spells.literal h.1 h.2
  rw [String.ofList_toList] at hspells
  exact hspells

/-- A text is seen to be a literal by looking at its characters. -/
theorem Token.literal_spellable {text : String} (hne : text.toList ≠ [])
    (h : text.toList.all isPlain = true) : (Token.literal text).Spellable :=
  ⟨hne, List.all_eq_true.1 h⟩

theorem floatText_spellable {x : Float} (h : x.toModel.unpack ≠ .notANumber) :
    (Token.literal (floatText x)).Spellable := by
  cases hinf : x.isInf with
  | true =>
    rw [floatText_of_isInf hinf]
    split
    · exact Token.literal_spellable (by decide) (by decide)
    · exact Token.literal_spellable (by decide) (by decide)
  | false =>
    have hfinite := unpack_ne_infinity hinf
    rw [Token.Spellable, floatText, String.toList_ofList]
    constructor
    · -- a text that is read as a number is not empty
      intro hnil
      obtain ⟨d, hd, -⟩ := ofChars?_floatChars h hfinite
      rw [hnil] at hd
      cases hd
    · intro c hc
      rcases mem_floatChars h hfinite c hc with hdigit | rfl | rfl
      · exact isPlain_of_isDigit hdigit
      · decide
      · decide

theorem Value.text_number (x : Float) : (Value.number x).text = floatText x :=
  String.empty_append

/-- **The text of an atom** is one token. -/
theorem Value.Readable.spells {v : Value} (h : v.Readable) :
    Spells (Sexp.atom v).text.toList [v.token] := by
  cases h with
  | string h => exact Token.spells_quoted h
  | number d =>
    have hspellable := floatText_spellable d.toFloat_ne_nan
    rw [← Value.text_number] at hspellable
    exact Token.spells_literal hspellable
  | boolean b =>
    cases b with
    | true => exact Token.spells_literal (Token.literal_spellable (by decide) (by decide))
    | false => exact Token.spells_literal (Token.literal_spellable (by decide) (by decide))
  | none => exact Token.spells_literal (Token.literal_spellable (by decide) (by decide))
  | symbol h => exact Token.spells_literal h

/-- A number is read back from its text, but for the infinite ones. -/
theorem Value.ofLiteral_floatText {x : Float} (h : x.toModel.unpack ≠ .notANumber) :
    Value.ofLiteral (floatText x) = (Value.number x).readBack := by
  cases hinf : x.isInf with
  | true =>
    rw [floatText_of_isInf hinf, Value.readBack, if_pos hinf]
    split
    · rfl
    · rfl
  | false =>
    obtain ⟨d, hd, hvalue⟩ := ofChars?_floatChars h (unpack_ne_infinity hinf)
    rw [Value.readBack, hinf, if_neg Bool.false_ne_true, ← hvalue]
    refine Value.ofLiteral_number ?_
    rw [floatText, String.toList_ofList, hvalue, hd]

/-- **An atom is read back** from its text. -/
theorem Value.Readable.mark_token {v : Value} (h : v.Readable) :
    v.token.mark = .leaf v.readBack := by
  cases h with
  | string h => rfl
  | number d =>
    have hvalue := Value.ofLiteral_floatText d.toFloat_ne_nan
    rw [← Value.text_number] at hvalue
    exact congrArg Mark.leaf hvalue
  | boolean b =>
    cases b with
    | true => rfl
    | false => rfl
  | none => rfl
  | symbol h hname => exact congrArg Mark.leaf hname

theorem Value.mark_token (v : Value) : v.token.mark = .leaf v.token.value := by
  cases v <;> rfl

end MiniLisp
