import MiniLisp.Proofs.Reader.Scan
import MiniLisp.Proofs.Tree.Leaves
import MiniLisp.Proofs.Value.Readback

/-!
# Printing and reading back

The text of a program that has been read is a program again, and the same one but for two sorts of
atoms: `none` and the infinite numbers are written as words that are names to the reader
(`Value.readBack`). `parse_text` states this of every text that can be read.

The text of a tree spells its flattened form, one token a mark (`Sexp.spells_text`), so it remains
to see what becomes of each token. Parentheses stay, and an atom stays an atom
(`Value.Readable.mark_token`), so the scan finds the end of the program where it did before, and
the marks tell which tree has been read.
-/

namespace MiniLisp

mutual

/-- What a tree is after it has been written and read again. -/
def Sexp.readBack : Sexp → Sexp
  | .atom v => .atom v.readBack
  | .expression items => .expression (Sexp.readBackAll items)
  | .placeholder index => .placeholder index

def Sexp.readBackAll : List Sexp → List Sexp
  | [] => []
  | s :: rest => s.readBack :: Sexp.readBackAll rest

end

/-! ## Printing trees -/

/-- The token that is written for a mark. -/
def Mark.token : Mark → Token
  | .opening => .leftParen
  | .closing => .rightParen
  | .leaf v => v.token
  | .hole index => .literal ("#" ++ toString index)

mutual

/-- **The text of a tree** spells its flattened form. -/
theorem Sexp.spells_text : ∀ (s : Sexp), (∀ v ∈ s.atoms, v.Readable) → s.placeholders = [] →
    Spells s.text.toList (s.marks.map Mark.token)
  | .atom v, h, _ => (h v (List.mem_singleton_self v)).spells
  | .expression items, h, hnone => by
    have hspells := (Sexp.spells_items items h hnone).expression
    have htext : (Sexp.expression items).text.toList =
        '(' :: ((" ".intercalate (items.map Sexp.text)).toList ++ [')']) := by
      rw [Sexp.text_expression, String.toList_append, String.toList_append]
      rfl
    rw [htext, Sexp.marks, List.map_cons, List.map_append]
    exact hspells
  | .placeholder index, _, hnone => by cases hnone

theorem Sexp.spells_items : ∀ (items : List Sexp), (∀ v ∈ Sexp.atomsAll items, v.Readable) →
    Sexp.placeholdersAll items = [] →
    Spells (" ".intercalate (items.map Sexp.text)).toList ((Sexp.marksAll items).map Mark.token)
  | [], _, _ => Spells.nil
  -- a space stands between two items only, so the last one is a case of its own
  | [s], h, hnone => by
    rw [Sexp.atomsAll, Sexp.atomsAll, List.append_nil] at h
    rw [Sexp.placeholdersAll, Sexp.placeholdersAll, List.append_nil] at hnone
    rw [List.map_cons, List.map_nil, String.intercalate_singleton, Sexp.marksAll, Sexp.marksAll,
      List.append_nil]
    exact Sexp.spells_text s h hnone
  | s :: t :: items, h, hnone => by
    rw [Sexp.atomsAll, List.forall_mem_append] at h
    rw [Sexp.placeholdersAll, List.append_eq_nil_iff] at hnone
    have hs := Sexp.spells_text s h.1 hnone.1
    have hitems := Sexp.spells_items (t :: items) h.2 hnone.2
    rw [List.map_cons, List.map_cons, String.intercalate_cons_cons, Sexp.marksAll, List.map_append,
      String.toList_append, String.toList_append, List.append_assoc]
    exact hs.space hitems

end

/-! ## Reading what has been printed -/

/-- The token that is written for a token that has been read. -/
def Token.printed (token : Token) : Token :=
  token.mark.token

theorem Token.mark_printed_leaf {token : Token} {v : Value} (h : token.mark = .leaf v) :
    token.printed.mark = .leaf v.token.value := by
  rw [Token.printed, h]
  exact v.mark_token

/-- Printing the tokens does not change where the scan ends. -/
theorem Scan.inside_printed (count : Nat) (tokens : List Token) :
    Scan.inside count (tokens.map Token.printed) =
      (Scan.inside count tokens).map (List.map Token.printed) := by
  induction tokens generalizing count with
  | nil => cases count <;> rfl
  | cons token tokens ih =>
    cases count with
    | zero => rfl
    | succ count =>
      cases token with
      | leftParen =>
        change Scan.inside (count + 1) (.leftParen :: tokens.map Token.printed) = _
        rw [Scan.inside, Scan.inside]
        split
        · rfl
        · exact ih (count + 2)
      | rightParen => exact ih count
      | quoted text =>
        rw [List.map_cons, Scan.inside_leaf (Token.mark_printed_leaf rfl), Scan.inside_leaf rfl]
        exact ih (count + 1)
      | literal text =>
        rw [List.map_cons, Scan.inside_leaf (Token.mark_printed_leaf rfl), Scan.inside_leaf rfl]
        exact ih (count + 1)

theorem Scan.program_printed (tokens : List Token) :
    Scan.program (tokens.map Token.printed) =
      (Scan.program tokens).map (List.map Token.printed) := by
  cases tokens with
  | nil => rfl
  | cons token tokens =>
    cases token with
    | leftParen => exact Scan.inside_printed 1 tokens
    | rightParen => rfl
    | quoted text => rw [List.map_cons, Scan.program_leaf (Token.mark_printed_leaf rfl)]; rfl
    | literal text => rw [List.map_cons, Scan.program_leaf (Token.mark_printed_leaf rfl)]; rfl

theorem Sexp.exists_ofTokens_printed {tokens : List Token} {tree : Sexp}
    (h : Sexp.ofTokens tokens = .ok tree) :
    ∃ printed, Sexp.ofTokens (tokens.map Token.printed) = .ok printed := by
  rw [Sexp.exists_ofTokens_iff, Scan.program_printed, Sexp.exists_ofTokens_iff.1 ⟨tree, h⟩]
  rfl

/-- What a mark is after it has been written and read again. -/
def Mark.readBack : Mark → Mark
  | .leaf v => .leaf v.readBack
  | mark => mark

mutual

theorem Sexp.marks_readBack : ∀ (s : Sexp), s.readBack.marks = s.marks.map Mark.readBack
  | .atom v => rfl
  | .expression items => by
    rw [Sexp.readBack, Sexp.marks, Sexp.marksAll_readBack items, Sexp.marks, List.map_cons,
      List.map_append]
    rfl
  | .placeholder index => rfl

theorem Sexp.marksAll_readBack : ∀ (items : List Sexp),
    Sexp.marksAll (Sexp.readBackAll items) = (Sexp.marksAll items).map Mark.readBack
  | [] => rfl
  | s :: items => by
    rw [Sexp.readBackAll, Sexp.marksAll, Sexp.marks_readBack s, Sexp.marksAll_readBack items,
      Sexp.marksAll, List.map_append]

end

theorem Token.Spellable.mark_printed {token : Token} (h : token.Spellable) :
    token.printed.mark = token.mark.readBack := by
  cases token with
  | leftParen => rfl
  | rightParen => rfl
  | quoted text => exact (Token.Spellable.readable h rfl).mark_token
  | literal text => exact (Token.Spellable.readable h rfl).mark_token

/-- **Printed tokens are read** as the tree that is read from the tokens, read back. -/
theorem Sexp.ofTokens_printed {tokens : List Token} {s : Sexp}
    (hspellable : ∀ token ∈ tokens, token.Spellable) (h : Sexp.ofTokens tokens = .ok s) :
    Sexp.ofTokens (tokens.map Token.printed) = .ok s.readBack := by
  -- some tree is read, as the parentheses are the same, and its marks leave only one
  obtain ⟨printed, hprinted⟩ := Sexp.exists_ofTokens_printed h
  have hmarks : printed.marks = s.readBack.marks := by
    rw [marks_of_ofTokens hprinted, Sexp.marks_readBack, marks_of_ofTokens h, List.map_map,
      List.map_map]
    exact List.map_congr_left fun token htoken => (hspellable token htoken).mark_printed
  rw [hprinted, Sexp.marks_injective hmarks]

/-- The text of a program consists of the tokens of the program, printed. -/
theorem tokenize_text {tokens : List Token} {s : Sexp}
    (hspellable : ∀ token ∈ tokens, token.Spellable) (h : Sexp.ofTokens tokens = .ok s) :
    tokenize s.text = .ok (tokens.map Token.printed) := by
  have hmarks := marks_of_ofTokens h
  have hatoms : ∀ v ∈ s.atoms, v.Readable := by
    intro v hv
    rw [← Sexp.leaf_mem_marks, hmarks, List.mem_map] at hv
    obtain ⟨token, htoken, hmark⟩ := hv
    exact (hspellable token htoken).readable hmark
  have hspells := s.spells_text hatoms (Sexp.placeholders_of_ofTokens h)
  rw [hmarks, List.map_map] at hspells
  exact tokenize_of_spells hspells

/-! ## Trees that are read back unchanged -/

mutual

theorem Sexp.readBack_eq_self : ∀ (s : Sexp), (∀ v ∈ s.atoms, v.readBack = v) → s.readBack = s
  | .atom v, h => congrArg Sexp.atom (h v (List.mem_singleton_self v))
  | .expression items, h => congrArg Sexp.expression (Sexp.readBackAll_eq_self items h)
  | .placeholder _, _ => rfl

theorem Sexp.readBackAll_eq_self : ∀ (items : List Sexp),
    (∀ v ∈ Sexp.atomsAll items, v.readBack = v) → Sexp.readBackAll items = items
  | [], _ => rfl
  | s :: items, h => by
    rw [Sexp.atomsAll, List.forall_mem_append] at h
    rw [Sexp.readBackAll, Sexp.readBack_eq_self s h.1, Sexp.readBackAll_eq_self items h.2]

end

/-- **What is printed is read back.** The text of a program that has been read is read as the same
tree with a name for each `none` and each infinite number in it, so as the same tree if it has
none of these. -/
theorem parse_text {source : String} {s : Sexp} (h : parse source = .ok s) :
    parse s.text = .ok s.readBack ∧
      ((∀ v ∈ s.atoms, v ≠ .none ∧ ∀ x, v = .number x → x.isInf = false) →
        parse s.text = .ok s) := by
  obtain ⟨tokens, htokens, htree⟩ := exists_tokens_of_parse h
  have hspellable := tokenize_spellable htokens
  have hread : parse s.text = .ok s.readBack := by
    rw [parse_of_tokenize (tokenize_text hspellable htree)]
    exact Sexp.ofTokens_printed hspellable htree
  refine ⟨hread, fun hatoms => ?_⟩
  rw [hread, s.readBack_eq_self fun v hv => Value.readBack_eq_self (hatoms v hv).1 (hatoms v hv).2]

theorem parse_text_call :
    let overflow : Sexp := .expression [.atom (.symbol "f"), .atom .none,
      .atom (.number (Decimal.toFloat ⟨true, 1, 400⟩))]
    let kept : Sexp := .expression [.atom (.string ")( "), .expression [],
      .atom (.number (Decimal.toFloat ⟨true, 0, 0⟩))]
    parse "(f none -1e400)" = .ok overflow ∧ parse overflow.text =
        .ok (.expression [.atom (.symbol "f"), .atom (.symbol "None"), .atom (.symbol "-inf")]) ∧
      parse "(')( ' () -0)" = .ok kept ∧ parse kept.text = .ok kept := by
  intro overflow kept
  have hoverflow : parse "(f none -1e400)" = .ok overflow := rfl
  have hkept : parse "(')( ' () -0)" = .ok kept := rfl
  refine ⟨hoverflow, ?_, hkept, (parse_text hkept).2 ?_⟩
  · rw [(parse_text hoverflow).1]
    simp only [overflow, Sexp.readBack, Sexp.readBackAll, Value.readBack]
    rw [if_pos (by decide +kernel), if_pos (by decide +kernel)]
  · intro v hv
    simp only [kept, Sexp.atoms, Sexp.atomsAll, List.append_nil, List.singleton_append,
      List.nil_append, List.mem_cons, List.not_mem_nil, or_false] at hv
    rcases hv with rfl | rfl
    · exact ⟨Value.noConfusion, fun x hx => by (cases hx)⟩
    · refine ⟨Value.noConfusion, fun x hx => ?_⟩
      obtain rfl := Value.number.inj hx
      decide +kernel

end MiniLisp
