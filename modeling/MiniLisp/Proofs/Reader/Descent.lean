import MiniLisp.Reader

/-!
# Reading by descent

The reader can also be written as two functions that call each other, one for a tree and one for
the items of an expression that has been opened (`descend`, `descendItems`). A depth takes the
place of the open expressions, and each call gives back the tokens that it has not used. Both ways
of reading come to the same (`Sexp.ofTokens_eq_descendProgram`): the reader that keeps the open
expressions does with a tree, once it is complete, what the caller would have done with it
(`resume`).
-/

namespace MiniLisp

/-- The tokens that are left by a function which uses at least one of `tokens`. -/
abbrev Left (tokens : List Token) : Type := { rest : List Token // rest.length < tokens.length }

mutual

/-- Reads a tree inside `depth` open expressions. -/
def descend (depth : Nat) : (tokens : List Token) → Except ReadFault (Sexp × Left tokens)
  | [] => .error .unbalanced
  | .leftParen :: tokens =>
    if depth < maxNesting then
      match descendItems (depth + 1) tokens with
      | .error fault => .error fault
      | .ok (items, rest) => .ok (.expression items, ⟨rest, Nat.lt_succ_of_lt rest.2⟩)
    else
      .error .tooDeep
  | .rightParen :: _ => .error .unexpectedClose
  | token :: tokens => .ok (.atom token.value, ⟨tokens, Nat.lt_succ_self _⟩)
termination_by tokens => (tokens.length, 0)

/-- Reads the items of an expression, the innermost of `depth` open ones, and what closes it. -/
def descendItems (depth : Nat) (tokens : List Token) :
    Except ReadFault (List Sexp × Left tokens) :=
  match tokens with
  | [] => .error .unbalanced
  | .rightParen :: tokens => .ok ([], ⟨tokens, Nat.lt_succ_self _⟩)
  | token :: tokens =>
    match descend depth (token :: tokens) with
    | .error fault => .error fault
    | .ok (item, middle) =>
      match descendItems depth middle with
      | .error fault => .error fault
      | .ok (items, rest) => .ok (item :: items, ⟨rest, Nat.lt_trans rest.2 middle.2⟩)
termination_by (tokens.length, 1)
decreasing_by
  · exact Prod.Lex.right _ Nat.zero_lt_one
  · exact Prod.Lex.left _ _ middle.2

end

/-- Reads on, inside `opened`, after a complete tree. -/
def resume (opened : List (List Sexp)) (tree : Sexp) (rest : List Token) :
    Except ReadFault (Sexp × List Token) :=
  match opened with
  | [] => .ok (tree, rest)
  | items :: outer => readTree ((tree :: items) :: outer) rest

theorem readTree_rightParen (items : List Sexp) (outer : List (List Sexp)) (rest : List Token) :
    readTree (items :: outer) (.rightParen :: rest) =
      resume outer (.expression items.reverse) rest := by
  cases outer <;> rfl

mutual

/-- The reader goes on after a tree as the caller of `descend` would. A closing parenthesis is the
one token after which it does not read a tree, unless nothing is open. -/
theorem readTree_descend (opened : List (List Sexp)) (tokens : List Token)
    (hclose : ∀ rest, tokens = .rightParen :: rest → opened = []) :
    readTree opened tokens =
      (descend opened.length tokens).bind fun p => resume opened p.1 p.2 := by
  match tokens with
  | [] =>
    rw [descend]
    rfl
  | .leftParen :: tokens =>
    rw [readTree, descend]
    by_cases h : opened.length < maxNesting
    · rw [if_pos h, if_pos h, readTree_descendItems [] opened tokens]
      cases descendItems (opened.length + 1) tokens with
      | error fault => rfl
      | ok p => rfl
    · rw [if_neg h, if_neg h]
      rfl
  | .rightParen :: tokens =>
    rw [hclose tokens rfl, descend]
    rfl
  | .quoted text :: tokens =>
    rw [descend]
    · cases opened <;> rfl
    · exact Token.noConfusion
    · exact Token.noConfusion
  | .literal text :: tokens =>
    rw [descend]
    · cases opened <;> rfl
    · exact Token.noConfusion
    · exact Token.noConfusion
termination_by (tokens.length, 0)

/-- The reader goes on after the items of an expression as the caller of `descendItems` would. -/
theorem readTree_descendItems (items : List Sexp) (outer : List (List Sexp))
    (tokens : List Token) :
    readTree (items :: outer) tokens =
      (descendItems (outer.length + 1) tokens).bind fun p =>
        resume outer (.expression (items.reverse ++ p.1)) p.2 := by
  match tokens with
  | [] =>
    rw [descendItems]
    rfl
  | token :: tokens =>
    by_cases h : token = .rightParen
    · rw [h, readTree_rightParen, descendItems]
      simp only [Except.bind, List.append_nil]
    · have htree := readTree_descend (items :: outer) (token :: tokens)
        fun rest heq => absurd (List.cons.inj heq).1 h
      rw [htree, descendItems, List.length_cons]
      · cases descend (outer.length + 1) (token :: tokens) with
        | error fault => rfl
        | ok p =>
          obtain ⟨item, middle⟩ := p
          have hnext := readTree_descendItems (item :: items) outer middle
          simp only [List.reverse_cons, List.append_assoc, List.singleton_append] at hnext
          refine hnext.trans ?_
          cases hrest : descendItems (outer.length + 1) middle.1 with
          | error fault => simp only [Except.bind, hrest]
          | ok q => simp only [Except.bind, hrest]
      · exact h
termination_by (tokens.length, 1)
decreasing_by
  · exact Prod.Lex.right _ Nat.zero_lt_one
  · exact Prod.Lex.left _ _ middle.2

end

theorem readTree_nil (tokens : List Token) :
    readTree [] tokens = (descend 0 tokens).map fun p => (p.1, p.2.1) := by
  rw [readTree_descend [] tokens fun _ _ => rfl]
  cases descend 0 tokens <;> rfl

/-- The tree of a program, read by descent. -/
def descendProgram (tokens : List Token) : Except ReadFault Sexp :=
  match descend 0 tokens with
  | .error fault => .error fault
  | .ok (tree, ⟨[], _⟩) => .ok tree
  | .ok (_, ⟨token :: _, _⟩) => .error (.leftover token.text)

/-- **Reading by descent** is what the reader does. -/
theorem Sexp.ofTokens_eq_descendProgram (tokens : List Token) :
    Sexp.ofTokens tokens = descendProgram tokens := by
  unfold Sexp.ofTokens descendProgram
  simp only [bind, Except.bind, readTree_nil]
  cases descend 0 tokens with
  | error fault => rfl
  | ok p =>
    obtain ⟨tree, rest, hrest⟩ := p
    cases rest <;> rfl

end MiniLisp
