import MiniLisp.Proofs.Reader.Marks

/-!
# Reading is counting

Whether some tokens are a program, and what is wrong with them otherwise, is found by a scan from
left to right that keeps nothing but the count of open parentheses (`Scan.verdict`). The reader,
which keeps the open expressions themselves, agrees with it in every case and down to the wording
(`Sexp.ofTokens_verdict`). `parse_verdict` puts this together with what the reader makes of the
tokens when it succeeds.
-/

namespace MiniLisp

namespace Scan

/-- Goes on while parentheses are open, and gives the tokens after the one that closes the last of
them. -/
def inside : (count : Nat) → List Token → Except String (List Token)
  | 0, rest => .ok rest
  | _ + 1, [] => .error "unbalanced parentheses or empty program"
  | count + 1, .leftParen :: rest =>
    if count + 1 = 1024 then .error "expression too deeply nested (max depth: 1024)"
    else inside (count + 2) rest
  | count + 1, .rightParen :: rest => inside count rest
  | count + 1, _ :: rest => inside (count + 1) rest

theorem inside_zero (rest : List Token) : inside 0 rest = .ok rest := by
  cases rest <;> rfl

/-- Finds the end of the program, and gives the tokens after it. -/
def program : List Token → Except String (List Token)
  | [] => .error "unbalanced parentheses or empty program"
  | .rightParen :: _ => .error "unexpected close paren"
  | .leftParen :: rest => inside 1 rest
  | _ :: rest => .ok rest

/-- What is wrong with some tokens, if they are not a program. -/
def verdict (tokens : List Token) : Except String Unit :=
  match program tokens with
  | .error message => .error message
  | .ok [] => .ok ()
  | .ok (token :: _) => .error s!"unexpected {token.text} after the end of the program"

end Scan

theorem Scan.inside_leaf {token : Token} {v : Value} (h : token.mark = .leaf v) (count : Nat)
    (rest : List Token) :
    Scan.inside (count + 1) (token :: rest) = Scan.inside (count + 1) rest := by
  cases token with
  | leftParen => cases h
  | rightParen => cases h
  | quoted text => rfl
  | literal text => rfl

theorem Scan.program_leaf {token : Token} {v : Value} (h : token.mark = .leaf v)
    (rest : List Token) : Scan.program (token :: rest) = .ok rest := by
  cases token with
  | leftParen => cases h
  | rightParen => cases h
  | quoted text => rfl
  | literal text => rfl

theorem Scan.verdict_eq_ok_iff {tokens : List Token} :
    Scan.verdict tokens = .ok () ↔ Scan.program tokens = .ok [] := by
  unfold Scan.verdict
  generalize Scan.program tokens = r
  cases r with
  | error message => exact ⟨fun h => by (cases h), fun h => by (cases h)⟩
  | ok rest =>
    cases rest with
    | nil => exact ⟨fun _ => rfl, fun _ => rfl⟩
    | cons token rest => exact ⟨fun h => by (cases h), fun h => by (cases h)⟩

/-! ## The reader agrees -/

/-- Replaces a fault by its wording. -/
def worded (r : Except ReadFault α) : Except String α :=
  r.mapError ReadFault.message

theorem message_tooDeep :
    ReadFault.tooDeep.message = "expression too deeply nested (max depth: 1024)" := by
  decide

/-- The reader and the scan come to the same end once parentheses are open. -/
theorem worded_readTree {opened : List (List Sexp)} {tokens : List Token} (hopen : opened ≠ [])
    (hdepth : opened.length ≤ 1024) :
    worded ((readTree opened tokens).map Prod.snd) = Scan.inside opened.length tokens := by
  -- each token adds an open expression, ends one, or leaves their number as it is
  induction tokens generalizing opened with
  | nil =>
    match opened with
    | items :: outer => rfl
  | cons token tokens ih =>
    match opened with
    | items :: outer =>
      cases token with
      | leftParen =>
        rw [List.length_cons, Scan.inside, readTree, List.length_cons]
        by_cases h : outer.length + 1 = 1024
        · rw [if_pos h, if_neg (by simp only [maxNesting]; omega)]
          exact congrArg Except.error message_tooDeep
        · have hlt : outer.length + 1 < 1024 := Nat.lt_of_le_of_ne hdepth h
          rw [if_neg h, if_pos (show outer.length + 1 < maxNesting from hlt)]
          exact ih (List.cons_ne_nil _ _) hlt
      | rightParen =>
        match outer with
        | [] => exact (Scan.inside_zero tokens).symm
        | parent :: outer =>
          rw [readTree]
          exact ih (List.cons_ne_nil _ _) (Nat.le_of_succ_le hdepth)
      | quoted text => exact ih (List.cons_ne_nil _ _) hdepth
      | literal text => exact ih (List.cons_ne_nil _ _) hdepth

theorem worded_readTree_nil (tokens : List Token) :
    worded ((readTree [] tokens).map Prod.snd) = Scan.program tokens := by
  cases tokens with
  | nil => rfl
  | cons token tokens =>
    cases token with
    | leftParen =>
      rw [readTree, if_pos (by decide)]
      exact worded_readTree (List.cons_ne_nil _ _) (by decide)
    | rightParen => rfl
    | quoted text => rfl
    | literal text => rfl

/-- **The reader agrees with the scan**, with its wording. -/
theorem Sexp.ofTokens_verdict (tokens : List Token) :
    worded ((Sexp.ofTokens tokens).map fun _ => ()) = Scan.verdict tokens := by
  have h := worded_readTree_nil tokens
  unfold Sexp.ofTokens Scan.verdict
  rw [← h]
  cases readTree [] tokens with
  | error fault => rfl
  | ok p =>
    obtain ⟨tree, rest⟩ := p
    cases rest with
    | nil => rfl
    | cons token rest => rfl

/-- Tokens are a program if the scan uses them up. -/
theorem Sexp.exists_ofTokens_iff {tokens : List Token} :
    (∃ tree, Sexp.ofTokens tokens = .ok tree) ↔ Scan.program tokens = .ok [] := by
  rw [← Scan.verdict_eq_ok_iff, ← Sexp.ofTokens_verdict]
  cases Sexp.ofTokens tokens with
  | ok tree => exact ⟨fun _ => rfl, fun _ => ⟨tree, rfl⟩⟩
  | error fault => exact ⟨fun h => by (obtain ⟨tree, h⟩ := h; cases h), fun h => by (cases h)⟩

theorem readTree_ne_unexpectedClose {opened : List (List Sexp)} {tokens : List Token}
    (hopen : opened ≠ []) : readTree opened tokens ≠ .error .unexpectedClose := by
  induction tokens generalizing opened with
  | nil => exact fun h => by cases h
  | cons token tokens ih =>
    match opened with
    | items :: outer =>
      cases token with
      | leftParen =>
        rw [readTree]
        split
        · exact ih (List.cons_ne_nil _ _)
        · exact fun h => by cases h
      | rightParen =>
        match outer with
        | [] => exact fun h => by cases h
        | parent :: outer => exact ih (List.cons_ne_nil _ _)
      | quoted text => exact ih (List.cons_ne_nil _ _)
      | literal text => exact ih (List.cons_ne_nil _ _)

theorem ofTokens_eq_unexpectedClose {tokens : List Token}
    (h : Sexp.ofTokens tokens = .error .unexpectedClose) :
    readTree [] tokens = .error .unexpectedClose := by
  unfold Sexp.ofTokens at h
  cases hr : readTree [] tokens with
  | error fault =>
    rw [hr] at h
    cases h
    rfl
  | ok p =>
    obtain ⟨tree, rest⟩ := p
    rw [hr] at h
    cases rest with
    | nil => cases h
    | cons token rest => cases h

/-- A closing parenthesis is unexpected at the start only. -/
theorem Sexp.ofTokens_eq_unexpectedClose_iff {tokens : List Token} :
    Sexp.ofTokens tokens = .error .unexpectedClose ↔ ∃ rest, tokens = .rightParen :: rest := by
  constructor
  · intro h
    have hr := ofTokens_eq_unexpectedClose h
    cases tokens with
    | nil => cases hr
    | cons token rest =>
      cases token with
      | leftParen =>
        rw [readTree, if_pos (by decide)] at hr
        exact absurd hr (readTree_ne_unexpectedClose (List.cons_ne_nil _ _))
      | rightParen => exact ⟨rest, rfl⟩
      | quoted text => cases hr
      | literal text => cases hr
  · rintro ⟨rest, rfl⟩
    rfl

/-! ## Programs -/

theorem parse_of_tokenize {source : String} {tokens : List Token}
    (h : tokenize source = .ok tokens) : parse source = Sexp.ofTokens tokens := by
  unfold parse
  rw [h]
  rfl

theorem exists_tokens_of_parse {source : String} {s : Sexp} (h : parse source = .ok s) :
    ∃ tokens, tokenize source = .ok tokens ∧ Sexp.ofTokens tokens = .ok s := by
  cases htokens : tokenize source with
  | ok tokens => exact ⟨tokens, rfl, (parse_of_tokenize htokens).symm.trans h⟩
  | error fault =>
    unfold parse at h
    rw [htokens] at h
    cases h

/-- **The reader accepts the bracket language.** Once a text has been cut into tokens, counting
decides whether it is a program and how its fault is worded, a closing parenthesis is unexpected
only as the first token, and the tree of a program is made of its tokens, each in its place. -/
theorem parse_verdict {source : String} {tokens : List Token}
    (h : tokenize source = .ok tokens) :
    worded ((parse source).map fun _ => ()) = Scan.verdict tokens ∧
      (parse source = .error .unexpectedClose ↔ ∃ rest, tokens = .rightParen :: rest) ∧
      ∀ tree, parse source = .ok tree → tree.marks = tokens.map Token.mark := by
  rw [parse_of_tokenize h]
  exact ⟨Sexp.ofTokens_verdict tokens, Sexp.ofTokens_eq_unexpectedClose_iff,
    fun tree htree => marks_of_ofTokens htree⟩

theorem parse_verdict_call :
    tokenize "(f 'a b')" = .ok [.leftParen, .literal "f", .quoted "a b", .rightParen] ∧
      worded ((parse "(f 'a b')").map fun _ => ()) = .ok () ∧
      parse "(f 'a b')" ≠ .error .unexpectedClose ∧
      ∀ tree, parse "(f 'a b')" = .ok tree →
        tree.marks = [.opening, .leaf (.ofLiteral "f"), .leaf (.string "a b"), .closing] := by
  have h : tokenize "(f 'a b')" = .ok [.leftParen, .literal "f", .quoted "a b", .rightParen] :=
    rfl
  obtain ⟨hscan, hclose, htree⟩ := parse_verdict h
  refine ⟨h, hscan.trans rfl, ?_, htree⟩
  rw [ne_eq, hclose]
  rintro ⟨rest, hrest⟩
  cases hrest

end MiniLisp
