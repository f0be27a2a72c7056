import Mathlib.Algebra.Ring.Parity
import Mathlib.Data.List.Chain
import MiniLisp.Proofs.Token.Lexeme

/-!
# Layouts of tokens

A layout puts tokens into a text: each token by its spelling, with blanks before, between and after
them as one likes, except that two literals do not stand side by side (`Layout`). The lexer finds
certain tokens in a text if and only if the text is a layout of them, and it fails if and only if
there is an odd number of quotes in the text, at the last of them (`tokenize_layout`).

That the tokens which are found are laid out in the text, and where the lexer fails, is read off the
scan by longest matches (`Scanned.exists_layout`, `Scanned.error_offset`). In the other direction
the lexer goes through a layout lexeme by lexeme (`Layout.tokenize_text`).
-/

namespace MiniLisp

def Token.isLiteral : Token → Bool
  | .literal _ => true
  | _ => false

/-- The characters of a token as it stands in a text. -/
def Token.spelling : Token → List Char
  | .leftParen => ['(']
  | .rightParen => [')']
  | .quoted text => '\'' :: (text.toList ++ ['\''])
  | .literal text => text.toList

/-- Tokens as they stand in a text: blanks before the first one, and each one followed by blanks,
of which there are some between two literals. -/
structure Layout where
  lead : List Char
  /-- The tokens, each with the blanks after it. -/
  parts : List (Token × List Char)
  lead_blank : ∀ c ∈ lead, isBlank c
  gaps_blank : ∀ part ∈ parts, ∀ c ∈ part.2, isBlank c
  spellable : ∀ part ∈ parts, part.1.Spellable
  apart : parts.IsChain fun part next => part.1.isLiteral → next.1.isLiteral → part.2 ≠ []

/-- The text that some tokens make with the blanks after each. -/
def charsOfParts (parts : List (Token × List Char)) : List Char :=
  parts.flatMap fun part => part.1.spelling ++ part.2

theorem charsOfParts_cons (part : Token × List Char) (others : List (Token × List Char)) :
    charsOfParts (part :: others) = part.1.spelling ++ (part.2 ++ charsOfParts others) := by
  rw [charsOfParts, List.flatMap_cons, List.append_assoc]
  rfl

namespace Layout

def tokens (l : Layout) : List Token :=
  l.parts.map Prod.fst

def chars (l : Layout) : List Char :=
  l.lead ++ charsOfParts l.parts

/-- The text that is laid out. -/
def text (l : Layout) : String :=
  String.ofList l.chars

end Layout

/-! ## The first character of a spelling -/

theorem Token.Spellable.lexeme {token : Token} (h : token.Spellable) :
    Lexeme token.spelling (some token) := by
  cases token with
  | leftParen => exact .leftParen
  | rightParen => exact .rightParen
  | quoted text =>
    have := Lexeme.quoted h
    rwa [String.ofList_toList] at this
  | literal text =>
    have := Lexeme.literal h.1 h.2
    rwa [String.ofList_toList] at this

/-- A token is a literal if its spelling begins with a character of literals. -/
theorem Token.Spellable.exists_head {token : Token} (h : token.Spellable) :
    ∃ c more, token.spelling = c :: more ∧ isPlain c = token.isLiteral := by
  cases token with
  | leftParen => exact ⟨'(', [], rfl, by decide⟩
  | rightParen => exact ⟨')', [], rfl, by decide⟩
  | quoted text => exact ⟨'\'', text.toList ++ ['\''], rfl, rfl⟩
  | literal text =>
    obtain ⟨c, more, htext⟩ := List.exists_cons_of_ne_nil h.1
    refine ⟨c, more, htext, ?_⟩
    exact h.2 c (htext ▸ List.mem_cons_self)

/-- Where a character of literals follows blanks and tokens, there are no blanks, and the first
token is a literal. -/
theorem head_charsOfParts {gap : List Char} {parts : List (Token × List Char)}
    (hgap : ∀ c ∈ gap, isBlank c) (hspellable : ∀ part ∈ parts, part.1.Spellable) {c : Char}
    {more : List Char} (h : gap ++ charsOfParts parts = c :: more) (hc : isPlain c) :
    gap = [] ∧ ∃ part others, parts = part :: others ∧ part.1.isLiteral := by
  cases gap with
  | cons d gap =>
    obtain rfl := (List.cons.inj h).1
    rw [isPlain_of_isBlank (hgap d List.mem_cons_self)] at hc
    cases hc
  | nil =>
    cases parts with
    | nil => cases h
    | cons part others =>
      obtain ⟨d, rest, hspelling, hd⟩ := (hspellable part List.mem_cons_self).exists_head
      have hhead : d :: (rest ++ (part.2 ++ charsOfParts others)) = c :: more := by
        rw [← h, List.nil_append, charsOfParts_cons, hspelling]
        simp
      obtain rfl := (List.cons.inj hhead).1
      exact ⟨rfl, part, others, rfl, hd ▸ hc⟩

/-! ## From the scan to a layout -/

namespace Layout

def empty : Layout where
  lead := []
  parts := []
  lead_blank := by simp
  gaps_blank := by simp
  spellable := by simp
  apart := .nil

/-- Puts blanks before a layout. -/
def indent (l : Layout) (gap : List Char) (hgap : ∀ c ∈ gap, isBlank c) : Layout :=
  { l with
    lead := gap ++ l.lead
    lead_blank := List.forall_mem_append.2 ⟨hgap, l.lead_blank⟩ }

/-- Puts a token before a layout, which begins with a blank if it has to. -/
def cons (l : Layout) (token : Token) (htoken : token.Spellable)
    (hsep : ∀ part ∈ l.parts.head?, token.isLiteral → part.1.isLiteral → l.lead ≠ []) : Layout where
  lead := []
  parts := (token, l.lead) :: l.parts
  lead_blank := by simp
  gaps_blank := List.forall_mem_cons.2 ⟨l.lead_blank, l.gaps_blank⟩
  spellable := List.forall_mem_cons.2 ⟨htoken, l.spellable⟩
  apart := List.isChain_cons.2 ⟨hsep, l.apart⟩

theorem chars_indent (l : Layout) {gap : List Char} (hgap : ∀ c ∈ gap, isBlank c) :
    (l.indent gap hgap).chars = gap ++ l.chars := by
  simp [chars, indent]

theorem chars_cons (l : Layout) {token : Token} (htoken : token.Spellable)
    (hsep : ∀ part ∈ l.parts.head?, token.isLiteral → part.1.isLiteral → l.lead ≠ []) :
    (l.cons token htoken hsep).chars = token.spelling ++ l.chars := by
  simp [chars, cons, charsOfParts]

end Layout

theorem Lexeme.spelling {lexeme : List Char} {token : Token} (h : Lexeme lexeme (some token)) :
    token.Spellable ∧ token.spelling = lexeme := by
  generalize htoken : some token = token? at h
  cases h with
  | blanks hne hblank => cases htoken
  | leftParen => cases htoken; exact ⟨True.intro, rfl⟩
  | rightParen => cases htoken; exact ⟨True.intro, rfl⟩
  | quoted h =>
    cases htoken
    refine ⟨?_, ?_⟩
    · rw [Token.Spellable, String.toList_ofList]
      exact h
    · rw [Token.spelling, String.toList_ofList]
  | literal hne h =>
    cases htoken
    refine ⟨?_, String.toList_ofList⟩
    rw [Token.Spellable, String.toList_ofList]
    exact ⟨hne, h⟩

/-- The text of a scan that comes to certain tokens is a layout of them. -/
theorem Scanned.exists_layout {offset : Nat} {text : List Char}
    {result : Except ReadFault (List Token)} (h : Scanned offset text result) {tokens : List Token}
    (hresult : result = .ok tokens) : ∃ l : Layout, l.chars = text ∧ l.tokens = tokens := by
  induction h generalizing tokens with
  | done offset =>
    cases hresult
    exact ⟨.empty, rfl, rfl⟩
  | stuck hne h => cases hresult
  | @next offset text lexeme rest token? result h hrest ih =>
    cases result with
    | error fault => cases hresult
    | ok others =>
      cases hresult
      obtain ⟨l, hchars, htokens⟩ := ih rfl
      cases token? with
      | none =>
        have hgap : ∀ c ∈ lexeme, isBlank c := by
          cases h.matched with
          | blanks hne hblank => exact hblank
        refine ⟨l.indent lexeme hgap, ?_, htokens⟩
        rw [l.chars_indent, hchars, h.cut]
      | some token =>
        obtain ⟨hspellable, hspelling⟩ := h.matched.spelling
        have hsep : ∀ part ∈ l.parts.head?, token.isLiteral → part.1.isLiteral → l.lead ≠ [] := by
          intro part hpart hliteral hnext hlead
          -- the next literal would prolong the first one
          obtain ⟨others, hparts⟩ := List.head?_eq_some_iff.1 hpart
          obtain ⟨c, more, hhead, hc⟩ := (l.spellable part (by simp [hparts])).exists_head
          rw [hnext] at hc
          cases token with
          | literal name =>
            have hrest : rest = c :: (more ++ (part.2 ++ charsOfParts others)) := by
              rw [← hchars, Layout.chars, hlead, hparts, charsOfParts_cons, hhead]
              simp
            rw [h.not_plain hrest] at hc
            cases hc
          | _ => cases hliteral
        refine ⟨l.cons token hspellable hsep, ?_, ?_⟩
        · rw [l.chars_cons, hchars, hspelling, h.cut]
        · exact congrArg (token :: ·) htokens

/-! ## Quotes -/

theorem count_quote_eq_zero {text : List Char} (h : ∀ c ∈ text, c ≠ '\'') :
    text.count '\'' = 0 :=
  List.count_eq_zero.2 fun hmem => h _ hmem rfl

/-- A lexeme has no quotes or two. -/
theorem Lexeme.even_count {lexeme : List Char} {token? : Option Token} (h : Lexeme lexeme token?) :
    Even (lexeme.count '\'') := by
  cases h with
  | blanks hne h =>
    have hquote : ∀ c ∈ lexeme, c ≠ '\'' := by
      rintro c hc rfl
      exact absurd (h _ hc) (by decide)
    rw [count_quote_eq_zero hquote]
    exact Even.zero
  | leftParen => decide
  | rightParen => decide
  | @quoted text h =>
    rw [List.count_cons_self, List.count_append, List.count_eq_zero.2 h]
    decide
  | literal hne h =>
    rw [count_quote_eq_zero fun c hc => (isPlain_iff.1 (h c hc)).1]
    exact Even.zero

/-- A text without a lexeme at its start begins with a quote, which is its only one. -/
theorem exists_of_no_lexeme {text : List Char} (hne : text ≠ [])
    (h : ∀ lexeme rest token?, text = lexeme ++ rest → ¬ Lexeme lexeme token?) :
    ∃ after, text = '\'' :: after ∧ '\'' ∉ after := by
  obtain ⟨c, after, rfl⟩ := List.exists_cons_of_ne_nil hne
  rcases exists_longest c after with ⟨lexeme, rest, token?, hlongest⟩ | ⟨rfl, hafter⟩
  · exact absurd hlongest.matched (h _ _ _ hlongest.cut)
  · exact ⟨after, rfl, hafter⟩

theorem Scanned.even_count {offset : Nat} {text : List Char}
    {result : Except ReadFault (List Token)} (h : Scanned offset text result) {tokens : List Token}
    (hresult : result = .ok tokens) : Even (text.count '\'') := by
  induction h generalizing tokens with
  | done offset => exact Even.zero
  | stuck hne h => cases hresult
  | @next offset text lexeme rest token? result h hrest ih =>
    cases result with
    | error fault => cases hresult
    | ok others =>
      rw [h.cut, List.count_append]
      exact h.matched.even_count.add (ih rfl)

/-- A scan that is stuck is stuck at the last quote of an odd number of them. -/
theorem Scanned.error_offset {offset : Nat} {text : List Char}
    {result : Except ReadFault (List Token)} (h : Scanned offset text result) {fault : ReadFault}
    (hresult : result = .error fault) :
    Odd (text.count '\'') ∧ ∃ before after, text = before ++ '\'' :: after ∧ '\'' ∉ after ∧
      fault = .unclosedQuote (offset + (String.ofList before).utf8ByteSize) := by
  induction h generalizing fault with
  | done offset => cases hresult
  | @stuck offset text hne h =>
    cases hresult
    obtain ⟨after, rfl, hafter⟩ := exists_of_no_lexeme hne h
    refine ⟨?_, [], after, rfl, hafter, rfl⟩
    rw [List.count_cons_self, List.count_eq_zero.2 hafter]
    decide
  | @next offset text lexeme rest token? result h hrest ih =>
    cases result with
    | ok others => cases hresult
    | error found =>
      cases hresult
      obtain ⟨hodd, before, after, hcut, hafter, hfault⟩ := ih rfl
      refine ⟨?_, lexeme ++ before, after, ?_, hafter, ?_⟩
      · rw [h.cut, List.count_append]
        exact h.matched.even_count.add_odd hodd
      · rw [h.cut, hcut, List.append_assoc]
      · rw [hfault, String.ofList_append, String.utf8ByteSize_append, Nat.add_assoc]

/-! ## From a layout to its tokens -/

theorem Lexer.finish_blanks {gap : List Char} (hgap : ∀ c ∈ gap, isBlank c) (rest : List Char)
    (tokens : List Token) (offset : Nat) :
    ∃ after, ((gap ++ rest).foldl step ⟨tokens, .plain [], offset⟩).finish =
      (rest.foldl step ⟨tokens, .plain [], after⟩).finish := by
  by_cases hne : gap = []
  · subst hne
    exact ⟨offset, rfl⟩
  · exact ⟨_, finish_lexeme (.blanks hne hgap) (fun name h => by cases h) tokens offset⟩

/-- The lexer finds the tokens of a layout, one after the other. -/
theorem Lexer.finish_charsOfParts {parts : List (Token × List Char)}
    (hgaps : ∀ part ∈ parts, ∀ c ∈ part.2, isBlank c)
    (hspellable : ∀ part ∈ parts, part.1.Spellable)
    (hapart : parts.IsChain fun part next =>
      part.1.isLiteral → next.1.isLiteral → part.2 ≠ []) (tokens : List Token) (offset : Nat) :
    ((charsOfParts parts).foldl step ⟨tokens, .plain [], offset⟩).finish =
      .ok (tokens.reverse ++ parts.map Prod.fst) := by
  induction parts generalizing tokens offset with
  | nil => simp [charsOfParts, finish, endLiteral]
  | cons part others ih =>
    rw [List.forall_mem_cons] at hgaps hspellable
    rw [List.isChain_cons] at hapart
    have hliteral : ∀ name, some part.1 = some (.literal name) →
        ∀ c more, part.2 ++ charsOfParts others = c :: more → isPlain c = false := by
      intro name hname c more hhead
      rw [Bool.eq_false_iff]
      intro hc
      obtain ⟨hgap, next, rest, rfl, hnext⟩ :=
        head_charsOfParts hgaps.1 hspellable.2 hhead hc
      have hpart : part.1.isLiteral := by
        rw [Option.some.inj hname]
        rfl
      exact hapart.1 next (by simp) hpart hnext hgap
    rw [charsOfParts_cons, finish_lexeme hspellable.1.lexeme hliteral]
    obtain ⟨after, hafter⟩ := finish_blanks hgaps.1 (charsOfParts others)
      ((some part.1).toList ++ tokens) (offset + (String.ofList part.1.spelling).utf8ByteSize)
    rw [hafter, ih hgaps.2 hspellable.2 hapart.2]
    simp

/-- **A layout is cut into its tokens.** -/
theorem Layout.tokenize_text (l : Layout) : tokenize l.text = .ok l.tokens := by
  obtain ⟨after, hafter⟩ := Lexer.finish_blanks l.lead_blank (charsOfParts l.parts) [] 0
  rw [tokenize, Layout.text, String.toList_ofList, Layout.chars, Lexer.start, hafter,
    Lexer.finish_charsOfParts l.gaps_blank l.spellable l.apart]
  rfl

/-! ## The lexer and layouts -/

/-- **The lexer inverts layouts.** It fails if and only if there is an odd number of quotes in a
text, at the byte where the last of them stands. Otherwise the tokens that it finds are those of
which the text is a layout. -/
theorem tokenize_layout (source : String) :
    ((∃ fault, tokenize source = .error fault) ↔ Odd (source.toList.count '\'')) ∧
      (∀ fault, tokenize source = .error fault → ∃ before after,
        source = before ++ "'" ++ after ∧ '\'' ∉ after.toList ∧
          fault = .unclosedQuote before.utf8ByteSize) ∧
      ∀ tokens, tokenize source = .ok tokens ↔ ∃ l : Layout, l.text = source ∧ l.tokens = tokens := by
  have hscanned := tokenize_scanned source
  refine ⟨⟨?_, fun hodd => ?_⟩, ?_, fun tokens => ⟨fun h => ?_, ?_⟩⟩
  · rintro ⟨fault, h⟩
    exact (hscanned.error_offset h).1
  · cases h : tokenize source with
    | error fault => exact ⟨fault, rfl⟩
    | ok tokens => exact absurd (hscanned.even_count h) (Nat.not_even_iff_odd.2 hodd)
  · intro fault h
    obtain ⟨-, before, after, hcut, hafter, hfault⟩ := hscanned.error_offset h
    refine ⟨String.ofList before, String.ofList after, ?_, ?_, ?_⟩
    · have hquote : '\'' :: after = ['\''] ++ after := rfl
      rw [← String.ofList_toList (s := source), hcut, hquote, String.ofList_append,
        String.ofList_append, ← String.append_assoc]
    · rwa [String.toList_ofList]
    · rw [hfault, Nat.zero_add]
  · obtain ⟨l, hchars, htokens⟩ := hscanned.exists_layout h
    exact ⟨l, by rw [Layout.text, hchars, String.ofList_toList], htokens⟩
  · rintro ⟨l, rfl, rfl⟩
    exact l.tokenize_text

/-- Offsets are counted in bytes: the closed string takes up four of them. -/
example : tokenize "'é' 'x" = .error (.unclosedQuote 5) := rfl

end MiniLisp
