import Mathlib.Data.List.Basic
import Mathlib.Data.List.TakeWhile
import MiniLisp.Proofs.Token.Spelling

/-!
# Longest matches

What the lexer recognizes can be told without the way it goes through a text. A lexeme is a run of
blanks or the spelling of a token. At each place of a text the longest lexeme that begins there is
cut off, a token is made of it unless it is a run of blanks, and the scan goes on after it; where no
lexeme begins, the scan is stuck (`Scanned`). The lexer does nothing else (`tokenize_scanned`).

Which lexeme is the longest is decided by the first character, and only a quote without a second one
begins none (`exists_longest`). The lexer is between two tokens wherever a longest lexeme ends, or
might as well be (`Lexer.finish_flushed`), so that one lemma about a lexeme (`Lexer.finish_lexeme`)
is all that ties the pass over the characters to the scan.
-/

namespace MiniLisp

/-- Characters that belong together and the token that is made of them, which is none for a run of
blanks. -/
inductive Lexeme : List Char → Option Token → Prop
  | blanks {gap : List Char} (hne : gap ≠ []) (h : ∀ c ∈ gap, isBlank c) : Lexeme gap none
  | leftParen : Lexeme ['('] (some .leftParen)
  | rightParen : Lexeme [')'] (some .rightParen)
  | quoted {text : List Char} (h : '\'' ∉ text) :
    Lexeme ('\'' :: (text ++ ['\''])) (some (.quoted (String.ofList text)))
  | literal {text : List Char} (hne : text ≠ []) (h : ∀ c ∈ text, isPlain c) :
    Lexeme text (some (.literal (String.ofList text)))

/-- The longest lexeme at the start of a text, and what comes after it. -/
structure Longest (text lexeme rest : List Char) (token? : Option Token) : Prop where
  cut : text = lexeme ++ rest
  matched : Lexeme lexeme token?
  longest : ∀ {other after other?}, text = other ++ after → Lexeme other other? →
    other.length ≤ lexeme.length

/-- Cutting a text that begins at an offset into longest lexemes comes to this result. -/
inductive Scanned : Nat → List Char → Except ReadFault (List Token) → Prop
  | done (offset : Nat) : Scanned offset [] (.ok [])
  | next {offset text lexeme rest token? result} (h : Longest text lexeme rest token?)
    (hrest : Scanned (offset + (String.ofList lexeme).utf8ByteSize) rest result) :
    Scanned offset text (result.map (token?.toList ++ ·))
  | stuck {offset text} (hne : text ≠ [])
    (h : ∀ lexeme rest token?, text = lexeme ++ rest → ¬ Lexeme lexeme token?) :
    Scanned offset text (.error (.unclosedQuote offset))

/-! ## Lexemes -/

theorem isPlain_iff {c : Char} :
    isPlain c ↔ c ≠ '\'' ∧ c ≠ '(' ∧ c ≠ ')' ∧ isBlank c = false := by
  simp [isPlain]

theorem isPlain_of_isBlank {c : Char} (h : isBlank c) : isPlain c = false := by
  simp [isPlain, h]

theorem Lexeme.ne_nil {text : List Char} {token? : Option Token} (h : Lexeme text token?) :
    text ≠ [] := by
  cases h with
  | blanks hne _ => exact hne
  | literal hne _ => exact hne
  | _ => exact List.cons_ne_nil _ _

/-- A run of characters of one sort at the start of a text is part of the longest such run. -/
theorem length_le_takeWhile {p : Char → Bool} {text other after : List Char}
    (h : text = other ++ after) (hother : ∀ c ∈ other, p c) :
    other.length ≤ (text.takeWhile p).length := by
  rw [h, List.takeWhile_append_of_pos hother, List.length_append]
  exact Nat.le_add_right _ _

theorem takeWhile_cons_ne_nil {p : Char → Bool} {c : Char} (hc : p c) (text : List Char) :
    (c :: text).takeWhile p ≠ [] := by
  rw [List.takeWhile_cons_of_pos hc]
  exact List.cons_ne_nil _ _

section FirstCharacter

variable {c : Char} {text : List Char}

/-- What holds throughout a run of characters at the start of a text holds of the first one. -/
theorem first_of_run {P : Char → Prop} {other after : List Char}
    (h : c :: text = other ++ after) (hne : other ≠ []) (hother : ∀ d ∈ other, P d) : P c := by
  obtain ⟨d, other, rfl⟩ := List.exists_cons_of_ne_nil hne
  obtain rfl := (List.cons.inj h).1
  exact hother c List.mem_cons_self

theorem longest_blanks (hc : isBlank c) :
    Longest (c :: text) ((c :: text).takeWhile isBlank) ((c :: text).dropWhile isBlank) none where
  cut := List.takeWhile_append_dropWhile.symm
  matched := .blanks (takeWhile_cons_ne_nil hc text) fun _ hd => List.mem_takeWhile_imp hd
  longest {other after _} h hother := by
    have hplain := isPlain_of_isBlank hc
    cases hother with
    | blanks hne hblank => exact length_le_takeWhile h hblank
    | literal hne hall =>
      rw [first_of_run h hne hall] at hplain
      cases hplain
    | _ =>
      obtain rfl := (List.cons.inj h).1
      exact absurd hc (by decide)

theorem longest_literal (hc : isPlain c) :
    Longest (c :: text) ((c :: text).takeWhile isPlain) ((c :: text).dropWhile isPlain)
      (some (.literal (String.ofList ((c :: text).takeWhile isPlain)))) where
  cut := List.takeWhile_append_dropWhile.symm
  matched := .literal (takeWhile_cons_ne_nil hc text) fun _ hd => List.mem_takeWhile_imp hd
  longest {other after _} h hother := by
    cases hother with
    | literal hne hplain => exact length_le_takeWhile h hplain
    | blanks hne hall =>
      rw [isPlain_of_isBlank (first_of_run h hne hall)] at hc
      cases hc
    | _ =>
      obtain rfl := (List.cons.inj h).1
      exact absurd hc (by decide)

/-- A lexeme that begins with a parenthesis or a quote. -/
theorem Lexeme.of_delimiter {other after : List Char} {other? : Option Token}
    (h : c :: text = other ++ after) (hother : Lexeme other other?) (hblank : isBlank c = false)
    (hplain : isPlain c = false) :
    (c = '(' ∨ c = ')') ∧ other.length = 1 ∨
      ∃ body, c = '\'' ∧ other = '\'' :: (body ++ ['\'']) ∧ '\'' ∉ body := by
  cases hother with
  | blanks hne hall =>
    rw [first_of_run h hne hall] at hblank
    cases hblank
  | literal hne hall =>
    rw [first_of_run h hne hall] at hplain
    cases hplain
  | leftParen => exact .inl ⟨.inl (List.cons.inj h).1, rfl⟩
  | rightParen => exact .inl ⟨.inr (List.cons.inj h).1, rfl⟩
  | quoted hbody => exact .inr ⟨_, (List.cons.inj h).1, rfl, hbody⟩

theorem longest_paren {token : Token} (hc : c = '(' ∨ c = ')')
    (hmatched : Lexeme [c] (some token)) : Longest (c :: text) [c] text (some token) where
  cut := rfl
  matched := hmatched
  longest h hother := by
    have hdelimiter : isBlank c = false ∧ isPlain c = false ∧ c ≠ '\'' := by
      rcases hc with rfl | rfl
      · decide
      · decide
    obtain ⟨hblank, hplain, hquote⟩ := hdelimiter
    rcases hother.of_delimiter h hblank hplain with ⟨-, hlength⟩ | ⟨body, hc, -⟩
    · exact Nat.le_of_eq hlength
    · exact absurd hc hquote

theorem longest_quoted {body : List Char} (hbody : '\'' ∉ body) :
    Longest ('\'' :: (body ++ '\'' :: text)) ('\'' :: (body ++ ['\''])) text
      (some (.quoted (String.ofList body))) where
  cut := by simp
  matched := .quoted hbody
  longest {other after _} h hother := by
    rcases hother.of_delimiter h (by decide) (by decide) with ⟨hc, -⟩ | ⟨inner, -, rfl, hinner⟩
    · exact absurd hc (by decide)
    · -- both bodies reach to the first quote
      have hcut : body ++ '\'' :: text = inner ++ '\'' :: after := by simpa using h
      have hpass : ∀ {l : List Char}, '\'' ∉ l → ∀ d ∈ l, (d != '\'') = true := fun hl d hd =>
        bne_iff_ne.2 fun heq => hl (heq ▸ hd)
      have hle := length_le_takeWhile hcut (hpass hinner)
      rw [List.takeWhile_append_of_pos (hpass hbody), List.takeWhile_cons_of_neg (by decide),
        List.append_nil] at hle
      simpa using hle

/-- A quote without a second one begins no lexeme. -/
theorem not_lexeme_of_open_quote (htext : '\'' ∉ text) {lexeme rest : List Char}
    {token? : Option Token} (h : '\'' :: text = lexeme ++ rest) : ¬ Lexeme lexeme token? := by
  intro hlexeme
  rcases hlexeme.of_delimiter h (by decide) (by decide) with ⟨hc, -⟩ | ⟨body, -, rfl, -⟩
  · exact absurd hc (by decide)
  · refine htext ?_
    rw [(List.cons.inj h).2]
    simp

/-- At every character a longest lexeme begins, unless the character is a quote without a second
one. -/
theorem exists_longest (c : Char) (text : List Char) :
    (∃ lexeme rest token?, Longest (c :: text) lexeme rest token?) ∨ c = '\'' ∧ '\'' ∉ text := by
  by_cases hblank : isBlank c
  · exact .inl ⟨_, _, _, longest_blanks hblank⟩
  by_cases hplain : isPlain c
  · exact .inl ⟨_, _, _, longest_literal hplain⟩
  by_cases hleft : c = '('
  · subst hleft
    exact .inl ⟨_, _, _, longest_paren (.inl rfl) .leftParen⟩
  by_cases hright : c = ')'
  · subst hright
    exact .inl ⟨_, _, _, longest_paren (.inr rfl) .rightParen⟩
  have hquote : c = '\'' := by
    rw [isPlain_iff] at hplain
    by_contra hquote
    exact hplain ⟨hquote, hleft, hright, Bool.eq_false_iff.2 hblank⟩
  by_cases htext : '\'' ∈ text
  · obtain ⟨body, rest, rfl, hbody⟩ := List.eq_append_cons_of_mem htext
    subst hquote
    exact .inl ⟨_, _, _, longest_quoted hbody⟩
  · exact .inr ⟨hquote, htext⟩

end FirstCharacter

/-- A longest literal is not followed by a character that could belong to it. -/
theorem Longest.not_plain {text lexeme rest : List Char} {name : String}
    (h : Longest text lexeme rest (some (.literal name))) {c : Char} {more : List Char}
    (hrest : rest = c :: more) : isPlain c = false := by
  rw [Bool.eq_false_iff]
  intro hc
  have hmatched := h.matched
  generalize htoken : some (Token.literal name) = token? at hmatched
  cases hmatched with
  | literal hne hplain =>
    have hcut : text = (lexeme ++ [c]) ++ more := by
      rw [h.cut, hrest, List.append_assoc, List.singleton_append]
    have hlonger : Lexeme (lexeme ++ [c]) _ := .literal (by simp) fun d hd => by
      rcases List.mem_append.1 hd with hd | hd
      · exact hplain d hd
      · obtain rfl := List.mem_singleton.1 hd
        exact hc
    have hle := h.longest hcut hlonger
    rw [List.length_append, List.length_singleton] at hle
    omega
  | _ => cases htoken

/-! ## The lexer -/

namespace Lexer

/-- The lexer after the literal that it is in the middle of, if it is, has been ended. -/
def flushed (l : Lexer) : Lexer :=
  match l.pending with
  | .plain reversed => ⟨endLiteral reversed l.tokens, .plain [], l.offset⟩
  | .quoted _ _ => l

theorem step_flushed (l : Lexer) {c : Char} (hc : isPlain c = false) :
    l.flushed.step c = l.step c := by
  obtain ⟨tokens, pending, offset⟩ := l
  cases pending with
  | quoted start reversed => rfl
  | plain reversed =>
    rw [step_of_plain (l := flushed _) rfl, step_of_plain (l := ⟨tokens, _, offset⟩) rfl]
    by_cases hquote : c = '\''
    · rw [if_pos hquote, if_pos hquote]; rfl
    rw [if_neg hquote, if_neg hquote]
    by_cases hleft : c = '('
    · rw [if_pos hleft, if_pos hleft]; rfl
    rw [if_neg hleft, if_neg hleft]
    by_cases hright : c = ')'
    · rw [if_pos hright, if_pos hright]; rfl
    rw [if_neg hright, if_neg hright]
    have hblank : isBlank c := by
      by_contra hblank
      rw [isPlain_iff.2 ⟨hquote, hleft, hright, Bool.eq_false_iff.2 hblank⟩] at hc
      cases hc
    rw [if_pos hblank, if_pos hblank]
    rfl

/-- A literal may be ended early where no character of a literal follows. -/
theorem finish_flushed (l : Lexer) {rest : List Char}
    (hrest : ∀ c more, rest = c :: more → isPlain c = false) :
    (rest.foldl step l.flushed).finish = (rest.foldl step l).finish := by
  cases rest with
  | nil =>
    obtain ⟨tokens, pending, offset⟩ := l
    cases pending <;> rfl
  | cons c more => rw [List.foldl_cons, List.foldl_cons, step_flushed l (hrest c more rfl)]

theorem offset_step (l : Lexer) (c : Char) : (l.step c).offset = l.offset + c.utf8Size := by
  cases hl : l.pending with
  | quoted start reversed =>
    rw [step_of_quoted hl]
    split <;> rfl
  | plain reversed =>
    rw [step_of_plain hl]
    repeat' split
    all_goals rfl

theorem offset_foldl (l : Lexer) (text : List Char) :
    (text.foldl step l).offset = l.offset + (String.ofList text).utf8ByteSize := by
  induction text generalizing l with
  | nil => rfl
  | cons c text ih =>
    have hcons : String.ofList (c :: text) = String.singleton c ++ String.ofList text := by
      rw [String.singleton_eq_ofList, ← String.ofList_append]
      rfl
    rw [List.foldl_cons, ih, offset_step, hcons, String.utf8ByteSize_append,
      String.utf8ByteSize_singleton, Nat.add_assoc]

theorem foldl_blanks {gap : List Char} (h : ∀ c ∈ gap, isBlank c) {l : Lexer}
    (hl : l.pending = .plain []) :
    (gap.foldl step l).pending = .plain [] ∧ (gap.foldl step l).tokens = l.tokens := by
  induction gap generalizing l with
  | nil => exact ⟨hl, rfl⟩
  | cons c gap ih =>
    have hc := h c List.mem_cons_self
    have hplain := isPlain_of_isBlank hc
    have hstep : (l.step c).pending = .plain [] ∧ (l.step c).tokens = l.tokens := by
      have hne : ∀ d, isBlank d = false → c ≠ d := by
        rintro d hd rfl
        rw [hc] at hd
        cases hd
      rw [step_of_plain hl, if_neg (hne _ (by decide)), if_neg (hne _ (by decide)),
        if_neg (hne _ (by decide)), if_pos hc]
      exact ⟨rfl, rfl⟩
    obtain ⟨hpending, htokens⟩ := ih (fun d hd => h d (List.mem_cons_of_mem _ hd)) hstep.1
    exact ⟨hpending, htokens.trans hstep.2⟩

/-- The lexer after a lexeme: in the middle of a literal, if the lexeme is one, and otherwise
between two tokens. -/
theorem foldl_lexeme {lexeme : List Char} {token? : Option Token} (h : Lexeme lexeme token?)
    {l : Lexer} (hl : l.pending = .plain []) :
    ∃ reversed, (lexeme.foldl step l).pending = .plain reversed ∧
      endLiteral reversed (lexeme.foldl step l).tokens = token?.toList ++ l.tokens ∧
      (reversed = [] ∨ ∃ name, token? = some (.literal name)) := by
  cases h with
  | blanks hne h =>
    obtain ⟨hpending, htokens⟩ := foldl_blanks h hl
    exact ⟨[], hpending, htokens, .inl rfl⟩
  | leftParen =>
    rw [List.foldl_cons, List.foldl_nil, step_of_plain hl]
    exact ⟨[], rfl, rfl, .inl rfl⟩
  | rightParen =>
    rw [List.foldl_cons, List.foldl_nil, step_of_plain hl]
    exact ⟨[], rfl, rfl, .inl rfl⟩
  | @quoted text h =>
    have hopen : (l.step '\'').pending = .quoted l.offset [] ∧ (l.step '\'').tokens = l.tokens := by
      rw [step_of_plain hl]
      exact ⟨rfl, rfl⟩
    obtain ⟨hpending, htokens⟩ := foldl_quoted h hopen.1
    rw [List.foldl_cons, List.foldl_append, List.foldl_cons, List.foldl_nil,
      step_of_quoted hpending, if_pos rfl, htokens, hopen.2, List.append_nil, List.reverse_reverse]
    exact ⟨[], rfl, rfl, .inl rfl⟩
  | literal hne h =>
    obtain ⟨hpending, htokens⟩ := foldl_plain h hl
    rw [List.append_nil] at hpending
    refine ⟨lexeme.reverse, hpending, ?_, .inr ⟨_, rfl⟩⟩
    have hreverse : lexeme.reverse.isEmpty = false := by simpa using hne
    rw [endLiteral, hreverse, List.reverse_reverse, htokens]
    rfl

/-- **The lexer goes through a lexeme** that the text after it does not prolong, adds its token and
goes on afresh. -/
theorem finish_lexeme {lexeme rest : List Char} {token? : Option Token} (h : Lexeme lexeme token?)
    (hrest : ∀ name, token? = some (.literal name) →
      ∀ c more, rest = c :: more → isPlain c = false) (tokens : List Token) (offset : Nat) :
    ((lexeme ++ rest).foldl step ⟨tokens, .plain [], offset⟩).finish =
      (rest.foldl step ⟨token?.toList ++ tokens, .plain [],
        offset + (String.ofList lexeme).utf8ByteSize⟩).finish := by
  have hoffset := offset_foldl ⟨tokens, .plain [], offset⟩ lexeme
  obtain ⟨reversed, hpending, htokens, hliteral⟩ := foldl_lexeme h (l := ⟨tokens, _, offset⟩) rfl
  rw [List.foldl_append]
  generalize lexeme.foldl step ⟨tokens, .plain [], offset⟩ = l at hoffset hpending htokens ⊢
  have hflushed : l.flushed = ⟨token?.toList ++ tokens, .plain [],
      offset + (String.ofList lexeme).utf8ByteSize⟩ := by
    rw [flushed, hpending]
    dsimp only
    rw [htokens, hoffset]
  rw [← hflushed]
  rcases hliteral with rfl | ⟨name, hname⟩
  · obtain ⟨before, pending, after⟩ := l
    cases hpending
    rfl
  · exact (finish_flushed l (hrest name hname)).symm

end Lexer

/-- The lexer between two tokens comes to what cutting the rest of the text into longest lexemes
comes to. -/
theorem exists_scanned (text : List Char) (offset : Nat) :
    ∃ result, Scanned offset text result ∧ ∀ tokens,
      (text.foldl Lexer.step ⟨tokens, .plain [], offset⟩).finish =
        result.map (tokens.reverse ++ ·) := by
  -- on the length, as what a lexeme leaves is no tail that the list shows
  induction hn : text.length using Nat.strongRecOn generalizing text offset with
  | _ n ih =>
    subst hn
    cases text with
    | nil =>
      refine ⟨_, .done offset, fun tokens => ?_⟩
      simp [Lexer.finish, Lexer.endLiteral, Except.map]
    | cons c text =>
      rcases exists_longest c text with ⟨lexeme, rest, token?, h⟩ | ⟨rfl, hopen⟩
      · have hshorter : rest.length < (c :: text).length := by
          have := List.length_pos_iff.2 h.matched.ne_nil
          rw [h.cut, List.length_append]
          omega
        obtain ⟨result, hscanned, hfinish⟩ := ih _ hshorter rest
          (offset + (String.ofList lexeme).utf8ByteSize) rfl
        refine ⟨_, .next h hscanned, fun tokens => ?_⟩
        have hrest : ∀ name, token? = some (.literal name) →
            ∀ d more, rest = d :: more → isPlain d = false := by
          rintro name rfl d more hd
          exact h.not_plain hd
        rw [h.cut, Lexer.finish_lexeme h.matched hrest, hfinish]
        cases result with
        | error fault => rfl
        | ok others => cases token? <;> simp [Except.map]
      · refine ⟨_, .stuck (List.cons_ne_nil _ _) fun lexeme rest token? hcut =>
          not_lexeme_of_open_quote hopen hcut, fun tokens => ?_⟩
        have hquoted : (Lexer.step ⟨tokens, .plain [], offset⟩ '\'').pending = .quoted offset [] := rfl
        obtain ⟨hpending, -⟩ := Lexer.foldl_quoted hopen hquoted
        rw [List.foldl_cons, Lexer.finish, hpending]
        rfl

/-- **The lexer cuts off longest matches.** -/
theorem tokenize_scanned (source : String) : Scanned 0 source.toList (tokenize source) := by
  obtain ⟨result, hscanned, hfinish⟩ := exists_scanned source.toList 0
  have htokenize : tokenize source = result := by
    rw [tokenize, Lexer.start, hfinish]
    cases result <;> rfl
  rw [htokenize]
  exact hscanned

end MiniLisp
