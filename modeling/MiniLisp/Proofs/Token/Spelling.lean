import MiniLisp.Token.Lexer

/-!
# How tokens are spelled

The lexer makes tokens of two sorts of text only: a quoted one holds no quote, and a literal is a
run of plain characters (`tokenize_spellable`). In the other direction, such tokens can be spelled:
`Spells` says that the lexer finds certain tokens in a text, whatever comes before it and whatever
may end a literal after it, and is closed under putting texts side by side with a space between
them and under putting parentheses around one.
-/

namespace MiniLisp

/-- A character that a literal can contain. -/
def isPlain (c : Char) : Bool :=
  c ≠ '\'' ∧ c ≠ '(' ∧ c ≠ ')' ∧ isBlank c = false

theorem isPlain_of_isDigit {c : Char} (h : c.isDigit) : isPlain c := by
  have hrange : 48 ≤ c.toNat ∧ c.toNat ≤ 57 := by
    simp only [Char.isDigit, Bool.and_eq_true, decide_eq_true_eq] at h
    exact ⟨UInt32.le_iff_toNat_le.1 h.1, UInt32.le_iff_toNat_le.1 h.2⟩
  have hblank : isBlank c = false := by
    rw [Bool.eq_false_iff]
    intro hblank
    simp only [isBlank, Bool.or_eq_true, Bool.and_eq_true, decide_eq_true_eq,
      beq_iff_eq] at hblank
    omega
  have hne : ∀ d : Char, d.toNat < 48 → c ≠ d := by
    rintro d hd rfl
    omega
  simp [isPlain, hblank, hne]

/-- A token that has a spelling. -/
def Token.Spellable : Token → Prop
  | .leftParen => True
  | .rightParen => True
  | .quoted text => '\'' ∉ text.toList
  | .literal text => text.toList ≠ [] ∧ ∀ c ∈ text.toList, isPlain c

/-! ## Tokens that the lexer makes -/

namespace Lexer

/-- A lexer whose tokens can be spelled, and whose pending one so far. -/
structure Sound (l : Lexer) : Prop where
  tokens : ∀ t ∈ l.tokens, t.Spellable
  plain : ∀ {reversed}, l.pending = .plain reversed → ∀ c ∈ reversed, isPlain c
  quoted : ∀ {start reversed}, l.pending = .quoted start reversed → '\'' ∉ reversed

theorem step_of_quoted {l : Lexer} {start : Nat} {reversed : List Char}
    (h : l.pending = .quoted start reversed) (c : Char) :
    l.step c =
      if c = '\'' then
        ⟨.quoted (String.ofList reversed.reverse) :: l.tokens, .plain [], l.offset + c.utf8Size⟩
      else
        ⟨l.tokens, .quoted start (c :: reversed), l.offset + c.utf8Size⟩ := by
  simp only [step, h]

theorem step_of_plain {l : Lexer} {reversed : List Char} (h : l.pending = .plain reversed)
    (c : Char) :
    l.step c =
      if c = '\'' then
        ⟨endLiteral reversed l.tokens, .quoted l.offset [], l.offset + c.utf8Size⟩
      else if c = '(' then
        ⟨.leftParen :: endLiteral reversed l.tokens, .plain [], l.offset + c.utf8Size⟩
      else if c = ')' then
        ⟨.rightParen :: endLiteral reversed l.tokens, .plain [], l.offset + c.utf8Size⟩
      else if isBlank c then
        ⟨endLiteral reversed l.tokens, .plain [], l.offset + c.utf8Size⟩
      else
        ⟨l.tokens, .plain (c :: reversed), l.offset + c.utf8Size⟩ := by
  simp only [step, h]

theorem endLiteral_spellable {reversed : List Char} {tokens : List Token}
    (hreversed : ∀ c ∈ reversed, isPlain c) (htokens : ∀ t ∈ tokens, t.Spellable) :
    ∀ t ∈ endLiteral reversed tokens, t.Spellable := by
  cases reversed with
  | nil => exact htokens
  | cons c reversed =>
    intro t ht
    rcases List.mem_cons.1 ht with rfl | ht
    · rw [Token.Spellable, String.toList_ofList]
      exact ⟨by simp, fun d hd => hreversed d (List.mem_reverse.1 hd)⟩
    · exact htokens t ht

theorem Sound.between {tokens : List Token} (h : ∀ t ∈ tokens, t.Spellable) (offset : Nat) :
    Sound ⟨tokens, .plain [], offset⟩ where
  tokens := h
  plain hp c hc := by
    cases hp
    cases hc
  quoted hq := by cases hq

theorem Sound.step {l : Lexer} (h : l.Sound) (c : Char) : (l.step c).Sound := by
  cases hl : l.pending with
  | quoted start reversed =>
    have hreversed := h.quoted hl
    rw [step_of_quoted hl]
    split
    · refine .between (List.forall_mem_cons.2 ⟨?_, h.tokens⟩) _
      rw [Token.Spellable, String.toList_ofList, List.mem_reverse]
      exact hreversed
    · rename_i hc
      refine ⟨h.tokens, fun hp => by (cases hp), fun hq => ?_⟩
      cases hq
      rw [List.mem_cons, not_or]
      exact ⟨fun heq => hc heq.symm, hreversed⟩
  | plain reversed =>
    have hend := endLiteral_spellable (h.plain hl) h.tokens
    have hparen : ∀ t ∈ [Token.leftParen, .rightParen], t.Spellable := by simp [Token.Spellable]
    rw [step_of_plain hl]
    split
    · refine ⟨hend, fun hp => by (cases hp), fun hq => ?_⟩
      cases hq
      exact List.not_mem_nil
    split
    · exact .between (List.forall_mem_cons.2 ⟨hparen _ (by simp), hend⟩) _
    split
    · exact .between (List.forall_mem_cons.2 ⟨hparen _ (by simp), hend⟩) _
    split
    · exact .between hend _
    · rename_i hquote hleft hright hblank
      refine ⟨h.tokens, fun hp => ?_, fun hq => by (cases hq)⟩
      cases hp
      refine List.forall_mem_cons.2 ⟨?_, h.plain hl⟩
      simp [isPlain, hquote, hleft, hright, hblank]

theorem Sound.foldl {l : Lexer} (h : l.Sound) (text : List Char) :
    (text.foldl Lexer.step l).Sound := by
  induction text generalizing l with
  | nil => exact h
  | cons c text ih => exact ih (h.step c)

end Lexer

/-- The tokens of a text can be spelled. -/
theorem tokenize_spellable {source : String} {tokens : List Token}
    (h : tokenize source = .ok tokens) : ∀ t ∈ tokens, t.Spellable := by
  have hstart : Lexer.start.Sound := .between (fun t ht => absurd ht List.not_mem_nil) 0
  have hsound := hstart.foldl source.toList
  unfold tokenize Lexer.finish at h
  split at h
  · rename_i reversed hpending
    cases h
    intro t ht
    exact Lexer.endLiteral_spellable (hsound.plain hpending) hsound.tokens t (List.mem_reverse.1 ht)
  · cases h

/-! ## Spelling tokens -/

/-- The tokens of a lexer, last first, if it is not inside quotes. -/
def Lexer.settled (l : Lexer) : Option (List Token) :=
  match l.pending with
  | .plain reversed => some (Lexer.endLiteral reversed l.tokens)
  | .quoted _ _ => none

/-- A text in which the lexer, if nothing is pending, finds certain tokens. -/
def Spells (text : List Char) (tokens : List Token) : Prop :=
  ∀ l : Lexer, l.pending = .plain [] →
    (text.foldl Lexer.step l).settled = some (tokens.reverse ++ l.tokens)

namespace Lexer

theorem settled_of_plain {l : Lexer} (h : l.pending = .plain []) : l.settled = some l.tokens := by
  unfold settled
  rw [h]
  rfl

/-- A character that ends a literal also settles the lexer. -/
theorem step_space {l : Lexer} {tokens : List Token} (h : l.settled = some tokens) :
    (l.step ' ').pending = .plain [] ∧ (l.step ' ').tokens = tokens := by
  obtain ⟨before, pending, offset⟩ := l
  cases pending with
  | plain reversed =>
    cases h
    exact ⟨rfl, rfl⟩
  | quoted start reversed => cases h

theorem step_rightParen {l : Lexer} {tokens : List Token} (h : l.settled = some tokens) :
    (l.step ')').pending = .plain [] ∧ (l.step ')').tokens = .rightParen :: tokens := by
  obtain ⟨before, pending, offset⟩ := l
  cases pending with
  | plain reversed =>
    cases h
    exact ⟨rfl, rfl⟩
  | quoted start reversed => cases h

theorem foldl_plain {text : List Char} (h : ∀ c ∈ text, isPlain c) :
    ∀ {l : Lexer} {reversed : List Char}, l.pending = .plain reversed →
      (text.foldl step l).pending = .plain (text.reverse ++ reversed) ∧
        (text.foldl step l).tokens = l.tokens := by
  induction text with
  | nil => exact fun hl => ⟨hl, rfl⟩
  | cons c text ih =>
    intro l reversed hl
    have hc : isPlain c := h c List.mem_cons_self
    simp only [isPlain, decide_eq_true_eq] at hc
    obtain ⟨hquote, hleft, hright, hblank⟩ := hc
    have hstep : (l.step c).pending = .plain (c :: reversed) ∧ (l.step c).tokens = l.tokens := by
      rw [step_of_plain hl, if_neg hquote, if_neg hleft, if_neg hright, hblank]
      exact ⟨rfl, rfl⟩
    obtain ⟨hpending, htokens⟩ := ih (fun d hd => h d (List.mem_cons_of_mem _ hd)) hstep.1
    refine ⟨?_, htokens.trans hstep.2⟩
    rw [List.foldl_cons, hpending, List.reverse_cons, List.append_assoc, List.singleton_append]

theorem foldl_quoted {text : List Char} (h : '\'' ∉ text) :
    ∀ {l : Lexer} {start : Nat} {reversed : List Char}, l.pending = .quoted start reversed →
      (text.foldl step l).pending = .quoted start (text.reverse ++ reversed) ∧
        (text.foldl step l).tokens = l.tokens := by
  induction text with
  | nil => exact fun hl => ⟨hl, rfl⟩
  | cons c text ih =>
    intro l start reversed hl
    rw [List.mem_cons, not_or] at h
    have hc : c ≠ '\'' := fun heq => h.1 heq.symm
    have hstep : (l.step c).pending = .quoted start (c :: reversed) ∧
        (l.step c).tokens = l.tokens := by
      rw [step_of_quoted hl, if_neg hc]
      exact ⟨rfl, rfl⟩
    obtain ⟨hpending, htokens⟩ := ih h.2 hstep.1
    refine ⟨?_, htokens.trans hstep.2⟩
    rw [List.foldl_cons, hpending, List.reverse_cons, List.append_assoc, List.singleton_append]

end Lexer

namespace Spells

theorem nil : Spells [] [] :=
  fun _ hl => Lexer.settled_of_plain hl

theorem literal {text : List Char} (hne : text ≠ []) (h : ∀ c ∈ text, isPlain c) :
    Spells text [.literal (String.ofList text)] := by
  intro l hl
  obtain ⟨hpending, htokens⟩ := Lexer.foldl_plain h hl
  unfold Lexer.settled
  rw [hpending, htokens, List.append_nil]
  have : text.reverse.isEmpty = false := by simpa using hne
  simp [Lexer.endLiteral, this]

theorem quoted {text : List Char} (h : '\'' ∉ text) :
    Spells ('\'' :: (text ++ ['\''])) [.quoted (String.ofList text)] := by
  intro l hl
  have hopen : (l.step '\'').pending = .quoted l.offset [] ∧ (l.step '\'').tokens = l.tokens := by
    rw [Lexer.step_of_plain hl]
    exact ⟨rfl, rfl⟩
  obtain ⟨hpending, htokens⟩ := Lexer.foldl_quoted h hopen.1
  rw [List.foldl_cons, List.foldl_append, List.foldl_cons, List.foldl_nil,
    Lexer.step_of_quoted hpending, if_pos rfl, htokens, hopen.2, List.append_nil,
    List.reverse_reverse]
  rfl

theorem space {text more : List Char} {tokens others : List Token} (h : Spells text tokens)
    (hmore : Spells more others) : Spells (text ++ ' ' :: more) (tokens ++ others) := by
  intro l hl
  obtain ⟨hpending, htokens⟩ := Lexer.step_space (h l hl)
  rw [List.foldl_append, List.foldl_cons, hmore _ hpending, htokens, List.reverse_append,
    List.append_assoc]

theorem expression {text : List Char} {tokens : List Token} (h : Spells text tokens) :
    Spells ('(' :: (text ++ [')'])) (.leftParen :: (tokens ++ [.rightParen])) := by
  intro l hl
  have hopen : (l.step '(').pending = .plain [] ∧ (l.step '(').tokens = .leftParen :: l.tokens := by
    rw [Lexer.step_of_plain hl]
    exact ⟨rfl, rfl⟩
  obtain ⟨hpending, htokens⟩ := Lexer.step_rightParen (h _ hopen.1)
  rw [List.foldl_cons, List.foldl_append, List.foldl_cons, List.foldl_nil,
    Lexer.settled_of_plain hpending, htokens, hopen.2]
  simp

end Spells

/-- A text that spells certain tokens has these tokens. -/
theorem tokenize_of_spells {source : String} {tokens : List Token}
    (h : Spells source.toList tokens) : tokenize source = .ok tokens := by
  have hs := h Lexer.start rfl
  unfold tokenize
  generalize source.toList.foldl Lexer.step Lexer.start = l at hs ⊢
  obtain ⟨found, pending, offset⟩ := l
  cases pending with
  | plain reversed =>
    have htokens : Lexer.endLiteral reversed found = tokens.reverse ++ [] := Option.some.inj hs
    rw [Lexer.finish]
    dsimp only
    rw [htokens, List.append_nil, List.reverse_reverse]
  | quoted start reversed => cases hs

end MiniLisp
