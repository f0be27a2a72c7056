import MiniLisp.Proofs.Json.Grammar

/-!
# Scanning what the grammar allows

The scanners stop right after a string, a number or space that the grammar allows. A number ends
where what follows cannot be taken for a part of it (`Ends`).
-/

namespace MiniLisp.Json

variable {rest : List Char}

/-! ## Space -/

theorem skipSpace_append {space : List Char} (h : IsSpace space) (rest : List Char) :
    skipSpace (space ++ rest) = skipSpace rest :=
  List.dropWhile_append_of_pos h

theorem skipSpace_cons {c : Char} (h : isSpace c = false) : skipSpace (c :: rest) = c :: rest :=
  List.dropWhile_cons_of_neg (by rw [h]; exact Bool.false_ne_true)

/-! ## Strings -/

theorem HexDigit.hexDigit? {c : Char} {n : Nat} (h : HexDigit c n) :
    Json.hexDigit? c = some n := by
  have hall : ∀ n < 16, Json.hexDigit? (Nat.digitChar n) = some n ∧
      Json.hexDigit? (Nat.digitChar n).toUpper = some n := by decide
  cases h with
  | small h => exact (hall n h).1
  | capital h => exact (hall n h).2

theorem hexUnit?_of_digits {a b c d : Char} {i j k l : Nat} (ha : HexDigit a i)
    (hb : HexDigit b j) (hc : HexDigit c k) (hd : HexDigit d l) :
    hexUnit? a b c d = some (((i * 16 + j) * 16 + k) * 16 + l) := by
  rw [hexUnit?, ha.hexDigit?, hb.hexDigit?, hc.hexDigit?, hd.hexDigit?]
  rfl

theorem escaped?_of_mem {letter c : Char} (h : (letter, c) ∈ escapes) :
    letter ≠ 'u' ∧ escaped? letter = some c := by
  have hall : ∀ p ∈ escapes, p.1 ≠ 'u' ∧ escaped? p.1 = some p.2 := by decide
  exact hall _ h

variable {σ : Type} {add : σ → Piece → Except Fault σ} {s : σ}

theorem scanString_spells {part : List Char} {piece : Piece} (h : Spells part piece) :
    scanString add s (part ++ rest) = add s piece >>= fun s => scanString add s rest := by
  cases h with
  | char h =>
    obtain ⟨hcontrol, hquote, hbackslash⟩ := isUnescaped_iff.1 h
    rw [List.singleton_append, scanString, if_neg (Nat.not_lt.2 hcontrol)]
    · exact hquote
    · exact hbackslash
  | escape h =>
    obtain ⟨hu, hc⟩ := escaped?_of_mem h
    rw [List.cons_append, List.singleton_append, scanString]
    · rw [hc]
    · exact hu
  | unit ha hb hc hd =>
    simp only [List.cons_append, List.nil_append]
    rw [scanString, hexUnit?_of_digits ha hb hc hd]

theorem scanString_quoted {text : List Char} {pieces : List Piece} (h : Quoted text pieces) :
    scanString add s (text ++ '"' :: rest) =
      pieces.foldlM add s >>= fun s => .ok (s, rest) := by
  induction h generalizing s with
  | nil => rfl
  | cons hpart htext ih =>
    rw [List.append_assoc, scanString_spells hpart, List.foldlM_cons, bind_assoc]
    exact bind_congr fun s => ih

theorem skipString_quoted {text : List Char} {pieces : List Piece} (h : Quoted text pieces) :
    skipString (text ++ '"' :: rest) = .ok rest := by
  have hfold : pieces.foldlM (fun (_ : Unit) _ => (.ok () : Except Fault Unit)) () = .ok () := by
    clear h
    induction pieces with
    | nil => rfl
    | cons piece pieces ih => exact ih
  rw [skipString, scanString_quoted h, hfold]
  rfl

theorem foldlM_decodes {pieces : List Piece} {text : List Char} (h : Decodes pieces text)
    (reversed : List Char) : pieces.foldlM Reading.add ⟨reversed, none⟩ =
      .ok ⟨text.reverse ++ reversed, none⟩ := by
  induction h generalizing reversed with
  | nil => rfl
  | char h ih =>
    rw [List.foldlM_cons, List.reverse_cons, List.append_assoc]
    exact ih _
  | @unit n pieces text hn h ih =>
    have hadd : Reading.add ⟨reversed, none⟩ (.unit n) = .ok ⟨Char.ofNat n :: reversed, none⟩ := by
      rw [Reading.add]
      dsimp only
      rw [if_neg (by omega), if_neg (by omega)]
    rw [List.foldlM_cons, hadd, List.reverse_cons, List.append_assoc]
    exact ih _
  | @pair high low pieces text hhigh hlow h ih =>
    have hfirst : Reading.add ⟨reversed, none⟩ (.unit high) = .ok ⟨reversed, some high⟩ :=
      if_pos hhigh
    have hsecond : Reading.add ⟨reversed, some high⟩ (.unit low) = .ok ⟨_, none⟩ := if_pos hlow
    rw [List.foldlM_cons, hfirst, List.reverse_cons, List.append_assoc]
    exact (congrArg (· >>= pieces.foldlM Reading.add) hsecond).trans (ih _)

theorem readString_names {text : List Char} {name : String} (h : Names text name) :
    readString (text ++ '"' :: rest) = .ok (name, rest) := by
  obtain ⟨pieces, hquoted, hdecodes⟩ := h
  rw [readString, scanString_quoted hquoted, foldlM_decodes hdecodes]
  simp [bind, Except.bind, pure, Except.pure]

/-! ## Numbers -/

/-- What follows a number: nothing that could be a part of it. -/
def Ends (text : List Char) : Prop :=
  ∀ c ∈ text.head?, c.isDigit = false ∧ c ≠ '.' ∧ c ≠ 'e' ∧ c ≠ 'E'

theorem head_append {P : Char → Prop} {text : List Char} (htext : ∀ c ∈ text.head?, P c)
    (hrest : ∀ c ∈ rest.head?, P c) : ∀ c ∈ (text ++ rest).head?, P c := by
  cases text with
  | nil => exact hrest
  | cons c text => exact htext

theorem ends_of_isSpace {space : List Char} (h : IsSpace space) (hrest : Ends rest) :
    Ends (space ++ rest) := by
  refine head_append (fun c hc => ?_) hrest
  have hspace : isSpace c := h c (List.mem_of_mem_head? hc)
  simp only [isSpace, Bool.or_eq_true, beq_iff_eq] at hspace
  obtain ((rfl | rfl) | rfl) | rfl := hspace <;> decide

variable (atEnd : Fault)

theorem scanDigits_append {digits : List Char} (ne : digits ≠ []) (h : ∀ c ∈ digits, c.isDigit)
    (hrest : ∀ c ∈ rest.head?, c.isDigit = false) :
    scanDigits atEnd (digits ++ rest) = .ok (digits, rest) := by
  obtain ⟨c, digits, rfl⟩ := List.exists_cons_of_ne_nil ne
  obtain ⟨hc, hdigits⟩ := List.forall_mem_cons.1 h
  obtain ⟨htake, hdrop⟩ := Decimal.takeWhile_digits hdigits rest hrest
  rw [List.cons_append, scanDigits, if_pos hc, htake, hdrop]

theorem Whole.isDigit {text : List Char} {n : Nat} (h : Whole text n) :
    text ≠ [] ∧ ∀ c ∈ text, c.isDigit := by
  cases h with
  | zero => exact ⟨List.cons_ne_nil _ _, List.forall_mem_singleton.2 rfl⟩
  | digits hc h => exact ⟨List.cons_ne_nil _ _, h⟩

theorem Whole.ofDigitChars {text : List Char} {n : Nat} (h : Whole text n) :
    Nat.ofDigitChars 10 text 0 = n := by
  cases h with
  | zero => rfl
  | digits => rfl

theorem scanWhole_append {whole : List Char} {n : Nat} (h : Whole whole n)
    (hrest : ∀ c ∈ rest.head?, c.isDigit = false) :
    scanWhole atEnd (whole ++ rest) = .ok (whole, rest) := by
  have hzero : ¬(whole.head? = some '0' ∧ whole ≠ ['0']) := by
    cases h with
    | zero => decide
    | digits hc h => exact fun hzero => hc (Option.some.inj hzero.1)
  rw [scanWhole, scanDigits_append atEnd h.isDigit.1 h.isDigit.2 hrest]
  exact if_neg hzero

theorem scanFraction_of_head (hrest : ∀ c ∈ rest.head?, c ≠ '.') :
    scanFraction atEnd rest = .ok ([], rest) := by
  rw [scanFraction]
  rintro text rfl
  exact hrest '.' rfl rfl

theorem scanFraction_append {fraction : List Char} (h : Fraction fraction)
    (hrest : ∀ c ∈ rest.head?, c.isDigit = false ∧ c ≠ '.') :
    ∃ digits, scanFraction atEnd (fraction ++ rest) = .ok (digits, rest) := by
  cases h with
  | none => exact ⟨[], scanFraction_of_head atEnd fun c hc => (hrest c hc).2⟩
  | some ne h => exact ⟨_, scanDigits_append atEnd ne h fun c hc => (hrest c hc).1⟩

theorem scanSign_append {sign : List Char} {negative : Bool} (h : Decimal.Signed sign negative)
    (hrest : ∀ c ∈ rest.head?, c ≠ '+' ∧ c ≠ '-') :
    scanSign (sign ++ rest) = (negative, rest) := by
  cases h with
  | plus => rfl
  | minus => rfl
  | none =>
    rw [List.nil_append, scanSign]
    · rintro text rfl
      exact (hrest '-' rfl).2 rfl
    · rintro text rfl
      exact (hrest '+' rfl).1 rfl

theorem scanExponent_of_head (hrest : ∀ c ∈ rest.head?, c ≠ 'e' ∧ c ≠ 'E') :
    scanExponent atEnd rest = .ok (none, rest) := by
  cases rest with
  | nil => rfl
  | cons c rest =>
    obtain ⟨hsmall, hcapital⟩ := hrest c rfl
    rw [scanExponent, if_neg (not_or.2 ⟨hsmall, hcapital⟩)]

theorem scanExponent_append {exponent : List Char} {k : Int} (h : Decimal.Exponent exponent k)
    (hrest : Ends rest) : ∃ e, scanExponent atEnd (exponent ++ rest) = .ok (e, rest) := by
  cases h with
  | none => exact ⟨none, scanExponent_of_head atEnd fun c hc => (hrest c hc).2.2⟩
  | @some mark sign negative digits hmark hsign ne h =>
    have hhead : ∀ c ∈ (digits ++ rest).head?, c ≠ '+' ∧ c ≠ '-' := by
      rw [List.head?_append_of_ne_nil _ ne]
      exact fun c hc => Decimal.ne_sign_of_isDigit (h c (List.mem_of_mem_head? hc))
    refine ⟨some (negative, digits), ?_⟩
    rw [List.cons_append, List.append_assoc, scanExponent, if_pos hmark,
      scanSign_append hsign hhead]
    dsimp only
    rw [scanDigits_append atEnd ne h fun c hc => (hrest c hc).1]
    rfl

theorem scanNumeral_append {text : List Char} (h : Unsigned text) (hrest : Ends rest) :
    ∃ n, scanNumeral atEnd (text ++ rest) = .ok (n, rest) := by
  obtain ⟨hwhole, hfraction, hexponent⟩ := h
  rename_i whole n fraction exponent k
  have hafter : ∀ c ∈ (exponent ++ rest).head?, c.isDigit = false ∧ c ≠ '.' :=
    head_append hexponent.head fun c hc => ⟨(hrest c hc).1, (hrest c hc).2.1⟩
  have hfractionHead : ∀ c ∈ (fraction ++ (exponent ++ rest)).head?, c.isDigit = false := by
    refine head_append ?_ fun c hc => (hafter c hc).1
    cases hfraction with
    | none => exact nofun
    | some => rintro c ⟨⟩; rfl
  obtain ⟨digits, hdigits⟩ := scanFraction_append atEnd hfraction hafter
  obtain ⟨e, he⟩ := scanExponent_append atEnd hexponent hrest
  refine ⟨⟨whole, digits, e⟩, ?_⟩
  rw [List.append_assoc, List.append_assoc, scanNumeral, scanWhole_append atEnd hwhole hfractionHead]
  simp [bind, Except.bind, pure, Except.pure, hdigits, he]

theorem scanNumeral_whole {whole : List Char} {n : Nat} (h : Whole whole n) (hrest : Ends rest) :
    scanNumeral atEnd (whole ++ rest) = .ok (⟨whole, [], none⟩, rest) := by
  rw [scanNumeral, scanWhole_append atEnd h fun c hc => (hrest c hc).1]
  simp [bind, Except.bind, pure, Except.pure,
    scanFraction_of_head atEnd fun c hc => (hrest c hc).2.1,
    scanExponent_of_head atEnd fun c hc => (hrest c hc).2.2]

end MiniLisp.Json
