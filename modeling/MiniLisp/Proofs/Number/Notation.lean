import MiniLisp.Number.Decimal

/-!
# The notation of numbers

A decimal literal is a sign, which may be missing, a mantissa and an exponent part, which may be
missing (`Decimal.Literal`). The reader of literals accepts exactly these texts and finds the number
that they denote (`Decimal.ofChars?_eq_some_iff`), so no text denotes two numbers.

A literal holds a digit. So the words for infinity and not-a-number, in whatever letters they are
written, are none (`Decimal.Word.not_literal`).
-/

namespace MiniLisp

namespace Decimal

/-! ## The grammar -/

/-- Texts of digits, of which the first ones may be set apart by a point: the number that the digits
make up, and how many of them stand after the point. -/
inductive Unsigned : List Char → (coefficient places : Nat) → Prop
  | whole {digits} (ne : digits ≠ []) (h : ∀ c ∈ digits, c.isDigit) :
    Unsigned digits (Nat.ofDigitChars 10 digits 0) 0
  | pointed {digits fraction} (ne : digits ≠ []) (h : ∀ c ∈ digits, c.isDigit)
    (hfraction : ∀ c ∈ fraction, c.isDigit) :
    Unsigned (digits ++ '.' :: fraction) (Nat.ofDigitChars 10 (digits ++ fraction) 0)
      fraction.length

/-- A sign that may be missing; true for a minus. -/
inductive Signed : List Char → (negative : Bool) → Prop
  | none : Signed [] false
  | plus : Signed ['+'] false
  | minus : Signed ['-'] true

/-- Digits with a point before, between or after them, or without one: the number that the digits
make up, and how many of them stand after the point. -/
inductive Mantissa : List Char → (coefficient places : Nat) → Prop
  | unsigned {text coefficient places} (h : Unsigned text coefficient places) :
    Mantissa text coefficient places
  | point {fraction} (ne : fraction ≠ []) (h : ∀ c ∈ fraction, c.isDigit) :
    Mantissa ('.' :: fraction) (Nat.ofDigitChars 10 fraction 0) fraction.length

/-- An exponent part, which may be missing: a mark, a sign that may be missing, and digits. -/
inductive Exponent : List Char → Int → Prop
  | none : Exponent [] 0
  | some {mark sign negative digits} (hmark : mark = 'e' ∨ mark = 'E')
    (hsign : Signed sign negative) (ne : digits ≠ []) (h : ∀ c ∈ digits, c.isDigit) :
    Exponent (mark :: (sign ++ digits))
      (if negative then -(Nat.ofDigitChars 10 digits 0 : Int) else Nat.ofDigitChars 10 digits 0)

/-- A text that denotes a decimal. -/
inductive Literal : List Char → Decimal → Prop
  | mk {sign negative mantissa coefficient places exponent k} (hsign : Signed sign negative)
    (hmantissa : Mantissa mantissa coefficient places) (hexponent : Exponent exponent k) :
    Literal (sign ++ (mantissa ++ exponent)) ⟨negative, coefficient, k - places⟩

/-! ## Signs -/

theorem Signed.takeSign {sign : List Char} {negative : Bool} (h : Signed sign negative)
    {rest : List Char} (hrest : ∀ c ∈ rest.head?, c ≠ '+' ∧ c ≠ '-') :
    Decimal.takeSign (sign ++ rest) = (negative, rest) := by
  cases h with
  | plus => rfl
  | minus => rfl
  | none =>
    cases rest with
    | nil => rfl
    | cons c rest =>
      obtain ⟨hplus, hminus⟩ := hrest c rfl
      rw [List.nil_append, Decimal.takeSign]
      · exact fun _ h => hminus (List.cons.inj h).1
      · exact fun _ h => hplus (List.cons.inj h).1

theorem exists_signed (text : List Char) :
    ∃ sign, Signed sign (takeSign text).1 ∧ text = sign ++ (takeSign text).2 := by
  unfold takeSign
  split
  · exact ⟨['-'], .minus, rfl⟩
  · exact ⟨['+'], .plus, rfl⟩
  · exact ⟨[], .none, rfl⟩

theorem ne_sign_of_isDigit {c : Char} (h : c.isDigit) : c ≠ '+' ∧ c ≠ '-' := by
  constructor
  · rintro rfl
    cases h
  · rintro rfl
    cases h

/-! ## Exponents -/

theorem exponentOfChars?_cons (mark : Char) (rest : List Char) :
    exponentOfChars? (mark :: rest) =
      if (mark = 'e' ∨ mark = 'E') ∧ (takeSign rest).2 ≠ [] ∧ (takeSign rest).2.all Char.isDigit then
        some (if (takeSign rest).1 then -(Nat.ofDigitChars 10 (takeSign rest).2 0 : Int)
          else Nat.ofDigitChars 10 (takeSign rest).2 0)
      else none := by
  unfold exponentOfChars?
  simp [and_assoc]

theorem exponentOfChars?_eq_some_iff {text : List Char} {k : Int} :
    exponentOfChars? text = some k ↔ Exponent text k := by
  constructor
  · intro h
    cases text with
    | nil =>
      cases h
      exact .none
    | cons mark rest =>
      obtain ⟨sign, hsign, hrest⟩ := exists_signed rest
      suffices h : Exponent (mark :: (sign ++ (takeSign rest).2)) k by rwa [← hrest] at h
      rw [exponentOfChars?_cons] at h
      split at h
      · rename_i hcond
        obtain ⟨hmark, hne, hdigits⟩ := hcond
        cases h
        exact .some hmark hsign hne (List.all_eq_true.1 hdigits)
      · cases h
  · intro h
    cases h with
    | none => rfl
    | some hmark hsign ne hdigits =>
      have htake := hsign.takeSign fun c hc =>
        ne_sign_of_isDigit (hdigits c (List.mem_of_mem_head? hc))
      rw [exponentOfChars?_cons, htake,
        if_pos ⟨hmark, ne, List.all_eq_true.2 hdigits⟩]

/-- An exponent part cannot be taken for digits or a point. -/
theorem Exponent.head {text : List Char} {k : Int} (h : Exponent text k) :
    ∀ c ∈ text.head?, c.isDigit = false ∧ c ≠ '.' := by
  cases h with
  | none => simp
  | some hmark =>
    rintro c ⟨⟩
    rcases hmark with rfl | rfl <;> decide

/-! ## Mantissas -/

theorem takeWhile_digits {digits : List Char} (h : ∀ c ∈ digits, c.isDigit) (rest : List Char)
    (hrest : ∀ c ∈ rest.head?, c.isDigit = false) :
    (digits ++ rest).takeWhile Char.isDigit = digits ∧
      (digits ++ rest).dropWhile Char.isDigit = rest := by
  rw [List.takeWhile_append_of_pos h, List.dropWhile_append_of_pos h]
  cases rest with
  | nil => exact ⟨List.append_nil _, rfl⟩
  | cons c rest =>
    have hc : ¬c.isDigit := by rw [hrest c rfl]; exact Bool.false_ne_true
    rw [List.takeWhile_cons_of_neg hc, List.dropWhile_cons_of_neg hc]
    exact ⟨List.append_nil _, rfl⟩

theorem Unsigned.exists_cons {text : List Char} {coefficient places : Nat}
    (h : Unsigned text coefficient places) : ∃ c rest, text = c :: rest ∧ c.isDigit := by
  cases h with
  | whole ne h =>
    obtain ⟨c, rest, rfl⟩ := List.exists_cons_of_ne_nil ne
    exact ⟨c, rest, rfl, h c List.mem_cons_self⟩
  | pointed ne h hfraction =>
    rename_i digits fraction
    obtain ⟨c, rest, rfl⟩ := List.exists_cons_of_ne_nil ne
    exact ⟨c, rest ++ '.' :: fraction, rfl, h c List.mem_cons_self⟩

/-- Reads a text from which the sign has been taken. -/
def ofUnsigned? (negative : Bool) (unsigned : List Char) : Option Decimal :=
  let whole := unsigned.takeWhile Char.isDigit
  let (fraction, rest) := match unsigned.dropWhile Char.isDigit with
    | '.' :: rest => (rest.takeWhile Char.isDigit, rest.dropWhile Char.isDigit)
    | rest => ([], rest)
  if whole.isEmpty && fraction.isEmpty then
    none
  else
    (exponentOfChars? rest).map fun exponent =>
      ⟨negative, Nat.ofDigitChars 10 (whole ++ fraction) 0, exponent - fraction.length⟩

theorem ofChars?_eq (text : List Char) :
    ofChars? text = ofUnsigned? (takeSign text).1 (takeSign text).2 := rfl

/-- The digits after a point that a text starts with, and what comes after them. -/
def splitFraction : List Char → List Char × List Char
  | '.' :: rest => (rest.takeWhile Char.isDigit, rest.dropWhile Char.isDigit)
  | rest => ([], rest)

theorem splitFraction_of_head {text : List Char} (h : ∀ c ∈ text.head?, c ≠ '.') :
    splitFraction text = ([], text) := by
  unfold splitFraction
  split
  · exact absurd rfl (h '.' rfl)
  · rfl

theorem ofUnsigned?_eq (negative : Bool) (unsigned : List Char) :
    ofUnsigned? negative unsigned =
      let whole := unsigned.takeWhile Char.isDigit
      let fraction := splitFraction (unsigned.dropWhile Char.isDigit)
      if whole = [] ∧ fraction.1 = [] then none
      else (exponentOfChars? fraction.2).map fun k =>
        ⟨negative, Nat.ofDigitChars 10 (whole ++ fraction.1) 0, k - fraction.1.length⟩ := by
  unfold ofUnsigned?
  split
  rename_i fraction rest hmatch
  have hsplit : splitFraction (unsigned.dropWhile Char.isDigit) = (fraction, rest) := hmatch
  simp [hsplit]

/-- Digits, a point and digits, of which there is at least one, are read up to the exponent part. -/
theorem ofUnsigned?_pointed {digits fraction exponent : List Char} {k : Int}
    (hdigits : ∀ c ∈ digits, c.isDigit) (hfraction : ∀ c ∈ fraction, c.isDigit)
    (ne : ¬(digits = [] ∧ fraction = [])) (hexponent : Exponent exponent k) (negative : Bool) :
    ofUnsigned? negative (digits ++ '.' :: (fraction ++ exponent)) =
      some ⟨negative, Nat.ofDigitChars 10 (digits ++ fraction) 0, k - fraction.length⟩ := by
  obtain ⟨htake, hdrop⟩ := takeWhile_digits hdigits ('.' :: (fraction ++ exponent)) (by simp)
  obtain ⟨htake', hdrop'⟩ := takeWhile_digits hfraction exponent fun c hc =>
    (hexponent.head c hc).1
  have hsplit : splitFraction ('.' :: (fraction ++ exponent)) = (fraction, exponent) := by
    rw [splitFraction, htake', hdrop']
  simp [ofUnsigned?_eq, htake, hdrop, hsplit, exponentOfChars?_eq_some_iff.2 hexponent, ne]

theorem Mantissa.ofUnsigned? {mantissa exponent : List Char} {coefficient places : Nat} {k : Int}
    (h : Mantissa mantissa coefficient places) (hexponent : Exponent exponent k) (negative : Bool) :
    Decimal.ofUnsigned? negative (mantissa ++ exponent) =
      some ⟨negative, coefficient, k - places⟩ := by
  cases h with
  | point ne h =>
    have hnone : ∀ c ∈ ([] : List Char), c.isDigit := nofun
    exact ofUnsigned?_pointed hnone h (by simp [ne]) hexponent negative
  | unsigned h =>
    cases h with
    | pointed ne h hfraction =>
      rw [List.append_assoc, List.cons_append]
      exact ofUnsigned?_pointed h hfraction (by simp [ne]) hexponent negative
    | whole ne h =>
      obtain ⟨htake, hdrop⟩ := takeWhile_digits h exponent fun c hc => (hexponent.head c hc).1
      have hsplit := splitFraction_of_head fun c hc => (hexponent.head c hc).2
      simp [ofUnsigned?_eq, htake, hdrop, hsplit, exponentOfChars?_eq_some_iff.2 hexponent, ne]

theorem splitFraction_cases (text : List Char) :
    (∃ fraction rest, text = '.' :: (fraction ++ rest) ∧ (∀ c ∈ fraction, c.isDigit) ∧
      splitFraction text = (fraction, rest)) ∨ splitFraction text = ([], text) := by
  unfold splitFraction
  split
  · rename_i rest
    refine .inl ⟨_, _, ?_, List.all_eq_true.1 List.all_takeWhile, rfl⟩
    rw [List.takeWhile_append_dropWhile]
  · exact .inr rfl

theorem exists_mantissa {negative : Bool} {unsigned : List Char} {d : Decimal}
    (h : ofUnsigned? negative unsigned = some d) : ∃ mantissa coefficient places exponent k,
      unsigned = mantissa ++ exponent ∧ Mantissa mantissa coefficient places ∧
        Exponent exponent k ∧ d = ⟨negative, coefficient, k - (places : Nat)⟩ := by
  have hwhole : ∀ c ∈ unsigned.takeWhile Char.isDigit, c.isDigit :=
    List.all_eq_true.1 List.all_takeWhile
  have hunsigned := (List.takeWhile_append_dropWhile (p := Char.isDigit) (l := unsigned)).symm
  rw [ofUnsigned?_eq] at h
  generalize unsigned.takeWhile Char.isDigit = whole at h hwhole hunsigned
  generalize unsigned.dropWhile Char.isDigit = rest at h hunsigned
  dsimp only at h
  split at h
  · cases h
  rename_i ne
  obtain ⟨k, hk, rfl⟩ := Option.map_eq_some_iff.1 h
  rw [exponentOfChars?_eq_some_iff] at hk
  rw [hunsigned]
  obtain ⟨fraction, exponent, rfl, hfraction, hsplit⟩ | hsplit := splitFraction_cases rest
  · rw [hsplit] at hk ne ⊢
    cases whole with
    | nil =>
      exact ⟨'.' :: fraction, _, _, exponent, k, rfl, .point (by simpa using ne) hfraction, hk, rfl⟩
    | cons c whole =>
      exact ⟨c :: whole ++ '.' :: fraction, _, _, exponent, k, by simp,
        .unsigned (.pointed (List.cons_ne_nil c whole) hwhole hfraction), hk, rfl⟩
  · rw [hsplit] at hk ne ⊢
    exact ⟨whole, _, 0, rest, k, rfl, .unsigned (.whole (by simpa using ne) hwhole), hk, by simp⟩

/-! ## Literals -/

theorem Mantissa.exists_digit {text : List Char} {coefficient places : Nat}
    (h : Mantissa text coefficient places) : ∃ c ∈ text, c.isDigit := by
  cases h with
  | unsigned h =>
    obtain ⟨c, rest, rfl, hc⟩ := h.exists_cons
    exact ⟨c, List.mem_cons_self, hc⟩
  | point ne h =>
    obtain ⟨c, rest, rfl⟩ := List.exists_cons_of_ne_nil ne
    exact ⟨c, List.mem_cons_of_mem _ List.mem_cons_self, h c List.mem_cons_self⟩

/-- A mantissa cannot be taken for a sign. -/
theorem Mantissa.head {text : List Char} {coefficient places : Nat}
    (h : Mantissa text coefficient places) (rest : List Char) :
    ∀ c ∈ (text ++ rest).head?, c ≠ '+' ∧ c ≠ '-' := by
  cases h with
  | unsigned h =>
    obtain ⟨c, text, rfl, hc⟩ := h.exists_cons
    rintro c ⟨⟩
    exact ne_sign_of_isDigit hc
  | point ne h =>
    rintro c ⟨⟩
    decide

/-- **The reader of literals accepts the notation** and nothing else. -/
theorem ofChars?_eq_some_iff {text : List Char} {d : Decimal} :
    ofChars? text = some d ↔ Literal text d := by
  constructor
  · intro h
    obtain ⟨sign, hsign, htext⟩ := exists_signed text
    rw [ofChars?_eq] at h
    obtain ⟨mantissa, coefficient, places, exponent, k, hunsigned, hmantissa, hexponent, rfl⟩ :=
      exists_mantissa h
    suffices h : Literal (sign ++ (takeSign text).2)
        ⟨(takeSign text).1, coefficient, k - (places : Nat)⟩ by rwa [← htext] at h
    rw [hunsigned]
    exact .mk hsign hmantissa hexponent
  · rintro ⟨hsign, hmantissa, hexponent⟩
    rw [ofChars?_eq, hsign.takeSign (hmantissa.head _)]
    exact hmantissa.ofUnsigned? hexponent _

theorem ofChars?_eq_none_iff {text : List Char} :
    ofChars? text = none ↔ ¬∃ d, Literal text d := by
  simp only [← ofChars?_eq_some_iff, ← Option.isSome_iff_exists, Bool.not_eq_true,
    Option.isSome_eq_false_iff, Option.isNone_iff_eq_none]

theorem Literal.exists_digit {text : List Char} {d : Decimal} (h : Literal text d) :
    ∃ c ∈ text, c.isDigit := by
  obtain ⟨-, hmantissa, -⟩ := h
  obtain ⟨c, hc, hdigit⟩ := hmantissa.exists_digit
  exact ⟨c, List.mem_append_right _ (List.mem_append_left _ hc), hdigit⟩

/-! ## Words -/

/-- A word for infinity or not-a-number, in small and capital letters and with a sign that may be
missing. -/
inductive Word : List Char → Prop
  | mk {sign negative word} (hsign : Signed sign negative)
    (h : word.map Char.toLower ∈ ["inf".toList, "infinity".toList, "nan".toList]) :
    Word (sign ++ word)

theorem toLower_of_isDigit {c : Char} (h : c.isDigit) : c.toLower = c := by
  have hle : c.toNat ≤ '9'.toNat := (Char.isDigit_iff_toNat.1 h).2
  refine dif_neg fun hcapital => ?_
  have hge : 'A'.toNat ≤ c.toNat := UInt32.le_iff_toNat_le.1 hcapital.1
  exact absurd (Nat.le_trans hge hle) (by decide)

theorem Word.isDigit_eq_false {text : List Char} (h : Word text) :
    ∀ c ∈ text, c.isDigit = false := by
  obtain ⟨hsign, h⟩ := h
  rename_i sign negative word
  intro c hc
  rw [← Bool.not_eq_true]
  intro hdigit
  rcases List.mem_append.1 hc with hc | hc
  · cases hsign with
    | none => cases hc
    | plus => exact (ne_sign_of_isDigit hdigit).1 (List.mem_singleton.1 hc)
    | minus => exact (ne_sign_of_isDigit hdigit).2 (List.mem_singleton.1 hc)
  · have hletters : ∀ l ∈ ["inf".toList, "infinity".toList, "nan".toList],
        l.all fun c => !c.isDigit := by decide
    have hlower := List.all_eq_true.1 (hletters _ h) c.toLower (List.mem_map_of_mem hc)
    rw [toLower_of_isDigit hdigit, hdigit] at hlower
    cases hlower

theorem Word.not_literal {text : List Char} (h : Word text) : ¬∃ d, Literal text d := by
  rintro ⟨d, hd⟩
  obtain ⟨c, hc, hdigit⟩ := hd.exists_digit
  rw [h.isDigit_eq_false c hc] at hdigit
  cases hdigit

end Decimal

end MiniLisp
