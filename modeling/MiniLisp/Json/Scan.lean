import MiniLisp.Json.Fault

/-!
# Scanning JSON

The parts of the JSON grammar that are read character by character: space, words, strings and
numbers. A scan is given the text that remains and gives the text after what it has read; the
lemmas say that it gets shorter.
-/

namespace MiniLisp.Json

/-! ## Space and words -/

/-- Whether a character may stand between the parts of a value. -/
def isSpace (c : Char) : Bool :=
  c == ' ' || c == '\n' || c == '\t' || c == '\r'

/-- The text after any space at its start. -/
def skipSpace (text : List Char) : List Char :=
  text.dropWhile isSpace

/-- The text after a word that it has to start with. -/
def skipWord : (word text : List Char) → Except Fault (List Char)
  | [], text => .ok text
  | _ :: _, [] => .error .truncated
  | w :: word, c :: text => if c = w then skipWord word text else .error .malformed

theorem length_skipSpace_le (text : List Char) : (skipSpace text).length ≤ text.length :=
  (List.dropWhile_sublist isSpace).length_le

theorem length_le_of_skipWord {word text rest : List Char} (h : skipWord word text = .ok rest) :
    rest.length ≤ text.length := by
  fun_induction skipWord word text with
  | case1 text => cases h; exact Nat.le_refl _
  | case2 => cases h
  | case3 word c text ih => exact Nat.le_succ_of_le (ih h)
  | case4 => cases h

/-! ## Strings -/

def hexDigit? (c : Char) : Option Nat :=
  if c.isDigit then some (c.toNat - '0'.toNat)
  else if 'a' ≤ c ∧ c ≤ 'f' then some (c.toNat - 'a'.toNat + 10)
  else if 'A' ≤ c ∧ c ≤ 'F' then some (c.toNat - 'A'.toNat + 10)
  else none

/-- The UTF-16 unit that four hexadecimal digits give. -/
def hexUnit? (a b c d : Char) : Option Nat := do
  return (((← hexDigit? a) * 16 + (← hexDigit? b)) * 16 + (← hexDigit? c)) * 16 + (← hexDigit? d)

/-- The character that a letter after a backslash stands for. -/
def escaped? : Char → Option Char
  | '"' => some '"'
  | '\\' => some '\\'
  | '/' => some '/'
  | 'b' => some '\x08'
  | 'f' => some '\x0c'
  | 'n' => some '\n'
  | 'r' => some '\r'
  | 't' => some '\t'
  | _ => none

/-- A part of a string: a character, or the UTF-16 unit of a numeric escape. -/
inductive Piece where
  | char (c : Char)
  | unit (n : Nat)
deriving DecidableEq, Repr

/-- The fault of a numeric escape that is not four hexadecimal digits: the text has ended if less
than four bytes remain. -/
def hexFault (text : List Char) : Fault :=
  if (String.ofList text).utf8ByteSize < 4 then .truncated else .malformed

/-- Scans a string after its opening quote, with `add` taking up its parts from the left. -/
def scanString (add : σ → Piece → Except Fault σ) (s : σ) :
    List Char → Except Fault (σ × List Char)
  | [] => .error .truncated
  | '"' :: rest => .ok (s, rest)
  | '\\' :: rest =>
    match rest with
    | [] => .error .truncated
    | 'u' :: rest =>
      match rest with
      | a :: b :: c :: d :: rest =>
        match hexUnit? a b c d with
        | none => .error (hexFault (a :: b :: c :: d :: rest))
        | some n => do scanString add (← add s (.unit n)) rest
      | rest => .error (hexFault rest)
    | c :: rest =>
      match escaped? c with
      | none => .error .malformed
      | some c => do scanString add (← add s (.char c)) rest
  | c :: rest =>
    if c.toNat < 0x20 then .error .malformed
    else do scanString add (← add s (.char c)) rest

/-- The text after a string, given what follows its opening quote. -/
def skipString (text : List Char) : Except Fault (List Char) := do
  return (← scanString (fun _ _ => .ok ()) () text).2

/-- A string as far as it is read: its characters, last first, and the first half of a surrogate
pair that is waiting for the second. -/
structure Reading where
  reversed : List Char
  leading : Option Nat

/-- Takes up a part of a string. The halves of a surrogate pair must follow one another. -/
def Reading.add (s : Reading) : Piece → Except Fault Reading
  | .char c =>
    match s.leading with
    | none => .ok ⟨c :: s.reversed, none⟩
    | some _ => .error .malformed
  | .unit n =>
    match s.leading with
    | none =>
      if 0xD800 ≤ n ∧ n < 0xDC00 then .ok ⟨s.reversed, some n⟩
      else if 0xDC00 ≤ n ∧ n < 0xE000 then .error .malformed
      else .ok ⟨Char.ofNat n :: s.reversed, none⟩
    | some high =>
      if 0xDC00 ≤ n ∧ n < 0xE000 then
        let c := Char.ofNat (0x10000 + (high - 0xD800) * 0x400 + (n - 0xDC00))
        .ok ⟨c :: s.reversed, none⟩
      else
        .error .malformed

/-- Reads a string after its opening quote. -/
def readString (text : List Char) : Except Fault (String × List Char) := do
  let (s, rest) ← scanString Reading.add ⟨[], none⟩ text
  match s.leading with
  | none => return (String.ofList s.reversed.reverse, rest)
  | some _ => throw .malformed

theorem length_lt_of_scanString {add : σ → Piece → Except Fault σ} {s : σ} {text : List Char}
    {r : σ × List Char} (h : scanString add s text = .ok r) : r.2.length < text.length := by
  fun_induction scanString add s text with
  | case1 | case3 | case4 | case6 | case7 | case9 => cases h
  | case2 s rest =>
    cases h
    simp
  | case5 s a b c d rest n hn ih =>
    obtain ⟨t, -, ht⟩ := bind_eq_ok.1 h
    have := ih t ht
    simp only [List.length_cons]
    omega
  | case8 s c rest hu c' hc ih =>
    obtain ⟨t, -, ht⟩ := bind_eq_ok.1 h
    have := ih t ht
    simp only [List.length_cons]
    omega
  | case10 s c rest hq hb hc ih =>
    obtain ⟨t, -, ht⟩ := bind_eq_ok.1 h
    have := ih t ht
    simp only [List.length_cons]
    omega

theorem length_lt_of_skipString {text rest : List Char} (h : skipString text = .ok rest) :
    rest.length < text.length := by
  obtain ⟨r, hr, hp⟩ := bind_eq_ok.1 h
  exact pure_eq_ok.1 hp ▸ length_lt_of_scanString hr

theorem length_lt_of_readString {text : List Char} {r : String × List Char}
    (h : readString text = .ok r) : r.2.length < text.length := by
  obtain ⟨p, hp, hr⟩ := bind_eq_ok.1 h
  have := length_lt_of_scanString hp
  simp only at hr
  split at hr
  · cases hr
    exact this
  · cases hr

/-! ## Numbers -/

/-- The digits of a number: those before the point, those after it, and those of the exponent
with true for a minus. -/
structure Numeral where
  whole : List Char
  fraction : List Char
  exponent : Option (Bool × List Char)
deriving DecidableEq, Repr

/-- Takes digits, at least one, off a text; `atEnd` is the fault where the text has ended. -/
def scanDigits (atEnd : Fault) (text : List Char) : Except Fault (List Char × List Char) :=
  match text with
  | [] => .error atEnd
  | c :: rest =>
    if c.isDigit then .ok (c :: rest.takeWhile Char.isDigit, rest.dropWhile Char.isDigit)
    else .error .malformed

/-- Takes the digits before the point off a text: a zero alone, or digits that start with none. -/
def scanWhole (atEnd : Fault) (text : List Char) : Except Fault (List Char × List Char) := do
  let (digits, rest) ← scanDigits atEnd text
  if digits.head? = some '0' ∧ digits ≠ ['0'] then throw .malformed
  return (digits, rest)

/-- Takes an optional point and the digits after it off a text. -/
def scanFraction (atEnd : Fault) : List Char → Except Fault (List Char × List Char)
  | '.' :: rest => scanDigits atEnd rest
  | rest => .ok ([], rest)

/-- Takes an optional sign off a text; true for a minus. -/
def scanSign : List Char → Bool × List Char
  | '-' :: rest => (true, rest)
  | '+' :: rest => (false, rest)
  | rest => (false, rest)

/-- Takes an optional exponent part off a text. -/
def scanExponent (atEnd : Fault) : List Char → Except Fault (Option (Bool × List Char) × List Char)
  | [] => .ok (none, [])
  | c :: rest =>
    if c = 'e' ∨ c = 'E' then do
      let sign := scanSign rest
      let (digits, rest) ← scanDigits atEnd sign.2
      return (some (sign.1, digits), rest)
    else
      .ok (none, c :: rest)

/-- Scans a number after its minus sign, if it has one. -/
def scanNumeral (atEnd : Fault) (text : List Char) : Except Fault (Numeral × List Char) := do
  let (whole, rest) ← scanWhole atEnd text
  let (fraction, rest) ← scanFraction atEnd rest
  let (exponent, rest) ← scanExponent atEnd rest
  return (⟨whole, fraction, exponent⟩, rest)

theorem length_lt_of_scanDigits {atEnd : Fault} {text : List Char} {r : List Char × List Char}
    (h : scanDigits atEnd text = .ok r) : r.2.length < text.length := by
  unfold scanDigits at h
  split at h
  · cases h
  · rename_i c rest
    split at h
    · cases h
      exact Nat.lt_succ_of_le (List.dropWhile_sublist _).length_le
    · cases h

theorem length_lt_of_scanWhole {atEnd : Fault} {text : List Char} {r : List Char × List Char}
    (h : scanWhole atEnd text = .ok r) : r.2.length < text.length := by
  obtain ⟨p, hp, hr⟩ := bind_eq_ok.1 h
  have := length_lt_of_scanDigits hp
  simp only at hr
  split at hr
  · cases hr
  · cases hr
    exact this

theorem length_le_of_scanFraction {atEnd : Fault} {text : List Char} {r : List Char × List Char}
    (h : scanFraction atEnd text = .ok r) : r.2.length ≤ text.length := by
  unfold scanFraction at h
  split at h
  · exact Nat.le_succ_of_le (Nat.le_of_lt (length_lt_of_scanDigits h))
  · cases h
    exact Nat.le_refl _

theorem length_scanSign_le (text : List Char) : (scanSign text).2.length ≤ text.length := by
  unfold scanSign
  split <;> simp

theorem length_le_of_scanExponent {atEnd : Fault} {text : List Char}
    {r : Option (Bool × List Char) × List Char} (h : scanExponent atEnd text = .ok r) :
    r.2.length ≤ text.length := by
  unfold scanExponent at h
  split at h
  · cases h
    exact Nat.le_refl _
  · rename_i c rest
    split at h
    · obtain ⟨p, hp, hr⟩ := bind_eq_ok.1 h
      have h1 := length_lt_of_scanDigits hp
      have h2 := length_scanSign_le rest
      cases hr
      simp only [List.length_cons]
      omega
    · cases h
      exact Nat.le_refl _

theorem length_lt_of_scanNumeral {atEnd : Fault} {text : List Char} {r : Numeral × List Char}
    (h : scanNumeral atEnd text = .ok r) : r.2.length < text.length := by
  obtain ⟨p, hp, h⟩ := bind_eq_ok.1 h
  obtain ⟨q, hq, h⟩ := bind_eq_ok.1 h
  obtain ⟨t, ht, h⟩ := bind_eq_ok.1 h
  have h1 := length_lt_of_scanWhole hp
  have h2 := length_le_of_scanFraction hq
  have h3 := length_le_of_scanExponent ht
  cases h
  simp only
  omega

namespace Numeral

/-- The bound below which natural numbers are read: they are to fit 64 bits. -/
def limit : Nat := UInt64.size

/-- Appends digits to a significand for as long as it stays below the limit; gives also how many
were appended. -/
def append (significand : Nat) : List Char → Nat × Nat
  | [] => (significand, 0)
  | d :: rest =>
    let next := 10 * significand + (d.toNat - '0'.toNat)
    if next < limit then
      let (significand, count) := append next rest
      (significand, count + 1)
    else
      (significand, 0)

/-- The natural number that a numeral without point and exponent denotes, if it is below the
limit. -/
def natural? (n : Numeral) : Option Nat :=
  let size := Nat.ofDigitChars 10 n.whole 0
  if n.fraction.isEmpty ∧ n.exponent.isNone ∧ size < limit then some size else none

/-- The largest exponent of ten that is told apart from larger ones. -/
def maxExponent : Nat := 2147483647

/-- Whether a numeral is too large for a double. Its first digits are taken as an integer below
the limit and the others as powers of ten, so the test rounds twice. -/
def isOutOfRange (n : Numeral) : Bool :=
  let (head, count) := append 0 n.whole
  let (significand, places) := append head n.fraction
  let scale : Int := ((n.whole.length - count : Nat) : Int) - places
  let tooLarge (exponent : Int) : Bool :=
    308 < exponent || (0 ≤ exponent &&
      (Float.ofNat significand * Float.ofScientific 1 false exponent.toNat).isInf)
  significand != 0 && match n.exponent with
    | none => tooLarge scale
    | some (negative, digits) =>
      let size := Nat.ofDigitChars 10 digits 0
      if maxExponent < size then !negative
      else tooLarge (if negative then scale - size else scale + size)

end Numeral

end MiniLisp.Json
