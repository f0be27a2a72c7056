import Mathlib.Data.List.Forall2
import MiniLisp.Json.Scan
import MiniLisp.Proofs.Number.Notation

/-!
# The grammar of JSON

Which texts are JSON values, how their parts are laid out, and what strings and whole numbers
denote. Nothing here says how a text is read.

Arrays and objects are laid out by one rule, `Body`. The members of an object are given by their
names and the texts of their values (`Object`): names have to denote something, so they are free of
unpaired halves of surrogate pairs, whereas strings within a value need only be written as strings
are.
-/

namespace MiniLisp.Json

/-! ## Space -/

def IsSpace (text : List Char) : Prop :=
  ∀ c ∈ text, isSpace c

theorem isSpace_nil : IsSpace [] :=
  nofun

/-- A part of a text with the space around it. -/
structure Spaced where
  before : List Char
  content : List Char
  after : List Char
  space_before : IsSpace before
  space_after : IsSpace after

def Spaced.text (part : Spaced) : List Char :=
  part.before ++ (part.content ++ part.after)

/-- A part of a text with no space around it. -/
def Spaced.tight (content : List Char) : Spaced :=
  ⟨[], content, [], isSpace_nil, isSpace_nil⟩

/-! ## Strings -/

/-- A hexadecimal digit, in a small or a capital letter. -/
inductive HexDigit : Char → Nat → Prop
  | small {n} (h : n < 16) : HexDigit (Nat.digitChar n) n
  | capital {n} (h : n < 16) : HexDigit (Nat.digitChar n).toUpper n

/-- The characters that may stand after a backslash, with what they stand for. -/
def escapes : List (Char × Char) :=
  [('"', '"'), ('\\', '\\'), ('/', '/'), ('b', '\x08'), ('f', '\x0c'), ('n', '\n'), ('r', '\r'),
    ('t', '\t')]

/-- Whether a character stands for itself in a string: it is no control character, quote or
backslash. -/
def isUnescaped (c : Char) : Bool :=
  0x20 ≤ c.toNat && c != '"' && c != '\\'

theorem isUnescaped_iff {c : Char} :
    isUnescaped c ↔ 0x20 ≤ c.toNat ∧ c ≠ '"' ∧ c ≠ '\\' := by
  simp [isUnescaped, and_assoc]

/-- How a part of a string is written. -/
inductive Spells : List Char → Piece → Prop
  | char {c} (h : isUnescaped c) : Spells [c] (.char c)
  | escape {letter c} (h : (letter, c) ∈ escapes) : Spells ['\\', letter] (.char c)
  | unit {a b c d i j k l} (ha : HexDigit a i) (hb : HexDigit b j) (hc : HexDigit c k)
    (hd : HexDigit d l) :
    Spells ['\\', 'u', a, b, c, d] (.unit (((i * 16 + j) * 16 + k) * 16 + l))

/-- What may stand between the quotes of a string. -/
inductive Quoted : List Char → List Piece → Prop
  | nil : Quoted [] []
  | cons {part text piece pieces} (hpart : Spells part piece) (htext : Quoted text pieces) :
    Quoted (part ++ text) (piece :: pieces)

/-- The characters that the parts of a string make up. The second half of a surrogate pair follows
the first, and no half stands alone. -/
inductive Decodes : List Piece → List Char → Prop
  | nil : Decodes [] []
  | char {c pieces text} (h : Decodes pieces text) : Decodes (.char c :: pieces) (c :: text)
  | unit {n pieces text} (hn : n < 0xD800 ∨ 0xE000 ≤ n) (h : Decodes pieces text) :
    Decodes (.unit n :: pieces) (Char.ofNat n :: text)
  | pair {high low pieces text} (hhigh : 0xD800 ≤ high ∧ high < 0xDC00)
    (hlow : 0xDC00 ≤ low ∧ low < 0xE000) (h : Decodes pieces text) :
    Decodes (.unit high :: .unit low :: pieces)
      (Char.ofNat (0x10000 + (high - 0xD800) * 0x400 + (low - 0xDC00)) :: text)

/-- A text between quotes that denotes a string. -/
def Names (text : List Char) (name : String) : Prop :=
  ∃ pieces, Quoted text pieces ∧ Decodes pieces name.toList

theorem quoted_unescaped {text : List Char} (h : text.all isUnescaped) :
    Quoted text (text.map .char) := by
  induction text with
  | nil => exact .nil
  | cons c text ih =>
    obtain ⟨hc, htext⟩ := Bool.and_eq_true_iff.1 h
    exact .cons (.char hc) (ih htext)

theorem decodes_chars (text : List Char) : Decodes (text.map .char) text := by
  induction text with
  | nil => exact .nil
  | cons c text ih => exact .char ih

/-- A text in which nothing has to be escaped denotes itself. -/
theorem names_unescaped {name : String} (h : name.toList.all isUnescaped) :
    Names name.toList name :=
  ⟨_, quoted_unescaped h, decodes_chars _⟩

/-! ## Numbers -/

/-- A whole number, written without zeros before it. -/
inductive Whole : List Char → Nat → Prop
  | zero : Whole ['0'] 0
  | digits {c rest} (hc : c ≠ '0') (h : ∀ d ∈ c :: rest, d.isDigit) :
    Whole (c :: rest) (Nat.ofDigitChars 10 (c :: rest) 0)

/-- The part of a number after its whole part, which may be missing. -/
inductive Fraction : List Char → Prop
  | none : Fraction []
  | some {digits} (ne : digits ≠ []) (h : ∀ c ∈ digits, c.isDigit) : Fraction ('.' :: digits)

inductive Unsigned : List Char → Prop
  | mk {whole n fraction exponent k} (hwhole : Whole whole n) (hfraction : Fraction fraction)
    (hexponent : Decimal.Exponent exponent k) : Unsigned (whole ++ (fraction ++ exponent))

/-! ## Values -/

/-- A value that holds no others. -/
inductive Scalar : List Char → Prop
  | word {word} (h : word ∈ ["null".toList, "true".toList, "false".toList]) : Scalar word
  | string {text pieces} (h : Quoted text pieces) : Scalar ('"' :: (text ++ ['"']))
  | positive {text} (h : Unsigned text) : Scalar text
  | negative {text} (h : Unsigned text) : Scalar ('-' :: text)

/-- A member of an object as it is laid out. The quotes of its name are left out. -/
structure Entry where
  name : Spaced
  value : Spaced

/-- The text of a member after the opening quote of its name. -/
def Entry.unquoted (entry : Entry) : List Char :=
  entry.name.content ++ '"' :: (entry.name.after ++ ':' :: entry.value.text)

def Entry.text (entry : Entry) : List Char :=
  entry.name.before ++ '"' :: entry.unquoted

def Entry.tight (name value : List Char) : Entry :=
  ⟨.tight name, .tight value⟩

/-- What stands between two brackets: parts with commas between them, or only space. -/
inductive Body (part : α → List Char) : List α → List Char → Prop
  | empty {space} (h : IsSpace space) : Body part [] space
  | last {x} : Body part [x] (part x)
  | cons {x xs text} (ne : xs ≠ []) (h : Body part xs text) :
    Body part (x :: xs) (part x ++ ',' :: text)

/-- The texts of values, nested to any depth. -/
inductive IsValue : List Char → Prop
  | scalar {text} (h : Scalar text) : IsValue text
  | array {items : List Spaced} {text} (hbody : Body Spaced.text items text)
    (hitems : ∀ item ∈ items, IsValue item.content) : IsValue ('[' :: (text ++ [']']))
  | object {entries : List Entry} {text} (hbody : Body Entry.text entries text)
    (hnames : ∀ entry ∈ entries, ∃ pieces, Quoted entry.name.content pieces)
    (hvalues : ∀ entry ∈ entries, IsValue entry.value.content) : IsValue ('{' :: (text ++ ['}']))

/-- The name and the value of a member. -/
def Entry.Denotes (entry : Entry) (member : String × List Char) : Prop :=
  Names entry.name.content member.1 ∧ entry.value.content = member.2 ∧ IsValue member.2

/-- The texts of objects, with the space around them, by the names and values of the members. -/
inductive Object : List (String × List Char) → List Char → Prop
  | mk {entries members body before after} (hbody : Body Entry.text entries body)
    (hmembers : List.Forall₂ Entry.Denotes entries members) (hbefore : IsSpace before)
    (hafter : IsSpace after) : Object members (before ++ '{' :: (body ++ '}' :: after))

end MiniLisp.Json
