import MiniLisp.Number.Decimal

/-!
# The text of a double

A double is written with the fewest decimal digits that read back as the same double, of those
with the digits nearest to it (an exact tie goes up), and always in positional notation.

For each count of digits the two decimals with that many digits that enclose the double are tried,
the nearer one first. Should none up to seventeen digits read back, all digits are written.
-/

namespace MiniLisp

/-- The number `significand · 2 ^ exponent`, whose neighbours differ from it by `2 ^ exponent`. -/
structure Binary where
  significand : Nat
  exponent : Int
deriving DecidableEq, Repr

namespace Binary

/-- The number of units `2 ^ exponent` in a whole, or one where a unit is larger than that. -/
def den (b : Binary) : Nat := 1 <<< (-b.exponent).toNat

/-- What one unit amounts to, in parts of `den`. -/
def unit (b : Binary) : Nat := 1 <<< b.exponent.toNat

/-- What the number amounts to, in parts of `den`. -/
def num (b : Binary) : Nat := b.significand * b.unit

/-- The power of ten just above a positive number: the `k` with `10 ^ (k - 1) ≤ b < 10 ^ k`. -/
def decade (b : Binary) : Int :=
  if b.den ≤ b.num then (Nat.toDigits 10 (b.num / b.den)).length
  else 1 - ((Nat.toDigits 10 ((b.den - 1) / b.num)).length : Int)

/-- The two multiples of `10 ^ e` that enclose the number, the nearer one first and the larger
one where both are equally near. One that is more than a unit away is left out, as it reads back
as another number. -/
def enclosing (b : Binary) (e : Int) : List Decimal :=
  let num := b.num * Nat.pow 10 (-e).toNat
  let den := b.den * Nat.pow 10 e.toNat
  let unit := b.unit * Nat.pow 10 (-e).toNat
  let below := num % den
  let above := den - below
  let low := if below ≤ unit then [⟨false, num / den, e⟩] else []
  let high := if above ≤ unit then [⟨false, num / den + 1, e⟩] else []
  if below < above then low ++ high else high ++ low

/-- The number with all its decimal digits. -/
def toDecimal (b : Binary) : Decimal :=
  if 0 ≤ b.exponent then ⟨false, b.num, 0⟩
  else ⟨false, b.significand * Nat.pow 5 (-b.exponent).toNat, b.exponent⟩

end Binary

/-- The decimal in positional notation with the fewest digits that reads back as the positive
double `x`, of which `b` is the exact value. -/
def Decimal.shortest (x : Float) (b : Binary) : Decimal :=
  let decade := b.decade
  let readsBack (d : Decimal) : Option Decimal :=
    let p := d.positional
    if p.toFloat == x then some p else none
  let found := (List.range 17).findSome? fun n =>
    (b.enclosing (decade - (n + 1 : Nat))).findSome? readsBack
  found.getD b.toDecimal.positional

open Float.Model in
/-- The text of a double as characters. -/
def floatChars (x : Float) : List Char :=
  match x.toModel.unpack with
  | .notANumber => ['N', 'a', 'N']
  | .infinity .positive => ['i', 'n', 'f']
  | .infinity .negative => ['-', 'i', 'n', 'f']
  | .zero .positive => ['0']
  | .zero .negative => ['-', '0']
  | .finite .positive m e _ => (Decimal.shortest x ⟨m, e⟩).chars
  | .finite .negative m e _ => '-' :: (Decimal.shortest (-x) ⟨m, e⟩).chars

/-- The text of a double. -/
def floatText (x : Float) : String :=
  String.ofList (floatChars x)

end MiniLisp
