/-!
# Decimal numbers

The decimal notation of the language: how a literal is read into a sign, a coefficient and a
power of ten, what double it denotes, and how a decimal is written without an exponent.

A literal is an optional sign, digits with an optional point and optional further digits (or a
point followed by at least one digit), and an optional exponent part.
-/

namespace MiniLisp

/-- The number `± coefficient · 10 ^ exponent`. A negative zero is told from a positive one. -/
structure Decimal where
  negative : Bool
  coefficient : Nat
  exponent : Int
deriving DecidableEq, Repr

namespace Decimal

/-! ## Reading -/

/-- Takes an optional sign off a text; true for a minus. -/
def takeSign : List Char → Bool × List Char
  | '-' :: rest => (true, rest)
  | '+' :: rest => (false, rest)
  | rest => (false, rest)

/-- The exponent part that ends a literal: nothing, or `e` or `E` and a signed integer. -/
def exponentOfChars? : List Char → Option Int
  | [] => some 0
  | mark :: rest =>
    let (negative, digits) := takeSign rest
    if (mark == 'e' || mark == 'E') && !digits.isEmpty && digits.all Char.isDigit then
      let size := Nat.ofDigitChars 10 digits 0
      some (if negative then -(size : Int) else size)
    else
      none

/-- Reads a decimal literal that takes up a whole text. -/
def ofChars? (text : List Char) : Option Decimal :=
  let (negative, unsigned) := takeSign text
  let whole := unsigned.takeWhile Char.isDigit
  let (fraction, rest) := match unsigned.dropWhile Char.isDigit with
    | '.' :: rest => (rest.takeWhile Char.isDigit, rest.dropWhile Char.isDigit)
    | rest => ([], rest)
  if whole.isEmpty && fraction.isEmpty then
    none
  else
    (exponentOfChars? rest).map fun exponent =>
      ⟨negative, Nat.ofDigitChars 10 (whole ++ fraction) 0, exponent - fraction.length⟩

/-! ## Value -/

/-- The double nearest to a decimal, of two equally near the one with an even significand;
infinite beyond the largest double. -/
def toFloat (d : Decimal) : Float :=
  let magnitude := Float.ofScientific d.coefficient (d.exponent < 0) d.exponent.natAbs
  if d.negative then -magnitude else magnitude

/-! ## Writing -/

/-- Drops zeros from the end of a coefficient with `places` digits after the point, for as long
as they stand after the point. -/
def dropZeros (coefficient : Nat) : (places : Nat) → Nat × Nat
  | 0 => (coefficient, 0)
  | places + 1 =>
    if coefficient % 10 = 0 then dropZeros (coefficient / 10) places
    else (coefficient, places + 1)

/-- The same number as it is written without an exponent part: no power of ten above one, and no
zero at the end of the digits after the point. -/
def positional (d : Decimal) : Decimal :=
  if 0 ≤ d.exponent then
    ⟨d.negative, d.coefficient * Nat.pow 10 d.exponent.toNat, 0⟩
  else
    let (coefficient, places) := dropZeros d.coefficient (-d.exponent).toNat
    ⟨d.negative, coefficient, -(places : Int)⟩

/-- Digits with a point before the last `places` of them, and at least one digit before it. -/
def pointed (digits : List Char) (places : Nat) : List Char :=
  let padded := List.replicate (places + 1 - digits.length) '0' ++ digits
  let whole := padded.length - places
  padded.take whole ++ '.' :: padded.drop whole

/-- A decimal in positional notation. -/
def chars (d : Decimal) : List Char :=
  let p := d.positional
  let digits := Nat.toDigits 10 p.coefficient
  let unsigned := if p.exponent = 0 then digits else pointed digits p.exponent.natAbs
  if p.negative then '-' :: unsigned else unsigned

end Decimal

end MiniLisp
