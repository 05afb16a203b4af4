/-!
Numbers of 64 bits with a floating point, and the decimals that they are read from and written as.
-/

namespace TreeWalk

/-! ### Doubles

Binary floating-point numbers of 64 bits, as exact values. A finite number is a mantissa below 2^53
times a power of two that is at least 2^-1074; a decimal is read as the nearest of them, of two nearest
ones as the one with the even mantissa. -/

inductive Double where
  /-- The number mantissa · 2^exponent, below zero or with a signed zero if `negative`. -/
  | finite (negative : Bool) (mantissa : Nat) (exponent : Int)
  | infinity (negative : Bool)
  | nan
deriving DecidableEq, Repr

/-- The integer nearest to a quotient; a half goes to the even neighbour. -/
def roundDiv (num den : Nat) : Nat :=
  let quotient := num / den
  let rest := num % den
  if 2 * rest < den || (2 * rest == den && quotient % 2 == 0) then quotient else quotient + 1

namespace Double

/-- The least exponent. -/
def minExponent : Int := -1074

/-- The greatest exponent. -/
def maxExponent : Int := 971

/-- The least mantissa above the least exponent, 2^52. -/
def leastNormal : Nat := 4503599627370496

/-- The least 64-bit integer, -2^63. -/
def leastInt64 : Int := -9223372036854775808

/-- The greatest 64-bit integer, 2^63 - 1. -/
def greatestInt64 : Int := 9223372036854775807

/-- The quotient num / den divided by 2^exponent, as a quotient. -/
def scaled (num den : Nat) (exponent : Int) : Nat × Nat :=
  if 0 ≤ exponent then (num, den * Nat.pow 2 exponent.toNat) else (num * Nat.pow 2 (-exponent).toNat, den)

/-- The exponent at which a quotient of two positive numbers is rounded, the least one at which its
mantissa is not too large. The lengths of the two numbers give it up to one. -/
def roundingExponent (num den : Nat) : Int :=
  let guess := max ((num.log2 : Int) - (den.log2 : Int) - 52) minExponent
  let quotient := scaled num den guess
  if quotient.1 < quotient.2 * leastNormal && minExponent < guess then guess - 1 else guess

/-- The number with a mantissa that rounding may have carried to the next power of two. -/
def ofRounded (negative : Bool) (mantissa : Nat) (exponent : Int) : Double :=
  let (mantissa, exponent) :=
    if mantissa = 2 * leastNormal then (leastNormal, exponent + 1) else (mantissa, exponent)
  if maxExponent < exponent then infinity negative else finite negative mantissa exponent

/-- The number nearest to the quotient of two positive numbers. -/
def ofQuotient (negative : Bool) (num den : Nat) : Double :=
  let exponent := roundingExponent num den
  let quotient := scaled num den exponent
  ofRounded negative (roundDiv quotient.1 quotient.2) exponent

/-- The number of decimal digits, none for zero. -/
def digitCount (n : Nat) : Nat := if n = 0 then 0 else (Nat.toDigits 10 n).length

/-- The number nearest to digits · 10^exponent. Far beyond the greatest and the least number the
powers of ten need not be computed. -/
def ofDecimal (negative : Bool) (digits : Nat) (exponent : Int) : Double :=
  let magnitude := (digitCount digits : Int) + exponent
  if digits = 0 || magnitude < -330 then finite negative 0 minExponent
  else if 310 < magnitude then infinity negative
  else if 0 ≤ exponent then ofQuotient negative (digits * Nat.pow 10 exponent.toNat) 1
  else ofQuotient negative digits (Nat.pow 10 (-exponent).toNat)

/-- Whether the number differs from zero; what is no number does. -/
def isNonzero : Double → Bool
  | finite _ mantissa _ => mantissa != 0
  | _ => true

/-- The nearest integer to the size of a finite number, a half going up. -/
def roundSize (mantissa : Nat) (exponent : Int) : Nat :=
  if 0 ≤ exponent then mantissa * Nat.pow 2 exponent.toNat
  else
    let unit := Nat.pow 2 (-exponent).toNat
    (2 * mantissa + unit) / (2 * unit)

/-- The nearest 64-bit integer: a half goes away from zero, what lies outside goes to the nearer end,
and what is no number goes to 0. -/
def toInt64 : Double → Int
  | finite negative mantissa exponent =>
      let size : Int := roundSize mantissa exponent
      max leastInt64 (min greatestInt64 (if negative then -size else size))
  | infinity negative => if negative then leastInt64 else greatestInt64
  | nan => 0

end Double

end TreeWalk

namespace TreeWalk.Decimal

/-! ### Numbers in texts

Numbers in plain text: a sign, digits with at most one point among or beside them, and an exponent, or
one of the words for infinity and for what is no number. -/

/-- The number that a row of digits writes. -/
def digitsToNat (digits : List Char) : Nat :=
  digits.foldl (fun n c => 10 * n + (c.toNat - '0'.toNat)) 0

/-- The sign before a number, and the rest. -/
def splitSign : List Char → Bool × List Char
  | '-' :: rest => (true, rest)
  | '+' :: rest => (false, rest)
  | rest => (false, rest)

/-- A sign and digits, nothing else. -/
def parseInt? (s : List Char) : Option Int :=
  let (negative, digits) := splitSign s
  if !digits.isEmpty && digits.all Char.isDigit then
    some (if negative then -(digitsToNat digits : Int) else digitsToNat digits)
  else none

/-- Whether an integer is a signed 64-bit one. -/
def fitsInt64 (n : Int) : Bool := Double.leastInt64 ≤ n && n ≤ Double.greatestInt64

/-- The exponent behind the digits: none at all, or the mark with a signed integer. -/
def parseExponent? : List Char → Option Int
  | [] => some 0
  | mark :: rest => if mark = 'e' || mark = 'E' then parseInt? rest else none

/-- A number with digits before or behind the point, and its exponent. -/
def parseUnsigned? (negative : Bool) (s : List Char) : Option Double :=
  let whole := s.takeWhile Char.isDigit
  let (fraction, rest) :=
    match s.dropWhile Char.isDigit with
    | '.' :: rest => (rest.takeWhile Char.isDigit, rest.dropWhile Char.isDigit)
    | rest => ([], rest)
  if whole.isEmpty && fraction.isEmpty then none
  else
    (parseExponent? rest).map fun exponent =>
      .ofDecimal negative (digitsToNat (whole ++ fraction)) (exponent - fraction.length)

/-- A floating-point number in plain text. -/
def parseDouble? (s : List Char) : Option Double :=
  let (negative, rest) := splitSign s
  let word := String.ofList (rest.map Char.toLower)
  if word = "inf" || word = "infinity" then some (.infinity negative)
  else if word = "nan" then some .nan
  else parseUnsigned? negative rest

end TreeWalk.Decimal

namespace TreeWalk.Double

/-! ### Shortest decimals

Floating-point numbers as decimals: the fewest digits that read back as the number, and of those the
nearest to it, the greater one if two are equally near. The decimals that read back as m · 2^q form an
interval around it, which ends half way to its neighbours and contains its ends when m is even. On the
grid of the decimals with a given number of digits only the two neighbours of the number need to be
tried. -/

/-- The numbers that read back as a mantissa and exponent, times a common denominator: the number
itself, and the ends of the interval. -/
structure Interval where
  value : Nat
  low : Nat
  high : Nat
  denominator : Nat
  closed : Bool

/-- How far the interval goes below the number, in quarters of the unit of its last place. The neighbour
below a power of two is only half as far away, except at the bottom. -/
def quartersBelow (mantissa : Nat) (exponent : Int) : Nat :=
  if mantissa = leastNormal && minExponent < exponent then 1 else 2

def interval (mantissa : Nat) (exponent : Int) : Interval :=
  let unit := Nat.pow 2 (exponent - 2).toNat
  { value := 4 * mantissa * unit
    low := (4 * mantissa - quartersBelow mantissa exponent) * unit
    high := (4 * mantissa + 2) * unit
    denominator := Nat.pow 2 (2 - exponent).toNat
    closed := mantissa % 2 == 0 }

/-- The exponent of the first digit of num / den, a positive number. -/
def leadingExponent (num den : Nat) : Int :=
  if den ≤ num then (digitCount (num / den) : Int) - 1
  else -(digitCount ((den + num - 1) / num - 1) : Int)

/-- Whether candidate · 10^grid lies in the interval. -/
def Interval.contains (i : Interval) (candidate : Nat) (grid : Int) : Bool :=
  let c := candidate * Nat.pow 10 grid.toNat * i.denominator
  let unit := Nat.pow 10 (-grid).toNat
  if i.closed then i.low * unit ≤ c && c ≤ i.high * unit else i.low * unit < c && c < i.high * unit

/-- The candidate with the given grid that reads back, the nearer one if both neighbours do, and the
greater one if they are equally near. -/
def Interval.onGrid (i : Interval) (grid : Int) : Option Nat :=
  let num := i.value * Nat.pow 10 (-grid).toNat
  let den := i.denominator * Nat.pow 10 grid.toNat
  let down := num / den
  let up := down + 1
  match i.contains down grid, i.contains up grid with
  | true, true => some (if 2 * (num % den) < den then down else up)
  | true, false => some down
  | false, true => some up
  | false, false => none

/-- The shortest decimal digits · 10^grid that reads back as a positive finite number. -/
def shortest (mantissa : Nat) (exponent : Int) : Nat × Int :=
  let i := interval mantissa exponent
  let leading := leadingExponent i.value i.denominator
  let found := (List.range 17).findSome? fun (more : Nat) =>
    let grid := leading - more
    (i.onGrid grid).map fun digits => (digits, grid)
  match found with
  | some (10, grid) => (1, grid + 1)
  | some decimal => decimal
  | none => (mantissa, 0)

/-- The digits of a decimal around its point, without an exponent. -/
def positional (digits : Nat) (grid : Int) : List Char :=
  let text := Nat.toDigits 10 digits
  let whole := (text.length : Int) + grid
  if 0 ≤ grid then text ++ List.replicate grid.toNat '0'
  else if 0 < whole then text.take whole.toNat ++ '.' :: text.drop whole.toNat
  else '0' :: '.' :: List.replicate (-whole).toNat '0' ++ text

/-- The number as text: the shortest decimal, never with an exponent. -/
def toText : Double → String
  | finite negative mantissa exponent =>
      let sign := if negative then "-" else ""
      if mantissa = 0 then sign ++ "0"
      else
        let (digits, grid) := shortest mantissa exponent
        sign ++ String.ofList (positional digits grid)
  | infinity negative => if negative then "-inf" else "inf"
  | nan => "NaN"

/-- As `toText`, but a whole number keeps a zero behind the point. -/
def toPointText (x : Double) : String :=
  match x with
  | finite _ _ _ =>
      let text := x.toText
      if '.' ∈ text.toList then text else text ++ ".0"
  | _ => x.toText

end TreeWalk.Double
