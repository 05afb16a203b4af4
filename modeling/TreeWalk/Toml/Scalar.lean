import TreeWalk.Decimal
import TreeWalk.Toml.Quotation
import TreeWalk.Toml.Value

/-!
TOML values that are words: booleans, integers, floating-point numbers, dates and times. Such a value is
a longest run of the characters that occur in any of them; nothing that may follow a value is one of
these characters. A date and a time may also be joined by one space.
-/

namespace TreeWalk.Toml

/-- Characters of numbers, dates, times and words. -/
def isWordChar (c : Char) : Bool := c.isAlphanum || c ∈ ['_', '+', '-', '.', ':']

/-- The digits of a row of digits in which underscores may stand, each between two digits. -/
def digitRun? (isDigit : Char → Bool) : List Char → Option (List Char)
  | [] => none
  | [c] => if isDigit c then some [c] else none
  | c :: '_' :: rest => if isDigit c then (digitRun? isDigit rest).map (c :: ·) else none
  | c :: rest => if isDigit c then (digitRun? isDigit rest).map (c :: ·) else none

/-- The digits of a whole number, which starts with a zero only if it is zero. -/
def wholeDigits? (s : List Char) : Option (List Char) :=
  (digitRun? Char.isDigit s).filter fun digits => digits.head? ≠ some '0' || digits.length = 1

/-- A number in a base up to 16. -/
def baseNumber? (base : Nat) (s : List Char) : Option Int :=
  let isDigit (c : Char) : Bool :=
    match hexValue? c with
    | some digit => digit < base
    | none => false
  (digitRun? isDigit s).map fun digits =>
    let n : Nat := digits.foldl (fun n c => base * n + (hexValue? c).getD 0) 0
    (n : Int)

def integer? (s : List Char) : Option Int :=
  let number : Option Int :=
    match s with
    | '0' :: 'x' :: digits => baseNumber? 16 digits
    | '0' :: 'o' :: digits => baseNumber? 8 digits
    | '0' :: 'b' :: digits => baseNumber? 2 digits
    | _ =>
        let (negative, size) := Decimal.splitSign s
        (wholeDigits? size).map fun digits =>
          let n : Int := Decimal.digitsToNat digits
          if negative then -n else n
  number.filter Decimal.fitsInt64

/-- A letter e and a signed row of digits. -/
def exponent? : List Char → Option Int
  | mark :: rest =>
      if mark = 'e' || mark = 'E' then
        let (negative, size) := Decimal.splitSign rest
        (digitRun? Char.isDigit size).map fun digits =>
          let n : Int := Decimal.digitsToNat digits
          if negative then -n else n
      else none
  | [] => none

/-- A decimal with a fraction, an exponent or both. -/
def decimal? (negative : Bool) (s : List Char) : Option Double := do
  let isDigitChar (c : Char) : Bool := c.isDigit || c = '_'
  let whole ← wholeDigits? (s.takeWhile isDigitChar)
  match s.dropWhile isDigitChar with
  | '.' :: rest =>
      let fraction ← digitRun? Char.isDigit (rest.takeWhile isDigitChar)
      let exponent ←
        match rest.dropWhile isDigitChar with
        | [] => some 0
        | tail => exponent? tail
      some (.ofDecimal negative (Decimal.digitsToNat (whole ++ fraction))
        (exponent - fraction.length))
  | rest =>
      let exponent ← exponent? rest
      some (.ofDecimal negative (Decimal.digitsToNat whole) exponent)

/-- A floating-point number. A decimal too large for any finite number is refused. -/
def float? (s : List Char) : Option Double :=
  let (negative, size) := Decimal.splitSign s
  if size = ['i', 'n', 'f'] then some (.infinity negative)
  else if size = ['n', 'a', 'n'] then some .nan
  else (decimal? negative size).filter (· ≠ .infinity false)

/-- A number of two digits within bounds. -/
def twoDigits (least greatest : Nat) (a b : Char) : Bool :=
  let n := Decimal.digitsToNat [a, b]
  a.isDigit && b.isDigit && least ≤ n && n ≤ greatest

def isLeapYear (year : Nat) : Bool := year % 4 = 0 && (year % 100 ≠ 0 || year % 400 = 0)

def daysInMonth (year month : Nat) : Nat :=
  if month = 2 then if isLeapYear year then 29 else 28
  else if month ∈ [4, 6, 9, 11] then 30
  else 31

/-- A year of four digits, a month and a day that exists in it. -/
def isDate : List Char → Bool
  | [y, e, a, r, '-', m, n, '-', d, f] =>
      [y, e, a, r].all Char.isDigit && twoDigits 1 12 m n
        && twoDigits 1
          (daysInMonth (Decimal.digitsToNat [y, e, a, r]) (Decimal.digitsToNat [m, n])) d f
  | _ => false

/-- Hours and minutes. -/
def isHourMinute (h o m i : Char) : Bool := twoDigits 0 23 h o && twoDigits 0 59 m i

/-- The distance to universal time: none, the letter Z, or hours and minutes with a sign. -/
def isOffset : List Char → Bool
  | [] => true
  | [z] => z = 'Z' || z = 'z'
  | [sign, h, o, ':', m, i] => (sign = '+' || sign = '-') && isHourMinute h o m i
  | _ => false

/-- Hours, minutes and seconds, of which there may be 60, perhaps with a fraction, and then what
`tail` accepts. -/
def isTime (tail : List Char → Bool) : List Char → Bool
  | h :: o :: ':' :: m :: i :: ':' :: s :: e :: rest =>
      isHourMinute h o m i && twoDigits 0 60 s e
        && match rest with
          | '.' :: fraction =>
              (fraction.head?.any Char.isDigit) && tail (fraction.dropWhile Char.isDigit)
          | _ => tail rest
  | _ => false

/-- A date, a time, or a date and a time with or without an offset. -/
def isDatetime (s : List Char) : Bool :=
  isDate s || isTime List.isEmpty s
    || (isDate (s.take 10) && s[10]?.any (· ∈ ['T', 't', ' ']) && isTime isOffset (s.drop 11))

/-- The value that a word writes. -/
def Value.ofWord? (s : List Char) : Option Value :=
  if s = ['t', 'r', 'u', 'e'] then some (.boolean true)
  else if s = ['f', 'a', 'l', 's', 'e'] then some (.boolean false)
  else if isDatetime s then some (.datetime (String.ofList s))
  else
    match integer? s with
    | some n => some (.integer n)
    | none => (float? s).map .float

/-- Reads a value that is a word. A date takes the next word with it when one space and a digit
follow. -/
def readWord (cs : List Char) : Option (Value × List Char) :=
  let word := cs.takeWhile isWordChar
  let rest := cs.dropWhile isWordChar
  let (word, rest) :=
    match rest with
    | ' ' :: d :: _ =>
        if isDate word && d.isDigit then
          (word ++ ' ' :: rest.tail.takeWhile isWordChar, rest.tail.dropWhile isWordChar)
        else (word, rest)
    | _ => (word, rest)
  (Value.ofWord? word).map fun v => (v, rest)

end TreeWalk.Toml
