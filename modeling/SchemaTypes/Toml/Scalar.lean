/-
# TOML numbers, times and booleans

Values that are written as one word: booleans, integers of four bases within
64 bits, decimal numbers in double precision, and dates and times of day. An
underscore may stand between two digits.

Key definitions: `Toml.isInteger`, `Toml.isFloat`, `Toml.isTime`,
`Toml.scalar`.
-/
import SchemaTypes.Decimal
import SchemaTypes.Toml.Table
import SchemaTypes.Toml.Text

namespace SchemaTypes.Toml

open Decimal (signed)

/-! ### Numbers -/

/-- Digits of a kind, with single underscores between them. -/
def areDigits (isDigit : Char → Bool) : List Char → Bool
  | [] => false
  | [c] => isDigit c
  | c :: '_' :: cs => isDigit c && areDigits isDigit cs
  | c :: cs => isDigit c && areDigits isDigit cs

/-- The number that digits stand for; underscores do not count. -/
def number (base : Nat) (digits : List Char) : Nat :=
  digits.foldl (fun n c => if c = '_' then n else n * base + (Text.hexValue? c).getD 0) 0

/-- Decimal digits that start with no needless zero. -/
def isWhole (digits : List Char) : Bool :=
  areDigits Char.isDigit digits && (digits.head? ≠ some '0' || digits = ['0'])

/-- The integers have 64 bits: they are below this number, `2 ^ 63`. -/
def integerBound : Nat := 9223372036854775808

/-- Digits of a base whose number is an integer. -/
def isUnsigned (base : Nat) (digits : List Char) : Bool :=
  areDigits (fun c => (Text.hexValue? c).any (· < base)) digits && number base digits < integerBound

/-- An integer: decimal with a sign, or of another base without one. -/
def isInteger : List Char → Bool
  | '0' :: 'x' :: cs => isUnsigned 16 cs
  | '0' :: 'o' :: cs => isUnsigned 8 cs
  | '0' :: 'b' :: cs => isUnsigned 2 cs
  | cs =>
    let (negative, digits) := signed cs
    isWhole digits && number 10 digits < integerBound + (if negative then 1 else 0)

/-- The part of a decimal number behind its whole digits: the digits of its
fraction, and its exponent. One of the two is there. -/
def fractionAndExponent? (cs : List Char) : Option (List Char × Int) :=
  let exponent (digits : List Char) : Option Int :=
    let (negative, digits) := signed digits
    if !areDigits Char.isDigit digits then none
    else some (if negative then -(number 10 digits : Int) else number 10 digits)
  let isPart (c : Char) : Bool := c.isDigit || c = '_'
  match cs with
  | '.' :: cs =>
    let fraction := cs.takeWhile isPart
    if !areDigits Char.isDigit fraction then none
    else
      match cs.dropWhile isPart with
      | [] => some (fraction, 0)
      | c :: cs => if c = 'e' || c = 'E' then (exponent cs).map fun e => (fraction, e) else none
  | c :: cs => if c = 'e' || c = 'E' then (exponent cs).map fun e => ([], e) else none
  | [] => none

/-- A number in double precision. One that is too large counts as an infinity
and may only be negative. -/
def isFloat (cs : List Char) : Bool :=
  let (negative, cs) := signed cs
  let isPart (c : Char) : Bool := c.isDigit || c = '_'
  let whole := cs.takeWhile isPart
  if cs = "inf".toList || cs = "nan".toList then true
  else
    isWhole whole &&
      match fractionAndExponent? (cs.dropWhile isPart) with
      | none => false
      | some (fraction, e) =>
        let places := fraction.countP (· ≠ '_')
        negative || (Binary64.ofDecimal false (number 10 (whole ++ fraction)) (e - places)).isSome

/-! ### Dates and times -/

/-- A number of two digits in a range. -/
def isPair (low high : Nat) (a b : Char) : Bool :=
  a.isDigit && b.isDigit && low ≤ number 10 [a, b] && number 10 [a, b] ≤ high

/-- The number of days of a month. -/
def daysOf (year month : Nat) : Nat :=
  if month = 2 then
    if year % 4 = 0 && (year % 100 ≠ 0 || year % 400 = 0) then 29 else 28
  else if month = 4 || month = 6 || month = 9 || month = 11 then 30
  else 31

/-- The text behind a date of the calendar. -/
def afterDate? : List Char → Option (List Char)
  | y₁ :: y₂ :: y₃ :: y₄ :: '-' :: m₁ :: m₂ :: '-' :: d₁ :: d₂ :: cs =>
    let year := [y₁, y₂, y₃, y₄]
    if year.all Char.isDigit && isPair 1 12 m₁ m₂ &&
        isPair 1 (daysOf (number 10 year) (number 10 [m₁, m₂])) d₁ d₂ then some cs
    else none
  | _ => none

/-- The text behind a time of day. -/
def afterClock? : List Char → Option (List Char)
  | h₁ :: h₂ :: ':' :: m₁ :: m₂ :: ':' :: s₁ :: s₂ :: cs =>
    if isPair 0 23 h₁ h₂ && isPair 0 59 m₁ m₂ && isPair 0 60 s₁ s₂ then
      match cs with
      | '.' :: d :: rest =>
        if d.isDigit then some (rest.dropWhile Char.isDigit) else some cs
      | _ => some cs
    else none
  | _ => none

/-- The distance from universal time, or nothing. -/
def isOffset : List Char → Bool
  | [] => true
  | [c] => c = 'Z' || c = 'z'
  | [sign, h₁, h₂, ':', m₁, m₂] =>
    (sign = '+' || sign = '-') && isPair 0 23 h₁ h₂ && isPair 0 59 m₁ m₂
  | _ => false

/-- A time of day behind its date. -/
def isDayTime (cs : List Char) : Bool :=
  (afterClock? cs).any isOffset

/-- A date, a time of day, or both with a letter between. -/
def isTime (cs : List Char) : Bool :=
  match afterDate? cs with
  | some [] => true
  | some (c :: rest) => (c = 'T' || c = 't') && isDayTime rest
  | none => (afterClock? cs).any List.isEmpty

/-! ### Words -/

/-- A character of a word. -/
def isWordChar (c : Char) : Bool :=
  c.isAlphanum || c = '_' || c = '+' || c = '-' || c = '.' || c = ':'

/-- A value that is written as one word, or as a date and a time of day with
a space between. -/
def scalar : Reader Node := fun cs =>
  let word := cs.takeWhile isWordChar
  let rest := cs.dropWhile isWordChar
  if word = "true".toList then some (.boolean true, rest)
  else if word = "false".toList then some (.boolean false, rest)
  else if isInteger word || isFloat word then some (.number, rest)
  else if isTime word then
    match (afterDate? word), rest with
    | some [], ' ' :: c :: more =>
      if !c.isDigit then some (.time, rest)
      else if isDayTime ((c :: more).takeWhile isWordChar) then
        some (.time, (c :: more).dropWhile isWordChar)
      else none
    | _, _ => some (.time, rest)
  else none

end SchemaTypes.Toml
