/-
# Decimal numerals and double precision numbers

A natural number in a base is written with the digits of that base, letters
being the digits from ten on. A decimal numeral is digits, perhaps a fraction
behind a point and perhaps an exponent; a sign may stand before a numeral and
before an exponent.

A finite binary floating-point number of 53 bits is `mantissa * 2 ^ exponent`
with a sign, in the canonical form in which the mantissa has all 53 bits or
the exponent is the least one. Products, quotients and decimal numerals are
computed exactly over the natural numbers and rounded once, to the nearest
number, a tie going to the even mantissa. Infinities and NaN are not here: a
result beyond the greatest finite number is `none`.

The decimal numerals that read back as a given double precision number are
those in its rounding interval. Among them `shortest` takes one with the
fewest digits: it looks for the coarsest decimal grid that has a point in the
interval, and takes the point of that grid nearest to the number, of two
equally near the even one. `text` lays the digits out: positionally, with a
fraction, from 0.00001 up to below 10 ^ 16, and with a signed exponent
outside.

Key definitions: `Decimal.natural?`, `Decimal.decimal?`, `Decimal.signed`,
`Binary64.ofRatio`, `Binary64.mul`, `Binary64.div`, `Binary64.ofDecimal`,
`Binary64.shortest`, `Binary64.text`.
-/

namespace SchemaTypes

/-! ### Numerals -/

namespace Decimal

/-- The value of a digit or a letter, as in numbers of any base. -/
def digitValue (c : Char) : Nat :=
  if c.isDigit then c.toNat - 48
  else if c.isLower then c.toNat - 87
  else if c.isUpper then c.toNat - 55
  else 99

/-- The number that digits of a base stand for; there is at least one. -/
def natural? (base : Nat) (digits : List Char) : Option Nat :=
  if digits.isEmpty || digits.any (fun c => base ≤ digitValue c) then none
  else some (digits.foldl (fun n c => n * base + digitValue c) 0)

/-- The sign of a number and what stands behind it. -/
def signed : List Char → Bool × List Char
  | '+' :: cs => (false, cs)
  | '-' :: cs => (true, cs)
  | cs => (false, cs)

/-- The exponent of a decimal numeral; the text ends with it. -/
def exponent? : List Char → Option Int
  | [] => some 0
  | c :: cs =>
    if c = 'e' ∨ c = 'E' then
      let (negative, digits) := signed cs
      (natural? 10 digits).map fun n => if negative then -(n : Int) else n
    else none

/-- A decimal numeral without sign: its digits and the power of ten they
count. There is a digit before or behind the point. -/
def decimal? (cs : List Char) : Option (Nat × Int) := do
  let whole := cs.takeWhile Char.isDigit
  let rest := cs.dropWhile Char.isDigit
  let (fraction, rest) :=
    match rest with
    | '.' :: ds => (ds.takeWhile Char.isDigit, ds.dropWhile Char.isDigit)
    | ds => ([], ds)
  let digits ← natural? 10 (whole ++ fraction)
  let e ← exponent? rest
  pure (digits, e - fraction.length)

end Decimal

/-! ### Rounding to double precision -/

/-- A finite double precision number. -/
structure Binary64 where
  negative : Bool
  mantissa : Nat
  exponent : Int
deriving DecidableEq, Repr, Inhabited

namespace Binary64

/-- The least exponent. -/
def minExponent : Int := -1074

/-- The greatest exponent. -/
def maxExponent : Int := 971

/-- The mantissas have 53 bits: they are below this number, `2 ^ 53`. -/
def mantissaBound : Nat := 9007199254740992

/-- The least mantissa with all 53 bits, `2 ^ 52`. -/
def fullMantissa : Nat := 4503599627370496

/-- A power of two; one for a negative exponent. -/
def twoTo (e : Int) : Nat := Nat.pow 2 e.toNat

/-- A power of ten; one for a negative exponent. -/
def tenTo (e : Int) : Nat := Nat.pow 10 e.toNat

/-- Zero, with a sign. -/
def zero (negative : Bool) : Binary64 :=
  ⟨negative, 0, minExponent⟩

/-- The natural number nearest to `num / den`; a tie goes to the even one. -/
def nearest (num den : Nat) : Nat :=
  let q := num / den
  let r := num % den
  if 2 * r < den then q
  else if den < 2 * r then q + 1
  else if q % 2 = 0 then q
  else q + 1

/-- `num / den / 2 ^ e` as a pair of natural numbers. -/
def scaleDown (num den : Nat) (e : Int) : Nat × Nat :=
  (num * twoTo (-e), den * twoTo e)

/-- The exponent at which `num / den` has a mantissa of 53 bits, or the least
exponent if that is greater. -/
def exponentFor (num den : Nat) : Int :=
  let low : Int := (num.log2 : Int) - (den.log2 : Int) - 53
  let scaled := scaleDown num den low
  max minExponent (if scaled.1 / scaled.2 < mantissaBound then low else low + 1)

/-- The number nearest to `num / den`; `none` if it is not finite. -/
def ofRatio (negative : Bool) (num den : Nat) : Option Binary64 :=
  if num = 0 then some (zero negative)
  else
    let e := exponentFor num den
    let scaled := scaleDown num den e
    let m := nearest scaled.1 scaled.2
    let canonical : Nat × Int := if m = mantissaBound then (fullMantissa, e + 1) else (m, e)
    if maxExponent < canonical.2 then none else some ⟨negative, canonical.1, canonical.2⟩

/-- The rounded product. -/
def mul (x y : Binary64) : Option Binary64 :=
  let e := x.exponent + y.exponent
  ofRatio (x.negative != y.negative)
    (x.mantissa * y.mantissa * twoTo e) (twoTo (-e))

/-- The rounded quotient by a number that is not zero. -/
def div (x y : Binary64) : Option Binary64 :=
  let e := x.exponent - y.exponent
  ofRatio (x.negative != y.negative)
    (x.mantissa * twoTo e) (y.mantissa * twoTo (-e))

/-- The number nearest to `digits * 10 ^ e`. Numerals far outside the range
are settled by their number of digits alone. -/
def ofDecimal (negative : Bool) (digits : Nat) (e : Int) : Option Binary64 :=
  let magnitude : Int := (Nat.toDigits 10 digits).length + e
  if digits = 0 ∨ magnitude < -330 then some (zero negative)
  else if 330 < magnitude then none
  else ofRatio negative (digits * tenTo e) (tenTo (-e))

/-- The number nearest to a power of ten, for exponents up to 308. -/
def powerOfTen (e : Int) : Binary64 :=
  (ofRatio false (tenTo e) 1).getD (zero false)

/-- `x` scaled by `10 ^ e` in double precision: one rounded power of ten
multiplies or divides it, after steps of `10 ^ 308` where the exponent is
beyond the powers there are. -/
def scale (x : Binary64) (e : Int) : Option Binary64 :=
  if e.natAbs ≤ 308 then
    if 0 ≤ e then x.mul (powerOfTen e) else x.div (powerOfTen (-e))
  else if x.mantissa = 0 then some x
  else if 0 ≤ e then none
  else
    match x.div (powerOfTen 308) with
    | none => none
    | some y => scale y (e + 308)
termination_by e.natAbs

/-! ### The shortest numeral that reads back -/

/-- The rounding interval of a number over a common denominator, in quarters
of its last place: its ends and the number itself. -/
structure Interval where
  lower : Nat
  middle : Nat
  upper : Nat
  closed : Bool

/-- The interval of the reals that round to `x`. Below a power of two the gap
is half as wide; the ends belong to it when the mantissa is even. -/
def interval (x : Binary64) : Interval :=
  let m := 4 * x.mantissa
  { lower := if x.mantissa = fullMantissa ∧ minExponent < x.exponent then m - 1 else m - 2
    middle := m
    upper := m + 2
    closed := x.mantissa % 2 = 0 }

/-- The point of the grid of the multiples of `10 ^ s` in the interval of `x`
that is nearest to `x`, counted in units of `10 ^ s`, if the grid has one; a
tie goes to the even one. -/
def gridPoint (x : Binary64) (s : Int) : Option Nat :=
  let i := x.interval
  let q := x.exponent - 2
  let unit := tenTo s * twoTo (-q)
  let quarter := twoTo q * tenTo (-s)
  let low := i.middle * quarter / unit
  let inside (d : Nat) : Bool :=
    let p := d * unit
    (i.lower * quarter < p || i.closed && i.lower * quarter = p) &&
      (p < i.upper * quarter || i.closed && p = i.upper * quarter)
  let below := i.middle * quarter - low * unit
  let above := (low + 1) * unit - i.middle * quarter
  match inside low, inside (low + 1) with
  | true, true =>
    if below < above || below = above && low % 2 = 0 then some low else some (low + 1)
  | true, false => some low
  | false, true => some (low + 1)
  | false, false => none

/-- The first grid with a point, from `10 ^ s` down over `n` grids, and the
point. -/
def coarsest (x : Binary64) : Nat → Int → Nat × Int
  | 0, s => (0, s)
  | n + 1, s =>
    match x.gridPoint s with
    | some d => (d, s)
    | none => coarsest x n (s - 1)

/-- The shortest digits of a number that is not zero and the power of ten
they count. -/
def shortest (x : Binary64) : Nat × Int :=
  let top : Int := (((x.mantissa.log2 : Int) + x.exponent) * 30103).fdiv 100000 + 2
  coarsest x 20 top

/-- The digits laid out with `point` of them before the decimal point. -/
def positional (digits : List Char) (point : Int) : List Char :=
  if point ≤ 0 then '0' :: '.' :: List.replicate (-point).toNat '0' ++ digits
  else if (digits.length : Int) ≤ point then
    digits ++ List.replicate (point.toNat - digits.length) '0' ++ ['.', '0']
  else digits.take point.toNat ++ '.' :: digits.drop point.toNat

/-- The digits laid out with one of them before the decimal point, and the
signed exponent. -/
def scientific (digits : List Char) (e : Int) : List Char :=
  let mantissa :=
    match digits with
    | [] => []
    | [d] => [d]
    | d :: ds => d :: '.' :: ds
  mantissa ++ 'e' :: (if e < 0 then '-' else '+') :: Nat.toDigits 10 e.natAbs

/-- The decimal text of a number. -/
def text (x : Binary64) : String :=
  let magnitude :=
    if x.mantissa = 0 then ['0', '.', '0']
    else
      let (d, s) := x.shortest
      let digits := Nat.toDigits 10 d
      let point : Int := digits.length + s
      if -5 < point ∧ point ≤ 16 then positional digits point
      else scientific digits (point - 1)
  String.ofList (if x.negative then '-' :: magnitude else magnitude)

end Binary64
end SchemaTypes
