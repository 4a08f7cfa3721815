/-
# Reading JSON text

The grammar of RFC 8259 and nothing else: blanks are space, tab, line feed
and carriage return; a string holds no raw control character and no half of a
surrogate pair; of a repeated key the first place and the last value stay.
At most 127 arrays and objects may be open at a time.

A text is refused either because it ends too early or because something
stands where it may not; the fault says which.

A numeral is a sign, digits, and perhaps a fraction and an exponent. Without
fraction and exponent it is an integer, as long as it lies in the range of
integers; minus zero and all else is in double precision. The significand of
such a number is kept in 64 bits: digits that do not fit any more only count
for the power of ten (before the point) or are left out (behind it). It is
rounded, and the power of ten then scales it with a rounding of its own.

Key definitions: `Json.Numeral`, `Json.Numeral.number?`, `Json.Fault`,
`Json.parse`.
-/
import SchemaTypes.Json.Basic

namespace SchemaTypes.Json

/-! ### The number of a numeral -/

/-- A JSON numeral, in digits. -/
structure Numeral where
  negative : Bool
  whole : List Char
  fraction : Option (List Char) := none
  exponent : Option (Bool × List Char) := none

namespace Numeral

/-- Appends digits to a significand while it stays below `2 ^ 64`; the number
of digits left over comes with it. -/
def accumulate (significand : Nat) : List Char → Nat × Nat
  | [] => (significand, 0)
  | d :: ds =>
    let next := Nat.ofDigitChars 10 [d] significand
    if next ≤ 18446744073709551615 then accumulate next ds else (significand, ds.length + 1)

/-- The power of ten that the exponent gives. -/
def tens : Option (Bool × List Char) → Int
  | none => 0
  | some (false, digits) => Nat.ofDigitChars 10 digits 0
  | some (true, digits) => -Nat.ofDigitChars 10 digits 0

/-- The numeral in double precision; `none` if it is not finite. -/
def float? (n : Numeral) : Option Binary64 :=
  let fraction := n.fraction.getD []
  let (whole, extra) := accumulate 0 n.whole
  let (significand, dropped) := accumulate whole fraction
  let e : Int := extra - (fraction.length - dropped) + tens n.exponent
  match Binary64.ofRatio n.negative significand 1 with
  | none => none
  | some x => x.scale e

/-- The number a numeral stands for; `none` if it is beyond double
precision. -/
def number? (n : Numeral) : Option Number :=
  if n.fraction.isNone && n.exponent.isNone then
    let value : Int :=
      if n.negative then -Nat.ofDigitChars 10 n.whole 0 else Nat.ofDigitChars 10 n.whole 0
    if h : (-9223372036854775808 ≤ value ∧ value ≤ 18446744073709551615) ∧
        ¬ (n.negative ∧ value = 0) then
      some (.integer value h.1.1 h.1.2)
    else n.float?.map .float
  else n.float?.map .float

end Numeral

/-! ### Parsing -/

/-- Why a text is no JSON text. -/
inductive Fault where
  /-- The text ends in the middle of a value. -/
  | endOfText
  /-- Something stands where it may not, or a number is too large. -/
  | malformed
deriving DecidableEq, Repr

namespace Parser

open Text (hexValue?)

/-- Reads something from the front of a text; the rest of the text is given
back with it. -/
abbrev Reader (α : Type) := List Char → Except Fault (α × List Char)

/-- A blank between the parts of a JSON text. -/
def isSpace (c : Char) : Bool :=
  c = ' ' || c = '\t' || c = '\n' || c = '\r'

/-- The text behind the blanks it starts with. -/
def skip (cs : List Char) : List Char :=
  cs.dropWhile isSpace

/-- The fault of a text that cannot go on: it has ended, or it goes on in
another way. -/
def stuck (cs : List Char) : Fault :=
  if cs.isEmpty then .endOfText else .malformed

/-! ### Strings -/

/-- Four hexadecimal digits. A text of fewer than four bytes has ended too
early, whatever it holds. -/
def hexUnit : Reader Nat
  | a :: b :: c :: d :: cs =>
    match hexValue? a, hexValue? b, hexValue? c, hexValue? d with
    | some a, some b, some c, some d => .ok (((a * 16 + b) * 16 + c) * 16 + d, cs)
    | _, _, _, _ => .error .malformed
  | cs => .error (if (String.ofList cs).utf8ByteSize < 4 then .endOfText else .malformed)

/-- The second half of a surrogate pair, with its backslash. -/
def lowSurrogate : Reader Nat
  | '\\' :: 'u' :: cs =>
    match hexUnit cs with
    | .ok (n, rest) => if 0xDC00 ≤ n ∧ n ≤ 0xDFFF then .ok (n, rest) else .error .malformed
    | .error e => .error e
  | ['\\'] => .error .endOfText
  | cs => .error (stuck cs)

/-- The character that a single letter or sign behind a backslash stands
for. -/
def shortEscape? (c : Char) : Option Char :=
  if c = '"' ∨ c = '\\' ∨ c = '/' then some c
  else if c = 'b' then some '\x08'
  else if c = 'f' then some '\x0c'
  else if c = 'n' then some '\n'
  else if c = 'r' then some '\r'
  else if c = 't' then some '\t'
  else none

/-- The character of an escape by code unit, behind its `\u`. -/
def unicodeEscape : Reader Char := fun cs =>
  match hexUnit cs with
  | .error e => .error e
  | .ok (n, rest) =>
    if 0xDC00 ≤ n ∧ n ≤ 0xDFFF then .error .malformed
    else if 0xD800 ≤ n ∧ n ≤ 0xDBFF then
      match lowSurrogate rest with
      | .error e => .error e
      | .ok (low, rest) =>
        .ok (Char.ofNat (0x10000 + (n - 0xD800) * 0x400 + (low - 0xDC00)), rest)
    else .ok (Char.ofNat n, rest)

/-- The character of an escape, behind its backslash. -/
def escaped : Reader Char
  | [] => .error .endOfText
  | c :: cs =>
    match shortEscape? c with
    | some d => .ok (d, cs)
    | none => if c = 'u' then unicodeEscape cs else .error .malformed

theorem hexUnit_length {cs rest : List Char} {n : Nat} (h : hexUnit cs = .ok (n, rest)) :
    rest.length < cs.length := by
  unfold hexUnit at h
  split at h
  · split at h
    · cases h
      simp only [List.length_cons]
      omega
    · cases h
  · cases h

theorem lowSurrogate_length {cs rest : List Char} {n : Nat}
    (h : lowSurrogate cs = .ok (n, rest)) : rest.length < cs.length := by
  unfold lowSurrogate at h
  split at h
  · split at h
    · rename_i hu
      split at h
      · cases h
        have := hexUnit_length hu
        simp only [List.length_cons]
        omega
      · cases h
    · cases h
  · cases h
  · cases h

theorem unicodeEscape_length {cs rest : List Char} {c : Char}
    (h : unicodeEscape cs = .ok (c, rest)) : rest.length < cs.length := by
  unfold unicodeEscape at h
  split at h
  · cases h
  · rename_i hu
    have hlt := hexUnit_length hu
    split at h
    · cases h
    · split at h
      · split at h
        · cases h
        · rename_i hl
          have := lowSurrogate_length hl
          simp only [Except.ok.injEq, Prod.mk.injEq] at h
          rw [← h.2]
          omega
      · simp only [Except.ok.injEq, Prod.mk.injEq] at h
        rw [← h.2]
        omega

theorem escaped_length {cs rest : List Char} {c : Char} (h : escaped cs = .ok (c, rest)) :
    rest.length < cs.length := by
  unfold escaped at h
  split at h
  · cases h
  · split at h
    · cases h
      simp only [List.length_cons, Nat.lt_add_one]
    · split at h
      · have := unicodeEscape_length h
        simp only [List.length_cons]
        omega
      · cases h

/-- The characters of a string and the text behind its closing quote. -/
def string (cs : List Char) : Except Fault (List Char × List Char) :=
  match cs with
  | [] => .error .endOfText
  | '"' :: rest => .ok ([], rest)
  | '\\' :: rest =>
    match _h : escaped rest with
    | .error e => .error e
    | .ok (c, tail) => (string tail).map fun p => (c :: p.1, p.2)
  | c :: rest =>
    if c.toNat < 0x20 then .error .malformed
    else (string rest).map fun p => (c :: p.1, p.2)
termination_by cs.length
decreasing_by
  · have := escaped_length _h
    simp only [List.length_cons]
    omega
  · simp only [List.length_cons, Nat.lt_add_one]

/-! ### Numbers -/

/-- The exponent of a numeral, if there is one: whether it is negative, and
its digits. -/
def exponent : Reader (Option (Bool × List Char))
  | c :: cs =>
    if c = 'e' ∨ c = 'E' then
      let (negative, rest) :=
        match cs with
        | '+' :: rest => (false, rest)
        | '-' :: rest => (true, rest)
        | rest => (false, rest)
      match rest.takeWhile Char.isDigit with
      | [] => .error (stuck rest)
      | digits => .ok (some (negative, digits), rest.dropWhile Char.isDigit)
    else .ok (none, c :: cs)
  | [] => .ok (none, [])

/-- The fraction of a numeral, if there is one. -/
def fraction : Reader (Option (List Char))
  | '.' :: cs =>
    match cs.takeWhile Char.isDigit with
    | [] => .error (stuck cs)
    | digits => .ok (some digits, cs.dropWhile Char.isDigit)
  | cs => .ok (none, cs)

/-- The digits before the fraction: a zero alone, or digits that start with
none. -/
def whole : Reader (List Char)
  | '0' :: cs =>
    match cs with
    | c :: _ => if c.isDigit then .error .malformed else .ok (['0'], cs)
    | [] => .ok (['0'], [])
  | cs =>
    match cs.takeWhile Char.isDigit with
    | [] => .error (stuck cs)
    | digits => .ok (digits, cs.dropWhile Char.isDigit)

/-- The sign of a numeral. -/
def sign : List Char → Bool × List Char
  | '-' :: cs => (true, cs)
  | cs => (false, cs)

/-- A numeral. -/
def numeral : Reader Numeral := fun cs => do
  let (negative, cs) := sign cs
  let (whole, cs) ← whole cs
  let (fraction, cs) ← fraction cs
  let (exponent, cs) ← exponent cs
  pure (⟨negative, whole, fraction, exponent⟩, cs)

/-- A number. -/
def number : Reader Number := fun cs => do
  let (n, cs) ← numeral cs
  match n.number? with
  | some n => pure (n, cs)
  | none => throw .malformed

/-! ### Values -/

/-- The letters of a literal name. -/
def word : List Char → List Char → Except Fault (List Char)
  | [], cs => .ok cs
  | _ :: _, [] => .error .endOfText
  | w :: ws, c :: cs => if w = c then word ws cs else .error .malformed

/-- The items of an array from its first item on. The number bounds the
items: a text has fewer of them than characters. -/
def items (value : Reader Json) : Nat → Reader (List Json)
  | 0, _ => .error .malformed
  | n + 1, cs => do
    let (v, cs) ← value cs
    match skip cs with
    | ',' :: cs =>
      let (vs, cs) ← items value n cs
      pure (v :: vs, cs)
    | ']' :: cs => pure ([v], cs)
    | cs => throw (stuck cs)

/-- One member of an object: a quoted key, a colon and a value. -/
def member (value : Reader Json) : Reader (String × Json) := fun cs =>
  match skip cs with
  | '"' :: cs => do
    let (key, cs) ← string cs
    match skip cs with
    | ':' :: cs =>
      let (v, cs) ← value cs
      pure ((String.ofList key, v), cs)
    | cs => throw (stuck cs)
  | cs => .error (stuck cs)

/-- The members of an object from its first member on, bounded in the same
way. -/
def members (value : Reader Json) : Nat → Reader (List (String × Json))
  | 0, _ => .error .malformed
  | n + 1, cs => do
    let (m, cs) ← member value cs
    match skip cs with
    | ',' :: cs =>
      let (ms, cs) ← members value n cs
      pure (m :: ms, cs)
    | '\x7d' :: cs => pure ([m], cs)
    | cs => throw (stuck cs)

/-- A value. `inner` reads the values inside it; without one no array or
object may be opened any more. -/
def valueWith (inner : Option (Reader Json)) : Reader Json := fun cs =>
  match skip cs with
  | [] => .error .endOfText
  | 'n' :: cs => do pure (.null, ← word ['u', 'l', 'l'] cs)
  | 't' :: cs => do pure (.bool true, ← word ['r', 'u', 'e'] cs)
  | 'f' :: cs => do pure (.bool false, ← word ['a', 'l', 's', 'e'] cs)
  | '"' :: cs => do
    let (s, cs) ← string cs
    pure (.string (String.ofList s), cs)
  | '[' :: cs =>
    match inner with
    | none => .error .malformed
    | some value =>
      match skip cs with
      | ']' :: cs => .ok (.array [], cs)
      | _ => do
        let (vs, cs) ← items value (cs.length + 1) cs
        pure (.array vs, cs)
  | '\x7b' :: cs =>
    match inner with
    | none => .error .malformed
    | some value =>
      match skip cs with
      | '\x7d' :: cs => .ok (.object [], cs)
      | _ => do
        let (ms, cs) ← members value (cs.length + 1) cs
        pure (.object (Entries.collect ms []), cs)
  | c :: cs =>
    if c = '-' || c.isDigit then do
      let (n, cs) ← number (c :: cs)
      pure (.number n, cs)
    else .error .malformed

/-- A value in which at most `depth` arrays and objects are open at a time. -/
def value : Nat → Reader Json
  | 0 => valueWith none
  | depth + 1 => valueWith (some (value depth))

end Parser

/-- How many arrays and objects may be open at a time. -/
def maxDepth : Nat := 127

/-- The value of a JSON text. -/
def parse (text : String) : Except Fault Json := do
  let (v, rest) ← Parser.value maxDepth text.toList
  if (Parser.skip rest).isEmpty then pure v else throw .malformed

end SchemaTypes.Json
