/-
# Places in a YAML text

A cursor is a place in a text: what is left from there, how many bytes came
before, and the line and column. It goes forward by characters of a line or
over a line break. Five characters break a line; a carriage return and a line
feed together are one break. A column is counted in characters.

Key definitions: `Yaml.Cursor`, `Yaml.Cursor.advance`, `Yaml.Cursor.newline`.
-/
import SchemaTypes.Text.Parts

namespace SchemaTypes.Yaml

/-- Why a text is no acceptable YAML document. -/
inductive Fault where
  /-- A character that no YAML text may hold. -/
  | character
  /-- A token that is not formed as it has to be. -/
  | token
  /-- A token in a place where it may not stand. -/
  | misplaced
  /-- A second document. -/
  | documents
  /-- A tag that is not known or does not fit its value. -/
  | tag
  /-- An alias without an anchor before it. -/
  | anchor
  /-- A key that is no scalar. -/
  | key
  /-- A number beyond the range of integers. -/
  | number
  /-- Too many collections inside each other, or too many aliases. -/
  | limit
deriving DecidableEq, Repr

/-- A space or a tab. -/
def isBlank (c : Char) : Bool :=
  c = ' ' || c = '\t'

/-- A character that breaks a line. -/
def isBreak (c : Char) : Bool :=
  c = '\r' || c = '\n' || c = '\u0085' || c = '\u2028' || c = '\u2029'

/-- A letter of a name: an ASCII letter or digit, a dash or an underscore. -/
def isNameChar (c : Char) : Bool :=
  c.isAlphanum || c = '-' || c = '_'

/-- A character that a YAML text may hold. -/
def isAllowed (c : Char) : Bool :=
  let n := c.toNat
  n = 0x09 || n = 0x0A || n = 0x0D || (0x20 ≤ n && n ≤ 0x7E) || n = 0x85 ||
    (0xA0 ≤ n && n ≤ 0xD7FF) || (0xE000 ≤ n && n ≤ 0xFFFD) || 0x10000 ≤ n

/-- The text ends here, or a blank or a line break follows. -/
def endsWord : List Char → Bool
  | [] => true
  | c :: _ => isBlank c || isBreak c

/-- The text ends here, or a line break follows. -/
def endsLine : List Char → Bool
  | [] => true
  | c :: _ => isBreak c

/-- A place in a text. -/
structure Cursor where
  rest : List Char
  /-- The width of the text before. -/
  index : Nat := 0
  line : Nat := 0
  column : Nat := 0
deriving Repr

namespace Cursor

/-- Goes over characters of the line. -/
def advance (c : Cursor) (n : Nat) : Cursor :=
  { c with
    rest := c.rest.drop n
    index := c.index + Text.width (c.rest.take n)
    column := c.column + n }

/-- Goes over a line break. -/
def newline (c : Cursor) : Cursor :=
  match c.rest with
  | '\r' :: '\n' :: cs => { rest := cs, index := c.index + 2, line := c.line + 1 }
  | ch :: cs => { rest := cs, index := c.index + ch.utf8Size, line := c.line + 1 }
  | [] => c

/-- Goes over the characters of the line that pass a test. -/
def skipWhile (p : Char → Bool) (c : Cursor) : Cursor :=
  c.advance (c.rest.takeWhile p).length

/-- Goes to the end of the line. -/
def skipLine (c : Cursor) : Cursor :=
  c.skipWhile fun ch => !isBreak ch

/-- What a line break at the cursor stands for: a line feed, unless it is a
line or paragraph separator. -/
def breakText (c : Cursor) : List Char :=
  match c.rest with
  | '\u2028' :: _ => ['\u2028']
  | '\u2029' :: _ => ['\u2029']
  | _ :: _ => ['\n']
  | [] => []

/-- Three dashes or three dots at the start of a line, with nothing joined to
them. -/
def atIndicator (c : Cursor) : Bool :=
  c.column = 0 &&
    (['-', '-', '-'].isPrefixOf c.rest || ['.', '.', '.'].isPrefixOf c.rest) &&
    endsWord (c.rest.drop 3)

theorem advance_length {c : Cursor} {n : Nat} (hn : 0 < n) (hc : c.rest ≠ []) :
    (c.advance n).rest.length < c.rest.length := by
  have := List.length_pos_iff.2 hc
  simp only [advance, List.length_drop]
  omega

theorem advance_length_le (c : Cursor) (n : Nat) :
    (c.advance n).rest.length ≤ c.rest.length := by
  simp only [advance, List.length_drop]
  omega

theorem newline_length {c : Cursor} (hc : c.rest ≠ []) :
    c.newline.rest.length < c.rest.length := by
  unfold newline
  split
  · rename_i h
    simp only [h, List.length_cons]
    omega
  · rename_i h
    simp only [h, List.length_cons]
    omega
  · rename_i h
    exact absurd h hc

/-- The next line is behind the cursor. -/
theorem nextLine_length {c : Cursor} (hc : c.rest ≠ []) :
    c.skipLine.newline.rest.length < c.rest.length := by
  by_cases h : c.skipLine.rest = []
  · have hn : c.skipLine.newline.rest = [] := by
      unfold newline
      split <;> simp_all
    rw [hn]
    exact List.length_pos_iff.2 hc
  · exact Nat.lt_of_lt_of_le (newline_length h) (advance_length_le c _)

end Cursor
end SchemaTypes.Yaml
