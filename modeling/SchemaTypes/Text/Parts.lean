/-
# Parts of a text

A text can be trimmed, split at every character that separates, and cut at
places counted in bytes. A character is blank when Unicode gives it the property
White_Space: 25 code points, more than the six that `Char.isWhitespace` knows.
The pieces of a split text and the separators together are the text, so there is
one piece more than there are separators. A character takes one to four bytes in
UTF-8, and the width of a text is the number of its bytes; a place in a text can
be given by the width of what comes before it. A place inside of a character
cuts behind it.

Key definitions: `isBlank`, `trimStart`, `trim`, `split`, `splitString`,
`width`, `takeBytes`, `dropBytes`.
-/

namespace SchemaTypes.Text

/-! ### Blanks at the ends -/

/-- The code points with the Unicode property White_Space, as closed ranges. -/
def blankRanges : List (Nat × Nat) :=
  [(0x09, 0x0D), (0x20, 0x20), (0x85, 0x85), (0xA0, 0xA0), (0x1680, 0x1680), (0x2000, 0x200A),
   (0x2028, 0x2029), (0x202F, 0x202F), (0x205F, 0x205F), (0x3000, 0x3000)]

/-- A character with the property White_Space. -/
def isBlank (c : Char) : Bool :=
  blankRanges.any fun r => r.1 ≤ c.toNat && c.toNat ≤ r.2

/-- The text without the blanks it starts with. -/
def trimStart (cs : List Char) : List Char :=
  cs.dropWhile isBlank

/-- The text without the blanks at either end. -/
def trim (cs : List Char) : List Char :=
  (trimStart (trimStart cs).reverse).reverse

/-! ### Pieces between separators -/

/-- The pieces of a text between separators. -/
def split (isSeparator : Char → Bool) : List Char → List (List Char)
  | [] => [[]]
  | c :: cs =>
    if isSeparator c then [] :: split isSeparator cs
    else
      match split isSeparator cs with
      | p :: ps => (c :: p) :: ps
      | [] => [[c]]

/-- The pieces of a string between separators, without the empty ones. -/
def splitString (isSeparator : Char → Bool) (text : String) : List String :=
  ((split isSeparator text.toList).filter (· ≠ [])).map String.ofList

/-! ### Places counted in bytes -/

/-- The number of bytes that a text takes in UTF-8. -/
def width : List Char → Nat
  | [] => 0
  | c :: cs => c.utf8Size + width cs

/-- The characters that begin within the first `n` bytes of a text. -/
def takeBytes : Nat → List Char → List Char
  | 0, _ => []
  | _ + 1, [] => []
  | n + 1, c :: cs => c :: takeBytes (n + 1 - c.utf8Size) cs

/-- The text behind the characters that begin within its first `n` bytes. -/
def dropBytes : Nat → List Char → List Char
  | 0, cs => cs
  | _ + 1, [] => []
  | n + 1, c :: cs => dropBytes (n + 1 - c.utf8Size) cs

/-- The text from one place up to another. -/
def sliceBytes (start stop : Nat) (cs : List Char) : List Char :=
  dropBytes start (takeBytes stop cs)

end SchemaTypes.Text
