/-
# YAML tokens, and those that begin with a sign

The marks and scalars that a YAML text is made of. The start and the end of a
block collection are tokens too, though the text shows them by indentation
only. The text of a tag is bytes: its escapes can write what is no UTF-8.

The tokens that begin with a sign and a name are anchors and aliases, tags, and
the directives in front of a document. A tag is a handle and a suffix; a tag
between angle brackets has an empty handle, and a lone exclamation mark is a
suffix without a handle.

Key definitions: `Yaml.Token`, `Yaml.TagText`, `Yaml.name`, `Yaml.tag`,
`Yaml.directive`.
-/
import SchemaTypes.Yaml.Scalar

namespace SchemaTypes.Yaml

/-- The text of a tag, or of a part of it. -/
abbrev TagText := List UInt8

/-- The bytes of a text. -/
def TagText.ofString (s : String) : TagText :=
  s.toUTF8.data.toList

/-- A token of a YAML text. -/
inductive Token where
  | version (major minor : Nat)
  | tagDirective (handle : String) (start : TagText)
  | documentStart
  | documentEnd
  | blockSequenceStart
  | blockMappingStart
  | blockEnd
  | flowSequenceStart
  | flowSequenceEnd
  | flowMappingStart
  | flowMappingEnd
  | blockEntry
  | flowEntry
  | key
  | value
  | aliasOf (name : String)
  | anchor (name : String)
  | tag (handle : String) (suffix : TagText)
  /-- A scalar; a plain one has no quotes and is no block. -/
  | scalar (isPlain : Bool) (text : String)
deriving DecidableEq, Repr

/-! ### Tokens that begin with a sign -/

open Text (hexValue?)

/-- A character that may stand behind the name of an anchor. -/
def mayFollowName (cs : List Char) : Bool :=
  endsWord cs ||
    match cs with
    | c :: _ => c = '?' || c = ':' || c = ',' || c = ']' || c = '\x7d' || c = '%' || c = '@' || c = '\x60'
    | [] => true

/-- The name behind the sign of an anchor or an alias. -/
def name (c : Cursor) : Except Fault (String × Cursor) :=
  let letters := c.rest.takeWhile isNameChar
  let next := c.skipWhile isNameChar
  if letters.isEmpty || !mayFollowName next.rest then .error .token
  else .ok (String.ofList letters, next)

/-- A character of a tag; inside angle brackets there are three more. -/
def isTagChar (inBrackets : Bool) (c : Char) : Bool :=
  isNameChar c || ";/?:@&=+$.!~*'()%".toList.contains c ||
    (inBrackets && (c = ',' || c = '[' || c = ']'))

/-- The number of bytes that the first byte of a character announces. -/
def announced? (n : Nat) : Option Nat :=
  if n < 0x80 then some 1
  else if n < 0xC0 then none
  else if n < 0xE0 then some 2
  else if n < 0xF0 then some 3
  else if n < 0xF8 then some 4
  else none

/-- The bytes of characters in which `%` and two digits stand for a byte.
`pending` more bytes belong to the character that has begun; only that they
are bytes of that kind is asked, not that there is such a character. -/
def percentBytes (pending : Nat) (cs : List Char) : Option TagText :=
  match cs with
  | [] => if pending = 0 then some [] else none
  | '%' :: a :: b :: cs => do
    let n := (← hexValue? a) * 16 + (← hexValue? b)
    let missing ←
      if pending = 0 then announced? n
      else if 0x80 ≤ n && n < 0xC0 then some pending
      else none
    pure (UInt8.ofNat n :: (← percentBytes (missing - 1) cs))
  | '%' :: _ => none
  | c :: cs => if pending = 0 then do pure (c.toUInt8 :: (← percentBytes 0 cs)) else none

/-- The characters of a tag. `hasHead` says that a part of it came before. -/
def tagText (inBrackets hasHead : Bool) (c : Cursor) : Except Fault (TagText × Cursor) :=
  let raw := c.rest.takeWhile (isTagChar inBrackets)
  if raw.isEmpty && !hasHead then .error .token
  else
    match percentBytes 0 raw with
    | none => .error .token
    | some bytes => .ok (bytes, c.advance raw.length)

/-- A part of a tag as it is kept: a zero byte ends it. -/
def tagPart (bytes : TagText) : TagText :=
  bytes.takeWhile (· ≠ 0)

/-- A tag, from its exclamation mark on: its handle and its suffix. -/
def tag (inFlow : Bool) (c : Cursor) : Except Fault ((String × TagText) × Cursor) := do
  let (result, c) ←
    if c.rest[1]? = some '<' then do
      let (suffix, c) ← tagText true false (c.advance 2)
      if c.rest.head? ≠ some '>' then throw .token
      pure (("", tagPart suffix), c.advance 1)
    else do
      let first := c.advance 1
      let letters := first.rest.takeWhile isNameChar
      let behind := first.advance letters.length
      if behind.rest.head? = some '!' then
        let (suffix, c) ← tagText false false (behind.advance 1)
        pure ((String.ofList ('!' :: letters ++ ['!']), tagPart suffix), c)
      else
        let (suffix, c) ← tagText false true behind
        let suffix := tagPart (letters.map Char.toUInt8 ++ suffix)
        if suffix.isEmpty then pure (("", TagText.ofString "!"), c)
        else pure (("!", suffix), c)
  if !endsWord c.rest && !(inFlow && c.rest.head? = some ',') then throw .token
  pure (result, c)

/-- A number of a version. -/
def versionNumber (c : Cursor) : Except Fault (Nat × Cursor) :=
  let digits := c.rest.takeWhile Char.isDigit
  if digits.isEmpty || 9 < digits.length then .error .token
  else .ok (Nat.ofDigitChars 10 digits 0, c.advance digits.length)

/-- A directive, from its percent sign to behind its line. -/
def directive (c : Cursor) : Except Fault (Token × Cursor) := do
  let start := c.advance 1
  let word := start.rest.takeWhile isNameChar
  let c := start.advance word.length
  if word.isEmpty || !endsWord c.rest then throw .token
  let c := c.skipWhile isBlank
  let (token, c) ←
    if word = "YAML".toList then do
      let (major, c) ← versionNumber c
      if c.rest.head? ≠ some '.' then throw .token
      let (minor, c) ← versionNumber (c.advance 1)
      pure (.version major minor, c)
    else if word = "TAG".toList then do
      if c.rest.head? ≠ some '!' then throw .token
      let letters := (c.advance 1).rest.takeWhile isNameChar
      let behind := (c.advance 1).advance letters.length
      let closed := behind.rest.head? = some '!'
      if !closed && !letters.isEmpty then throw .token
      let handle := if closed then '!' :: letters ++ ['!'] else ['!']
      let c := if closed then behind.advance 1 else behind
      if !(c.rest.head?.any isBlank) then throw .token
      let (start, c) ← tagText true false (c.skipWhile isBlank)
      if !endsWord c.rest then throw .token
      pure (.tagDirective (String.ofList handle) (tagPart start), c)
    else throw .token
  let c := c.skipWhile isBlank
  let c := if c.rest.head? = some '#' then c.skipLine else c
  if !endsLine c.rest then throw .token
  pure (token, c.newline)

end SchemaTypes.Yaml
