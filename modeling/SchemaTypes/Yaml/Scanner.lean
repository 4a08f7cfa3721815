/-
# From text to tokens

Tokens are taken from the text one after another. Indentation outside of flow
collections opens and closes block collections. What turns out to be a key
only when its colon comes is remembered with the number of its token, so that
the mark of a key, and the start of a mapping, can be set in front of it: such
a key stands on one line and within 1024 bytes.

Key definitions: `Yaml.Scanner`, `Yaml.Scanner.next`, `Yaml.tokens`.
-/
import SchemaTypes.Yaml.Tag

namespace SchemaTypes.Yaml

/-- A token that may turn out to start a key. -/
structure PossibleKey where
  /-- The text cannot go on in another way. -/
  required : Bool
  /-- How many tokens are in front of it. -/
  tokenNumber : Nat
  place : Cursor

/-- How far a text has been scanned. -/
structure Scanner where
  cursor : Cursor
  /-- The tokens so far. -/
  tokens : Array Token := #[]
  /-- The column of the block collection around the cursor. -/
  indent : Int := -1
  /-- The columns of the block collections around that one. -/
  outer : List Int := []
  /-- A key without a mark of its own may start here. -/
  keyAllowed : Bool := true
  /-- The possible key outside of flow collections. -/
  blockKey : Option PossibleKey := none
  /-- The possible keys of the flow collections around the cursor, the
  innermost first. -/
  flowKeys : List (Option PossibleKey) := []

namespace Scanner

/-- The cursor is inside of a flow collection. -/
def inFlow (s : Scanner) : Bool :=
  !s.flowKeys.isEmpty

/-- The possible key of the collection around the cursor. -/
def possibleKey (s : Scanner) : Option PossibleKey :=
  match s.flowKeys with
  | [] => s.blockKey
  | k :: _ => k

/-- Sets the possible key of the collection around the cursor. -/
def setPossibleKey (s : Scanner) (k : Option PossibleKey) : Scanner :=
  match s.flowKeys with
  | [] => { s with blockKey := k }
  | _ :: ks => { s with flowKeys := k :: ks }

/-- Adds a token and goes over its characters. -/
def add (s : Scanner) (t : Token) (length : Nat := 0) : Scanner :=
  { s with tokens := s.tokens.push t, cursor := s.cursor.advance length }

/-- Goes on to the next token: over blanks, comments and line breaks. A tab
is no indentation; a byte order mark may start a line. -/
def toToken (inFlow keyAllowed : Bool) (c : Cursor) : Cursor × Bool :=
  match _h : c.rest with
  | [] => (c, keyAllowed)
  | ch :: _ =>
    if ch = ' ' || (ch = '\t' && (inFlow || !keyAllowed)) || (c.column = 0 && ch = '\ufeff') then
      toToken inFlow keyAllowed (c.advance 1)
    else if ch = '#' then toToken inFlow keyAllowed (c.advance 1).skipLine
    else if isBreak ch then toToken inFlow (keyAllowed || !inFlow) c.newline
    else (c, keyAllowed)
termination_by c.rest.length
decreasing_by
  all_goals
    have hc : c.rest ≠ [] := by simp [_h]
    first
    | exact Cursor.advance_length (by omega) hc
    | exact Cursor.newline_length hc
    | exact Nat.lt_of_le_of_lt (Cursor.advance_length_le _ _) (Cursor.advance_length (by omega) hc)

/-- A possible key is lost at the end of its line and after 1024 bytes. -/
def expire (c : Cursor) : Option PossibleKey → Except Fault (Option PossibleKey)
  | none => .ok none
  | some k =>
    if k.place.line < c.line || k.place.index + 1024 < c.index then
      if k.required then .error .misplaced else .ok none
    else .ok (some k)

/-- Looks at all possible keys anew. -/
def expireKeys (s : Scanner) : Except Fault Scanner := do
  let blockKey ← expire s.cursor s.blockKey
  let flowKeys ← s.flowKeys.mapM (expire s.cursor)
  pure { s with blockKey, flowKeys }

/-- Gives up the possible key of the collection around the cursor. -/
def dropKey (s : Scanner) : Except Fault Scanner :=
  if s.possibleKey.any (·.required) then .error .misplaced else .ok (s.setPossibleKey none)

/-- Remembers that the next token may start a key. -/
def noteKey (s : Scanner) : Except Fault Scanner :=
  if s.keyAllowed then do
    let s ← s.dropKey
    pure (s.setPossibleKey (some
      { required := !s.inFlow && s.indent = (s.cursor.column : Int)
        tokenNumber := s.tokens.size
        place := s.cursor }))
  else .ok s

/-- Opens a block collection at a column, if that is further in. The token of
its start goes to the end or in front of the token with a number. -/
def openBlock (s : Scanner) (column : Nat) (t : Token) (number : Option Nat) : Scanner :=
  if s.inFlow || (column : Int) ≤ s.indent then s
  else
    let tokens :=
      match number with
      | none => s.tokens.push t
      | some n => s.tokens.insertIdxIfInBounds n t
    { s with indent := column, outer := s.indent :: s.outer, tokens }

/-- Closes the block collections that are further in than a column. -/
def closeTo (column : Int) (indent : Int) (tokens : Array Token) :
    List Int → Int × List Int × Array Token
  | [] => (indent, [], tokens)
  | o :: os =>
    if column < indent then closeTo column o (tokens.push .blockEnd) os
    else (indent, o :: os, tokens)

/-- Closes the block collections that are further in than a column, outside
of flow collections. -/
def closeBlocks (s : Scanner) (column : Int) : Scanner :=
  if s.inFlow then s
  else
    let (indent, outer, tokens) := closeTo column s.indent s.tokens s.outer
    { s with indent, outer, tokens }

/-- A directive or a mark of a document: it ends all collections. -/
def atTop (s : Scanner) : Except Fault Scanner := do
  let s ← (s.closeBlocks (-1)).dropKey
  pure { s with keyAllowed := false }

/-- The start of a flow collection. -/
def flowStart (s : Scanner) (t : Token) : Except Fault Scanner := do
  let s ← s.noteKey
  pure { (s.add t 1) with flowKeys := none :: s.flowKeys, keyAllowed := true }

/-- The end of a flow collection. -/
def flowEnd (s : Scanner) (t : Token) : Except Fault Scanner := do
  let s ← s.dropKey
  pure { (s.add t 1) with flowKeys := s.flowKeys.tail, keyAllowed := false }

/-- The comma of a flow collection. -/
def flowEntry (s : Scanner) : Except Fault Scanner := do
  let s ← s.dropKey
  pure { (s.add .flowEntry 1) with keyAllowed := true }

/-- The dash of a block sequence. -/
def blockEntry (s : Scanner) : Except Fault Scanner := do
  if !s.inFlow && !s.keyAllowed then throw .misplaced
  let s ← (s.openBlock s.cursor.column .blockSequenceStart none).dropKey
  pure { (s.add .blockEntry 1) with keyAllowed := true }

/-- The question mark of a key. -/
def keyMark (s : Scanner) : Except Fault Scanner := do
  if !s.inFlow && !s.keyAllowed then throw .misplaced
  let s ← (s.openBlock s.cursor.column .blockMappingStart none).dropKey
  pure { (s.add .key 1) with keyAllowed := !s.inFlow }

/-- The colon of a value, behind a possible key or on its own. -/
def valueMark (s : Scanner) : Except Fault Scanner := do
  match s.possibleKey with
  | some k =>
    let s := { s with tokens := s.tokens.insertIdxIfInBounds k.tokenNumber .key }
    let s := s.openBlock k.place.column .blockMappingStart (some k.tokenNumber)
    pure { ((s.setPossibleKey none).add .value 1) with keyAllowed := false }
  | none =>
    if !s.inFlow && !s.keyAllowed then throw .misplaced
    let s := s.openBlock s.cursor.column .blockMappingStart none
    pure { (s.add .value 1) with keyAllowed := !s.inFlow }

/-- A token that is part of a node: it may start a key, and none follows it
directly. -/
def nodeToken (s : Scanner) (read : Cursor → Except Fault (Token × Cursor)) :
    Except Fault Scanner := do
  let s ← s.noteKey
  let (t, cursor) ← read s.cursor
  pure { s with tokens := s.tokens.push t, cursor, keyAllowed := false }

/-- A plain scalar. If it goes over line breaks a key may follow it. -/
def plainToken (s : Scanner) : Except Fault Scanner := do
  let s ← s.noteKey
  let (text, cursor, broken) ← plain s.inFlow (s.indent + 1).toNat s.cursor .none []
  pure { s with tokens := s.tokens.push (.scalar true (String.ofList text)), cursor,
                keyAllowed := broken }

/-- A block scalar. -/
def blockToken (s : Scanner) (literal : Bool) : Except Fault Scanner := do
  let s ← s.dropKey
  let (text, cursor) ← block literal s.indent (s.cursor.advance 1)
  pure { s with tokens := s.tokens.push (.scalar false (String.ofList text)), cursor,
                keyAllowed := true }

/-- A character that starts no plain scalar unless it is joined to more. -/
def isIndicator (c : Char) : Bool :=
  "-?:,[]#&*!|>'\"%@".toList.contains c || c = '\x7b' || c = '\x7d' || c = '\x60'

/-- The text may start a plain scalar. -/
def startsPlain (inFlow : Bool) : List Char → Bool
  | [] => false
  | c :: cs =>
    !(isIndicator c || isBlank c || isBreak c) ||
      (c = '-' && !(cs.head?.any isBlank)) ||
      (!inFlow && (c = '?' || c = ':') && !endsWord cs)

/-- Takes the next token; `none` at the end of the text. -/
def next (s : Scanner) : Except Fault (Option Scanner) := do
  let (cursor, keyAllowed) := toToken s.inFlow s.keyAllowed s.cursor
  let s ← { s with cursor, keyAllowed : Scanner }.expireKeys
  let s := s.closeBlocks s.cursor.column
  let start := s.cursor.column = 0
  match s.cursor.rest with
  | [] => pure none
  | c :: cs =>
    if start && c = '%' then do
      let s ← s.atTop
      let (t, cursor) ← directive s.cursor
      pure (some { s with tokens := s.tokens.push t, cursor })
    else if s.cursor.atIndicator then do
      let s ← s.atTop
      pure (some (s.add (if c = '-' then .documentStart else .documentEnd) 3))
    else if c = '[' then some <$> s.flowStart .flowSequenceStart
    else if c = '\x7b' then some <$> s.flowStart .flowMappingStart
    else if c = ']' then some <$> s.flowEnd .flowSequenceEnd
    else if c = '\x7d' then some <$> s.flowEnd .flowMappingEnd
    else if c = ',' then some <$> s.flowEntry
    else if c = '-' && endsWord cs then some <$> s.blockEntry
    else if c = '?' && (s.inFlow || endsWord cs) then some <$> s.keyMark
    else if c = ':' && (s.inFlow || endsWord cs) then some <$> s.valueMark
    else if c = '*' then
      some <$> s.nodeToken fun c => do let (n, c) ← name (c.advance 1); pure (.aliasOf n, c)
    else if c = '&' then
      some <$> s.nodeToken fun c => do let (n, c) ← name (c.advance 1); pure (.anchor n, c)
    else if c = '!' then
      some <$> s.nodeToken fun c => do let (t, c) ← tag s.inFlow c; pure (.tag t.1 t.2, c)
    else if c = '|' && !s.inFlow then some <$> s.blockToken true
    else if c = '>' && !s.inFlow then some <$> s.blockToken false
    else if c = '\'' then
      some <$> s.nodeToken fun c => do
        let (t, c) ← quoted true (c.advance 1) .none []
        pure (.scalar false (String.ofList t), c)
    else if c = '"' then
      some <$> s.nodeToken fun c => do
        let (t, c) ← quoted false (c.advance 1) .none []
        pure (.scalar false (String.ofList t), c)
    else if startsPlain s.inFlow (c :: cs) then some <$> s.plainToken
    else throw .token

/-- The scanner at the end of the text: all block collections are closed. -/
def finish (s : Scanner) : Except Fault (List Token) := do
  let (cursor, keyAllowed) := toToken s.inFlow s.keyAllowed s.cursor
  let s ← { s with cursor, keyAllowed : Scanner }.expireKeys
  let s ← (s.closeBlocks (-1)).dropKey
  pure s.tokens.toList

/-- Takes all tokens, in at most so many steps. -/
def run : Nat → Scanner → Except Fault (List Token)
  | 0, _ => .error .token
  | n + 1, s => do
    match ← s.next with
    | none => s.finish
    | some s => run n s

end Scanner

/-- The tokens of a text. Every step goes over characters, so there are no more
steps than characters. -/
def tokens (text : String) : Except Fault (List Token) :=
  let cs := text.toList
  if cs.all isAllowed then Scanner.run (cs.length + 1) { cursor := { rest := cs } }
  else .error .character

end SchemaTypes.Yaml
