/-
# Patterns for the values of fields

A rule of a log filter may ask for the value of a field: for a number or for
text that a regular expression describes. Whether a value fits is never asked
here, only whether the pattern is one; so this is a recognizer. It goes over
the pattern piece by piece and keeps the groups that are open, the flags in
force in each of them, whether there is something to repeat, and the names of
groups so far.

The parts of a pattern may be 250 deep inside each other. What is made of
several parts side by side, what is repeated, a group and a set are each one
deeper than the deepest part in them; a single part stands for itself.

A pattern is searched for with a table of states, which cannot tell words of
all scripts apart: the edges of a word are refused unless the flag `u` is off.
With it off, a piece that would match half a character is refused.

Braces, commas and equals signs end a pattern before it is read, so counted
repetitions and properties with long names never come to their end.

Key definitions: `Pattern.isRegular`, `Pattern.isPattern`.
-/
import SchemaTypes.Decimal
import SchemaTypes.Text.Parts
import SchemaTypes.Text.Quoted
import SchemaTypes.Text.Letter

namespace SchemaTypes.Log.Pattern

/-- The flags that change how a pattern is read. -/
structure Mode where
  /-- Characters of all scripts are told apart. -/
  unicode : Bool := true
  /-- Blanks and comments between the pieces do not count. -/
  spaced : Bool := false
deriving DecidableEq, Repr

/-- The text behind the blanks and comments it starts with. -/
def skipGap (inComment : Bool) : List Char → List Char
  | [] => []
  | c :: cs =>
    if inComment then skipGap (c ≠ '\n') cs
    else if Text.isBlank c then skipGap false cs
    else if c = '#' then skipGap true cs
    else c :: cs

/-- The text behind what does not count at its start. -/
def Mode.skip (m : Mode) (cs : List Char) : List Char :=
  if m.spaced then skipGap false cs else cs

/-- The character at the start of the text or behind the gap it starts with,
as it is looked up without going on. This glance sees the blanks and the sign
of a comment, but not the text of the comment. -/
def Mode.glance (m : Mode) (cs : List Char) : Option Char :=
  if m.spaced then
    match Text.trimStart cs with
    | '#' :: cs => (Text.trimStart cs).head?
    | cs => cs.head?
  else cs.head?

/-! ### Nesting -/

/-- How deep the parts of a pattern may be inside each other. -/
def maxHeight : Nat := 250

/-- The height of parts side by side: one more than that of the highest, but a
single part stands for itself. -/
def joint : List Nat → Nat
  | [] => 0
  | [h] => h
  | hs => 1 + hs.foldl max 0

/-! ### Escapes -/

/-- What stands for a character, a set of characters or a place between
characters. -/
inductive Atom where
  | literal (c : Char)
  | set
  | place
deriving DecidableEq, Repr

/-- The next `n` hexadecimal digits. -/
def hexDigits (m : Mode) : Nat → List Char → Option (List Char × List Char)
  | 0, cs => some ([], cs)
  | n + 1, cs =>
    match m.skip cs with
    | [] => none
    | c :: cs =>
      if (Text.hexValue? c).isSome then (hexDigits m n cs).map fun p => (c :: p.1, p.2) else none

/-- The character with a code point of `n` digits. -/
def hexLiteral (m : Mode) (n : Nat) (cs : List Char) : Option (Atom × List Char) := do
  let (digits, rest) ← hexDigits m n cs
  let c ← (Text.hexNumber? digits).bind Text.charOf?
  if n = 2 && !m.unicode && 0x80 ≤ c.toNat then none else some (.literal c, rest)

/-- The letters of the properties that have one. -/
def isPropertyLetter (c : Char) : Bool :=
  "CLMNPSZclmnpsz".toList.contains c

/-- The characters that a letter behind a backslash stands for. -/
def controls : List (Char × Char) :=
  [('a', '\x07'), ('f', '\x0c'), ('n', '\n'), ('r', '\r'), ('t', '\t'), ('v', '\x0b')]

/-- What stands behind a backslash. -/
def escape (m : Mode) : List Char → Option (Atom × List Char)
  | [] => none
  | c :: cs =>
    if c = 'x' then hexLiteral m 2 cs
    else if c = 'u' then hexLiteral m 4 cs
    else if c = 'U' then hexLiteral m 8 cs
    else if c = 'p' || c = 'P' then
      match m.skip cs with
      | d :: cs => if m.unicode && isPropertyLetter d then some (.set, cs) else none
      | [] => none
    else if c = 'd' || c = 's' || c = 'w' then some (.set, cs)
    else if c = 'D' || c = 'S' || c = 'W' then if m.unicode then some (.set, cs) else none
    else if c = 'A' || c = 'z' then some (.place, cs)
    else if c = 'b' || c = 'B' || c = '<' || c = '>' then
      if m.unicode || (c = 'b' && cs.head? = some '\x7b') then none else some (.place, cs)
    else
      match controls.find? fun p => p.1 = c with
      | some p => some (.literal p.2, cs)
      | none => if c.isAlphanum || 0x80 ≤ c.toNat then none else some (.literal c, cs)

/-! ### Sets between brackets -/

/-- The atom may be in a set. -/
def Atom.fits (m : Mode) : Atom → Bool
  | .literal c => m.unicode || c.toNat < 0x80
  | .set => true
  | .place => false

/-- A character of a set, or what a backslash stands before. -/
def setAtom (m : Mode) : List Char → Option (Atom × List Char)
  | [] => none
  | '\\' :: cs => escape m cs
  | c :: cs => some (.literal c, cs)

/-- An atom of a set or a range of characters: the text behind it. -/
def setRange (m : Mode) (cs : List Char) : Option (List Char) := do
  let (a, cs) ← setAtom m cs
  let cs := m.skip cs
  match cs with
  | [] => none
  | '-' :: tail =>
    if m.glance tail = some ']' || m.glance tail = some '-' then
      if a.fits m then some cs else none
    else
      match a, ← setAtom m (m.skip tail) with
      | .literal x, (.literal y, rest) =>
        if x.toNat ≤ y.toNat && a.fits m && (Atom.literal y).fits m then some rest else none
      | _, _ => none
  | _ => if a.fits m then some cs else none

/-- The names of sets between colons. -/
def setNames : List String :=
  ["alnum", "alpha", "ascii", "blank", "cntrl", "digit", "graph", "lower", "print", "punct",
    "space", "upper", "word", "xdigit"]

/-- A set that is named between colons, if there is one behind an opening
bracket: whether it is all but the named characters, and the text behind. -/
def namedSet? : List Char → Option (Bool × List Char)
  | ':' :: cs =>
    let negative := cs.head? = some '^'
    let cs := if negative then cs.drop 1 else cs
    let name := String.ofList (cs.takeWhile (· ≠ ':'))
    match cs.dropWhile (· ≠ ':') with
    | ':' :: ']' :: rest => if setNames.contains name then some (negative, rest) else none
    | _ => none
  | _ => none

/-- How far a set has come. -/
inductive SetStage where
  /-- Nothing is in it yet. -/
  | opened
  /-- Only dashes are in it. -/
  | dashes
  | inside
deriving DecidableEq, Repr

/-- The heights in a set that is open. -/
structure OpenSet where
  /-- Those of the parts since the last operator. -/
  parts : List Nat := []
  /-- That of all before the operator. -/
  left : Option Nat := none

/-- The height of what is in the set. -/
def OpenSet.height (s : OpenSet) : Nat :=
  match s.left with
  | none => joint s.parts
  | some h => 1 + max h (joint s.parts)

/-- The set with one more part. -/
def OpenSet.add (s : OpenSet) (height : Nat) : OpenSet :=
  { s with parts := height :: s.parts }

/-- The height of a set and the text behind it, from behind the opening bracket
of the innermost set; the sets of `outer` are open around that one. `fuel`
bounds the pieces. -/
def setEnd (m : Mode) :
    (fuel : Nat) → (outer : List OpenSet) → OpenSet → SetStage → List Char →
      Option (Nat × List Char)
  | 0, _, _, _, _ => none
  | fuel + 1, outer, s, stage, cs =>
    match m.skip cs with
    | [] => none
    | c :: cs =>
      if stage ≠ .inside && c = '-' then setEnd m fuel outer (s.add 0) .dashes cs
      else if stage = .opened && c = ']' then setEnd m fuel outer (s.add 0) .inside cs
      else if c = '[' then
        match namedSet? cs with
        | some (negative, rest) =>
          if negative && !m.unicode then none else setEnd m fuel outer (s.add 0) .inside rest
        | none =>
          match m.skip cs with
          | '^' :: cs => if m.unicode then setEnd m fuel (s :: outer) {} .opened cs else none
          | cs => setEnd m fuel (s :: outer) {} .opened cs
      else if c = ']' then
        match outer with
        | [] => some (1 + s.height, cs)
        | t :: outer => setEnd m fuel outer (t.add (1 + s.height)) .inside cs
      else if (c = '&' || c = '-' || c = '~') && cs.head? = some c then
        setEnd m fuel outer { left := some s.height } .inside (cs.drop 1)
      else
        match setRange m (c :: cs) with
        | some rest => setEnd m fuel outer (s.add 0) .inside rest
        | none => none

/-- The height of a set and the text behind it, from behind its opening
bracket. -/
def set? (m : Mode) (cs : List Char) : Option (Nat × List Char) :=
  match m.skip cs with
  | '^' :: rest => if m.unicode then setEnd m cs.length [] {} .opened rest else none
  | rest => setEnd m (cs.length + 1) [] {} .opened rest

/-! ### Groups -/

/-- The mode with a flag on or off. -/
def Mode.turn (m : Mode) (flag : Char) (on : Bool) : Mode :=
  if flag = 'u' then { m with unicode := on }
  else if flag = 'x' then { m with spaced := on }
  else m

/-- The flags behind a question mark, in the mode so far: the new mode, and
whether a group opens behind them. A flag stands there once; behind the one
dash the flags are turned off, and there is at least one. -/
def flags (seen : List Char) (m : Mode) : List Char → Option (Mode × Bool × List Char)
  | [] => none
  | ':' :: cs => if seen.head? = some '-' then none else some (m, true, cs)
  | ')' :: cs => if seen.isEmpty || seen.head? = some '-' then none else some (m, false, cs)
  | c :: cs =>
    if seen.contains c then none
    else if c = '-' then flags (c :: seen) m cs
    else if "imsUuRx".toList.contains c then
      flags (c :: seen) (m.turn c (!seen.contains '-')) cs
    else none

/-- The name of a group: letters, and behind the first one also digits, dots
and brackets. -/
def isGroupName : List Char → Bool
  | [] => false
  | c :: cs =>
    (c = '_' || Text.isLetter c) &&
      cs.all fun c => c = '_' || c = '.' || c = '[' || c = ']' || Text.isLetterOrNumeric c

/-! ### Patterns -/

/-- The heights in a group that is open. -/
structure OpenGroup where
  /-- Those of the pieces of its last branch. -/
  pieces : List Nat := []
  /-- Those of the branches before that one. -/
  branches : List Nat := []

/-- The height of what is in the group. -/
def OpenGroup.height (g : OpenGroup) : Nat :=
  joint (joint g.pieces :: g.branches)

/-- The group with one more piece. -/
def OpenGroup.add (g : OpenGroup) (height : Nat) : OpenGroup :=
  { g with pieces := height :: g.pieces }

/-- The group with one more branch. -/
def OpenGroup.branch (g : OpenGroup) : OpenGroup :=
  { branches := joint g.pieces :: g.branches }

/-- The group with its last piece repeated. -/
def OpenGroup.repeatLast (g : OpenGroup) : OpenGroup :=
  match g.pieces with
  | [] => g
  | h :: hs => { g with pieces := (1 + h) :: hs }

/-- What is known behind a part of a pattern. -/
structure State where
  mode : Mode := {}
  /-- The innermost group that is open; at first the pattern itself. -/
  group : OpenGroup := {}
  /-- The groups that are open around it, and the modes in them. -/
  outer : List (Mode × OpenGroup) := []
  /-- There is something that can be repeated. -/
  repeatable : Bool := false
  names : List (List Char) := []

/-- The state behind something that can be repeated. -/
def State.piece (s : State) (height : Nat) : State :=
  { s with group := s.group.add height, repeatable := true }

/-- The state inside of a new group. -/
def State.enter (s : State) (mode : Mode) : State :=
  { s with mode, group := {}, outer := (s.mode, s.group) :: s.outer, repeatable := false }

/-- Reads a group up to where its pieces begin, or flags for the rest of the
group around them; from behind the parenthesis. -/
def openGroup (s : State) (cs : List Char) : Option (State × List Char) :=
  let named (cs : List Char) : Option (State × List Char) :=
    let name := cs.takeWhile (· ≠ '>')
    match cs.dropWhile (· ≠ '>') with
    | _ :: rest =>
      if isGroupName name && !s.names.contains name then
        some ({ s with names := name :: s.names : State }.enter s.mode, rest)
      else none
    | [] => none
  match s.mode.skip cs with
  | '?' :: 'P' :: '<' :: cs => named cs
  | '?' :: '<' :: cs => named cs
  | '?' :: cs =>
    match flags [] s.mode cs with
    | some (mode, true, rest) => some (s.enter mode, rest)
    | some (mode, false, rest) =>
      some ({ s with mode, group := s.group.add 0, repeatable := false }, rest)
    | none => none
  | cs => some (s.enter s.mode, cs)

/-- Reads one piece of a pattern: the state behind it and the rest. -/
def step (s : State) : List Char → Option (State × List Char)
  | [] => none
  | '(' :: cs => openGroup s cs
  | ')' :: cs =>
    match s.outer with
    | [] => none
    | (mode, group) :: outer =>
      some ({ s with mode, group, outer : State }.piece (1 + s.group.height), cs)
  | '|' :: cs => some ({ s with group := s.group.branch, repeatable := false }, cs)
  | '[' :: cs => (set? s.mode cs).map fun p => (s.piece p.1, p.2)
  | '\x7b' :: _ => none
  | '\\' :: cs => (escape s.mode cs).map fun p => (s.piece 0, p.2)
  | '.' :: cs => if s.mode.unicode then some (s.piece 0, cs) else none
  | c :: cs =>
    if c = '?' || c = '*' || c = '+' then
      if s.repeatable then
        some ({ s with group := s.group.repeatLast },
          if cs.head? = some '?' then cs.drop 1 else cs)
      else none
    else some (s.piece 0, cs)

/-- The pieces of the text make a pattern with those before it. `fuel` bounds
their number. -/
def run : (fuel : Nat) → State → List Char → Bool
  | 0, _, _ => false
  | fuel + 1, s, cs =>
    match s.mode.skip cs with
    | [] => s.outer.isEmpty && s.group.height ≤ maxHeight
    | cs =>
      match step s cs with
      | some (s, rest) => run fuel s rest
      | none => false

/-- The text is a regular expression. -/
def isRegular (cs : List Char) : Bool :=
  run (cs.length + 1) {} cs

/-- The text is a decimal number, or one of the words for what is no number
or not finite. -/
def isNumber (cs : List Char) : Bool :=
  let magnitude := (Decimal.signed cs).2
  let word := String.ofList (magnitude.map Char.toLower)
  (Decimal.decimal? magnitude).isSome || word = "inf" || word = "infinity" || word = "nan"

/-- The text can stand for the value of a field. -/
def isPattern (cs : List Char) : Bool :=
  isNumber cs || isRegular cs

end SchemaTypes.Log.Pattern
