/-
# Scalars

A scalar is written plainly, between quotes, or as a block of indented lines.
Inside a plain or quoted scalar blanks and line breaks form gaps: a gap
without a line break is kept, one with a single line feed becomes a space,
and of more line feeds all but the first are kept. A block keeps its line
breaks, or folds them if it is marked so.

Key definitions: `Yaml.Gap`, `Yaml.quoted`, `Yaml.plain`, `Yaml.block`.
-/
import SchemaTypes.Text.Quoted
import SchemaTypes.Yaml.Cursor

namespace SchemaTypes.Yaml

open Text (hexValue? hexNumber? charOf?)

/-- Blanks and line breaks inside a scalar. -/
inductive Gap where
  | blanks (text : List Char)
  /-- A gap with line breaks: the first of them and the others. -/
  | broken (first others : List Char)

namespace Gap

/-- No gap. -/
def none : Gap := .blanks []

/-- One blank more; blanks around line breaks do not count. -/
def blank (c : Char) : Gap → Gap
  | .blanks text => .blanks (text ++ [c])
  | g => g

/-- One line break more. -/
def lineBreak (text : List Char) : Gap → Gap
  | .blanks _ => .broken text []
  | .broken first others => .broken first (others ++ text)

/-- What the gap stands for. -/
def text : Gap → List Char
  | .blanks text => text
  | .broken ['\n'] [] => [' ']
  | .broken ['\n'] others => others
  | .broken first others => first ++ others

/-- The gap has a line break. -/
def isBroken : Gap → Bool
  | .blanks _ => false
  | .broken .. => true

end Gap

/-! ### Quoted scalars -/

/-- The character of an escape of one letter. -/
def letterEscape? (c : Char) : Option Char :=
  if c = '0' then some '\x00'
  else if c = 'a' then some '\x07'
  else if c = 'b' then some '\x08'
  else if c = 't' ∨ c = '\t' then some '\t'
  else if c = 'n' then some '\n'
  else if c = 'v' then some '\x0b'
  else if c = 'f' then some '\x0c'
  else if c = 'r' then some '\r'
  else if c = 'e' then some '\x1b'
  else if c = ' ' ∨ c = '"' ∨ c = '/' ∨ c = '\\' then some c
  else if c = 'N' then some '\u0085'
  else if c = '_' then some '\u00a0'
  else if c = 'L' then some '\u2028'
  else if c = 'P' then some '\u2029'
  else none

/-- The number of digits of an escape by code point. -/
def codeLength? (c : Char) : Option Nat :=
  if c = 'x' then some 2 else if c = 'u' then some 4 else if c = 'U' then some 8 else none

/-- The character of an escape behind its backslash, and the length of the
escape. -/
def escape (cs : List Char) : Except Fault (Char × Nat) :=
  match cs with
  | [] => .error .token
  | c :: cs =>
    match letterEscape? c, codeLength? c with
    | some d, _ => .ok (d, 1)
    | none, none => .error .token
    | none, some k =>
      let digits := cs.take k
      match (hexNumber? digits).bind charOf? with
      | none => .error .token
      | some d => if digits.length < k then .error .token else .ok (d, 1 + k)

/-- The text of a quoted scalar from behind its opening quote, and the place
behind its closing quote. `done` is the text so far, in reverse. -/
def quoted (single : Bool) (c : Cursor) (gap : Gap) (done : List Char) :
    Except Fault (List Char × Cursor) :=
  if c.atIndicator then .error .token
  else
    match _h : c.rest with
    | [] => .error .token
    | ch :: rest =>
      if isBlank ch then quoted single (c.advance 1) (gap.blank ch) done
      else if isBreak ch then quoted single c.newline (gap.lineBreak c.breakText) done
      else
        let done := gap.text.reverse ++ done
        if single then
          if ch = '\'' then
            if rest.head? = some '\'' then quoted single (c.advance 2) .none ('\'' :: done)
            else .ok (done.reverse, c.advance 1)
          else quoted single (c.advance 1) .none (ch :: done)
        else if ch = '"' then .ok (done.reverse, c.advance 1)
        else if ch = '\\' then
          if !rest.isEmpty && endsLine rest then
            quoted single (c.advance 1).newline (.broken [] []) done
          else
            match escape rest with
            | .error e => .error e
            | .ok (d, k) => quoted single (c.advance (1 + k)) .none (d :: done)
        else quoted single (c.advance 1) .none (ch :: done)
termination_by c.rest.length
decreasing_by
  all_goals
    have hc : c.rest ≠ [] := by simp [_h]
    first
    | exact Cursor.advance_length (by omega) hc
    | exact Cursor.newline_length hc
    | (rename_i hr
       have h1 : (c.advance 1).rest.length < c.rest.length := Cursor.advance_length (by omega) hc
       have h2 : (c.advance 1).rest = rest := by simp [Cursor.advance, _h]
       have h3 : (c.advance 1).rest ≠ [] := by
         rw [h2]
         simp at hr
         exact hr.1
       exact Nat.lt_trans (Cursor.newline_length h3) h1)

/-! ### Plain scalars -/

/-- A character that ends a word of a flow collection. -/
def isFlowMark (c : Char) : Bool :=
  c = ',' || c = '[' || c = ']' || c = '\x7b' || c = '\x7d'

/-- A colon that ends a plain scalar. -/
def atColon (cs : List Char) : Bool :=
  match cs with
  | ':' :: rest => endsWord rest
  | _ => false

/-- A colon joined to a mark of a flow collection, which may not be. -/
def atJoinedColon (cs : List Char) : Bool :=
  match cs with
  | ':' :: c :: _ => isFlowMark c || c = '?'
  | _ => false

/-- The text of a plain scalar, the place where it ends, behind any gap, and
whether that gap has line breaks. `indent` is the column that its further
lines have to reach. -/
def plain (inFlow : Bool) (indent : Nat) (c : Cursor) (gap : Gap) (done : List Char) :
    Except Fault (List Char × Cursor × Bool) :=
  let inGap := match gap with | .blanks [] => false | _ => true
  match _h : c.rest with
  | [] => .ok (done.reverse, c, gap.isBroken)
  | ch :: _ =>
    if isBlank ch then
      if gap.isBroken && c.column < indent && ch = '\t' then .error .token
      else plain inFlow indent (c.advance 1) (gap.blank ch) done
    else if isBreak ch then plain inFlow indent c.newline (gap.lineBreak c.breakText) done
    else if inGap && (c.atIndicator || ch = '#' || (!inFlow && gap.isBroken && c.column < indent))
    then .ok (done.reverse, c, gap.isBroken)
    else if inFlow && atJoinedColon c.rest then .error .token
    else if atColon c.rest || (inFlow && isFlowMark ch) then
      .ok (done.reverse, c, gap.isBroken)
    else plain inFlow indent (c.advance 1) .none (ch :: gap.text.reverse ++ done)
termination_by c.rest.length
decreasing_by
  all_goals
    have hc : c.rest ≠ [] := by simp [_h]
    first
    | exact Cursor.advance_length (by omega) hc
    | exact Cursor.newline_length hc

/-! ### Block scalars -/

/-- What becomes of the line breaks at the end of a block. -/
inductive Chomping where
  | strip
  | clip
  | keep
deriving DecidableEq, Repr

/-- The marks behind the sign of a block: what becomes of its last line
breaks, and its indentation. They come in either order. -/
def blockMarks (c : Cursor) : Except Fault (Chomping × Option Nat × Cursor) :=
  let chomping? : Char → Option Chomping := fun ch =>
    if ch = '+' then some .keep else if ch = '-' then some .strip else none
  match c.rest with
  | [] => .ok (.clip, none, c)
  | ch :: rest =>
    match chomping? ch with
    | some k =>
      match rest with
      | d :: _ =>
        if d = '0' then .error .token
        else if d.isDigit then .ok (k, some (d.toNat - 48), c.advance 2)
        else .ok (k, none, c.advance 1)
      | [] => .ok (k, none, c.advance 1)
    | none =>
      if ch = '0' then .error .token
      else if ch.isDigit then
        match rest.head?.bind chomping? with
        | some k => .ok (k, some (ch.toNat - 48), c.advance 2)
        | none => .ok (.clip, some (ch.toNat - 48), c.advance 1)
      else .ok (.clip, none, c)

/-- Goes over indentation and empty lines in front of a line of a block. It
gives the line breaks met, in reverse, and the greatest column reached.
Without a known indentation all spaces are indentation. -/
def blockBreaks (indent : Option Nat) (c : Cursor) (greatest : Nat) (done : List Char) :
    Except Fault (List Char × Nat × Cursor) :=
  let inIndent := match indent with | none => true | some n => decide (c.column < n)
  match _h : c.rest with
  | [] => .ok (done, max greatest c.column, c)
  | ch :: _ =>
    if ch = ' ' && inIndent then blockBreaks indent (c.advance 1) greatest done
    else if ch = '\t' && inIndent then .error .token
    else if isBreak ch then
      blockBreaks indent c.newline (max greatest c.column) (c.breakText.reverse ++ done)
    else .ok (done, max greatest c.column, c)
termination_by c.rest.length
decreasing_by
  all_goals
    have hc : c.rest ≠ [] := by simp [_h]
    first
    | exact Cursor.advance_length (by omega) hc
    | exact Cursor.newline_length hc

theorem blockBreaks_length {indent : Option Nat} {c next : Cursor} {greatest n : Nat}
    {done breaks : List Char} (h : blockBreaks indent c greatest done = .ok (breaks, n, next)) :
    next.rest.length ≤ c.rest.length := by
  fun_induction blockBreaks indent c greatest done with
  | case1 => cases h; exact Nat.le_refl _
  | case2 c _ _ _ _ _ _ _ ih => exact Nat.le_trans (ih h) (Cursor.advance_length_le c 1)
  | case3 => cases h
  | case4 c _ _ _ _ _ hc _ _ _ ih =>
    exact Nat.le_trans (ih h) (Nat.le_of_lt (Cursor.newline_length (by simp [hc])))
  | case5 => cases h; exact Nat.le_refl _

/-- The lines of a block, what was met behind the last of them, and where the
block ends: the text so far in reverse, the last line break, and the breaks of
empty lines behind it. A line that starts with a blank is not folded. -/
def blockLines (literal : Bool) (indent : Nat) (c : Cursor) (lineBreak empty : List Char)
    (afterBlank : Bool) (done : List Char) :
    Except Fault (List Char × List Char × List Char × Cursor) :=
  match _hc : c.rest with
  | [] => .ok (done, lineBreak, empty, c)
  | ch :: _ =>
    if c.column ≠ indent then .ok (done, lineBreak, empty, c)
    else
      let folded := !literal && lineBreak = ['\n'] && !afterBlank && !isBlank ch
      let joint :=
        if folded then (if empty.isEmpty then [' '] else empty) else lineBreak ++ empty
      let line := c.rest.takeWhile fun x => !isBreak x
      let last := c.skipLine
      match _h : blockBreaks (some indent) last.newline 0 [] with
      | .error e => .error e
      | .ok (breaks, _, next) =>
        blockLines literal indent next last.breakText breaks.reverse (isBlank ch)
          (line.reverse ++ joint.reverse ++ done)
termination_by c.rest.length
decreasing_by
  exact Nat.lt_of_le_of_lt (blockBreaks_length _h) (Cursor.nextLine_length (by simp [_hc]))

/-- The text of a block scalar from behind its sign, and the place behind it.
`parent` is the indentation of the collection around it. -/
def block (literal : Bool) (parent : Int) (c : Cursor) : Except Fault (List Char × Cursor) := do
  let (chomping, increment, c) ← blockMarks c
  let c := c.skipWhile isBlank
  let c := if c.rest.head? = some '#' then c.skipLine else c
  if !endsLine c.rest then throw .token
  let c := c.newline
  let known := increment.map fun n => (max parent 0).toNat + n
  let (breaks, greatest, c) ← blockBreaks known c 0 []
  let indent := known.getD (max greatest (max (parent + 1) 1).toNat)
  let (done, lineBreak, empty, c) ← blockLines literal indent c [] breaks.reverse false []
  let tail :=
    match chomping with
    | .strip => []
    | .clip => lineBreak
    | .keep => lineBreak ++ empty
  pure (done.reverse ++ tail, c)

end SchemaTypes.Yaml
