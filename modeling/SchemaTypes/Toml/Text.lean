/-
# TOML strings

A string stands between double quotes, with escapes, or between single
quotes, without them; between three quotes of a kind it may go over lines.
Then a line break directly behind the opening quotes does not count, up to two
quotes may stand inside and also right before the closing ones, and with
escapes a backslash at the end of a line takes out the line break and all
blanks behind it.

Key definitions: `Toml.basic`, `Toml.literal`, `Toml.multiline`,
`Toml.string`.
-/
import SchemaTypes.Text.Quoted

namespace SchemaTypes.Toml

/-- Reads something from the front of a text; the rest of the text is given
back with it. -/
abbrev Reader (α : Type) := List Char → Option (α × List Char)

/-- A space or a tab. -/
def isBlank (c : Char) : Bool :=
  c = ' ' || c = '\t'

/-- The text behind the blanks it starts with. -/
def skipBlanks (cs : List Char) : List Char :=
  cs.dropWhile isBlank

/-- A character of a string or a comment: no control character but a tab. -/
def isTextChar (c : Char) : Bool :=
  c = '\t' || (0x20 ≤ c.toNat && c.toNat ≠ 0x7F)

/-- The text behind the blanks, line breaks and comments it starts with. The
flag says that it starts inside of a comment. -/
def skipGap (inComment : Bool) : List Char → List Char
  | [] => []
  | '\r' :: '\n' :: cs => skipGap false cs
  | c :: cs =>
    if inComment && isTextChar c then skipGap true cs
    else if isBlank c || c = '\n' then skipGap false cs
    else if c = '#' then skipGap true cs
    else c :: cs

/-- The text behind the blanks and line breaks it starts with. -/
def skipBreaks : List Char → List Char
  | [] => []
  | '\r' :: '\n' :: cs => skipBreaks cs
  | c :: cs => if isBlank c || c = '\n' then skipBreaks cs else c :: cs

theorem skipBreaks_length (cs : List Char) : (skipBreaks cs).length ≤ cs.length := by
  fun_induction skipBreaks cs with
  | case1 => simp
  | case2 cs ih => simp only [List.length_cons]; omega
  | case3 c cs _ h ih => simp only [List.length_cons]; omega
  | case4 c cs _ h => simp

/-- The text behind the line break it starts with. -/
def afterBreak? : List Char → Option (List Char)
  | '\n' :: cs => some cs
  | '\r' :: '\n' :: cs => some cs
  | _ => none

/-- The character of an escape behind its backslash, and the length of the
escape. -/
def escape? (cs : List Char) : Option (Char × Nat) :=
  let code (digits : List Char) (k : Nat) : Option (Char × Nat) :=
    let digits := digits.take k
    if digits.length < k then none
    else ((Text.hexNumber? digits).bind Text.charOf?).map fun c => (c, 1 + k)
  match cs with
  | '"' :: _ => some ('"', 1)
  | '\\' :: _ => some ('\\', 1)
  | 'b' :: _ => some ('\x08', 1)
  | 'f' :: _ => some ('\x0c', 1)
  | 'n' :: _ => some ('\n', 1)
  | 'r' :: _ => some ('\r', 1)
  | 't' :: _ => some ('\t', 1)
  | 'u' :: digits => code digits 4
  | 'U' :: digits => code digits 8
  | _ => none

/-- A string with escapes, behind its opening quote. -/
def basic (cs : List Char) : Option (List Char × List Char) :=
  match cs with
  | [] => none
  | '"' :: rest => some ([], rest)
  | '\\' :: rest =>
    match escape? rest with
    | none => none
    | some (c, n) => (basic (rest.drop n)).map fun p => (c :: p.1, p.2)
  | c :: rest =>
    if isTextChar c then (basic rest).map fun p => (c :: p.1, p.2) else none
termination_by cs.length
decreasing_by
  all_goals simp only [List.length_cons, List.length_drop]; omega

/-- A string without escapes, behind its opening quote. -/
def literal (cs : List Char) : Option (List Char × List Char) :=
  match cs.dropWhile fun c => isTextChar c && c ≠ '\'' with
  | '\'' :: rest => some (cs.takeWhile fun c => isTextChar c && c ≠ '\'', rest)
  | _ => none

/-- The quotes behind three closing ones that still belong to the string: up
to two. -/
def lateQuotes (quote : Char) (cs : List Char) : List Char × List Char :=
  let late := (cs.take 2).takeWhile (· = quote)
  (late, cs.drop late.length)

/-- A string over lines, behind its opening quotes; it has escapes if they are
double quotes. -/
def multiline (quote : Char) (cs : List Char) : Option (List Char × List Char) :=
  match cs with
  | [] => none
  | '\r' :: '\n' :: rest => (multiline quote rest).map fun p => ('\n' :: p.1, p.2)
  | '\n' :: rest => (multiline quote rest).map fun p => ('\n' :: p.1, p.2)
  | c :: rest =>
    if c = quote && [quote, quote].isPrefixOf rest then some (lateQuotes quote (rest.drop 2))
    else if c = '\\' && quote = '"' then
      match afterBreak? (skipBlanks rest) with
      | some _ => multiline quote (skipBreaks rest)
      | none =>
        match escape? rest with
        | none => none
        | some (d, n) => (multiline quote (rest.drop n)).map fun p => (d :: p.1, p.2)
    else if isTextChar c then (multiline quote rest).map fun p => (c :: p.1, p.2)
    else none
termination_by cs.length
decreasing_by
  all_goals
    have := skipBreaks_length rest
    simp only [List.length_cons, List.length_drop]
    omega

/-- The text without the line break it starts with. -/
def dropBreak (cs : List Char) : List Char :=
  (afterBreak? cs).getD cs

/-- A string of one line. -/
def lineString : Reader (List Char)
  | '"' :: cs => basic cs
  | '\'' :: cs => literal cs
  | _ => none

/-- A string. -/
def string : Reader (List Char)
  | '"' :: '"' :: '"' :: cs => multiline '"' (dropBreak cs)
  | '\'' :: '\'' :: '\'' :: cs => multiline '\'' (dropBreak cs)
  | cs => lineString cs

end SchemaTypes.Toml
