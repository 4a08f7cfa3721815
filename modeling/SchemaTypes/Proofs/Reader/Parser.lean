/-
# Reading a type text

A reader of TypeScript types: the postfix `[]` binds tighter than `&`, and
`&` tighter than `|`; parentheses group; an object type lists its fields
between braces, each a key, perhaps `?`, a colon, a type and a semicolon.
The reader takes one token after another. Between two brackets it holds the
operands of `|` that are complete and those of `&` that the next one of `|`
begins with; `|` completes the latter, `&` adds to them, and `[]` goes to the
operand read last. What the brackets outside wait for is a stack of frames.

Key definitions: `Reader.Level`, `Reader.Operand`, `Reader.step`,
`Reader.read`.
-/
import SchemaTypes.Proofs.Reader.Token
import SchemaTypes.Proofs.TypeTerm.Merge

namespace SchemaTypes.Reader

/-- What stands between an opening bracket and an operand. -/
structure Level where
  /-- The operands of `|` that are complete. -/
  alternatives : List TypeTerm := []
  /-- The operands of `&` that the next operand of `|` begins with. -/
  factors : List TypeTerm := []

/-- A type that has been read, behind what stands in front of it. -/
structure Operand where
  before : Level
  type : TypeTerm

namespace Operand

/-- The level behind `&`. -/
def amp (x : Operand) : Level where
  alternatives := x.before.alternatives
  factors := x.before.factors ++ [x.type]

/-- The level behind `|`. -/
def bar (x : Operand) : Level where
  alternatives := x.before.alternatives ++ [TypeTerm.intersectionOf (x.before.factors ++ [x.type])]

/-- The type of all that stands between the brackets. -/
def close (x : Operand) : TypeTerm :=
  TypeTerm.unionOf x.bar.alternatives

/-- The operand with `[]` behind it. -/
def item (x : Operand) : Operand where
  before := x.before
  type := .array x.type

end Operand

/-- What an opening bracket interrupts. -/
inductive Frame where
  | group (outer : Level)
  /-- A field of an object type, behind the fields before it. -/
  | field (outer : Level) (fields : List Field) (key : String) (isOptional : Bool)

/-- What the reader has read and what it waits for. -/
inductive State where
  | operand (frames : List Frame) (level : Level)
  | operator (frames : List Frame) (x : Operand)
  /-- Behind `[`. -/
  | item (frames : List Frame) (x : Operand)
  /-- Between `Record<` and `>`; the tokens that have to follow. -/
  | arguments (frames : List Frame) (level : Level) (expected : List Token)
  | key (frames : List Frame) (level : Level) (fields : List Field)
  | colon (frames : List Frame) (level : Level) (fields : List Field) (key : String)
      (isOptional : Bool)

/-- The words that are not the name of a declared type. -/
def keywords : List String :=
  ["any", "bigint", "boolean", "break", "case", "catch", "class", "const", "continue", "debugger",
    "default", "delete", "do", "else", "enum", "export", "extends", "false", "finally", "for",
    "function", "if", "import", "in", "infer", "instanceof", "keyof", "never", "new", "null",
    "number", "object", "readonly", "return", "string", "super", "switch", "symbol", "this",
    "throw", "true", "try", "typeof", "undefined", "unique", "unknown", "var", "void", "while",
    "with"]

/-- The type that a word is by itself. -/
def wordType (name : String) : Option TypeTerm :=
  if name = "any" then some .any
  else if name = "number" then some .number
  else if name = "string" then some .string
  else if name = "boolean" then some .boolean
  else if name = "true" ∨ name = "false" ∨ name = "null" then some (.literal name)
  else if name ∈ keywords then none
  else some (.named name)

/-- The type that a token is by itself. -/
def leafType : Token → Option TypeTerm
  | .word name => wordType name
  | .numeral text | .quoted text => some (.literal text)
  | .mark _ => none

/-- What follows the word `Record`. -/
def recordArguments : List Token :=
  [.mark '<', .word "string", .mark ',', .word "any", .mark '>']

/-- Where an operand has to follow. -/
def stepOperand (frames : List Frame) (l : Level) : Token → Option State
  | .mark '(' => some (.operand (.group l :: frames) {})
  | .mark '\x7b' => some (.key frames l [])
  | x => (leafType x).map fun t => .operator frames ⟨l, t⟩

/-- The end of what a frame interrupted. -/
def closeFrame (x : Operand) : List Frame → Char → Option State
  | .group outer :: frames, ')' => some (.operator frames ⟨outer, x.close⟩)
  | .field outer fields key isOptional :: frames, ';' =>
    some (.key frames outer (fields ++ [⟨key, isOptional, x.close⟩]))
  | _, _ => none

/-- Behind an operand. -/
def stepOperator (frames : List Frame) (x : Operand) : Token → Option State
  | .mark '|' => some (.operand frames x.bar)
  | .mark '&' => some (.operand frames x.amp)
  | .mark '[' => some (.item frames x)
  | .mark '<' =>
    match x.type with
    | .named "Record" => some (.arguments frames x.before recordArguments.tail)
    | _ => none
  | .mark c => closeFrame x frames c
  | _ => none

/-- Where a key or the closing brace has to follow. -/
def stepKey (frames : List Frame) (l : Level) (fields : List Field) : Token → Option State
  | .mark '\x7d' => some (.operator frames ⟨l, .object fields⟩)
  | .word key | .quoted key => some (.colon frames l fields key false)
  | _ => none

/-- What one token does. -/
def step : State → Token → Option State
  | .operand frames l, x => stepOperand frames l x
  | .operator frames x, y => stepOperator frames x y
  | .item frames x, y => if y = .mark ']' then some (.operator frames x.item) else none
  | .arguments frames l expected, y =>
    match expected with
    | [] => none
    | [e] => if y = e then some (.operator frames ⟨l, .record⟩) else none
    | e :: es => if y = e then some (.arguments frames l es) else none
  | .key frames l fields, x => stepKey frames l fields x
  | .colon frames l fields key isOptional, x =>
    if x = .mark ':' then some (.operand (.field l fields key isOptional :: frames) {})
    else if x = .mark '?' ∧ isOptional = false then some (.colon frames l fields key true)
    else none

/-- What tokens do, one after the other. -/
def run (s : State) : List Token → Option State
  | [] => some s
  | x :: xs => (step s x).bind fun s => run s xs

/-- The type that a complete text has been read to. -/
def State.type? : State → Option TypeTerm
  | .operator [] x => some x.close
  | _ => none

/-- The type that a text is read as, all of it; none if it is not a type. -/
def read (a : Alphabet) (text : String) : Option TypeTerm :=
  (tokens a text.toList).bind fun ts => (run (.operand [] {}) ts).bind State.type?

example : read .ascii "A | B & C[]" =
    some (.union [.named "A", .intersection [.named "B", .array (.named "C")]]) := by
  cbv

theorem run_append (s : State) (ts us : List Token) :
    run s (ts ++ us) = (run s ts).bind fun s => run s us := by
  induction ts generalizing s with
  | nil => rfl
  | cons t ts ih =>
    rw [List.cons_append, run, run]
    cases step s t with
    | none => rfl
    | some s => exact ih s

/-! ### Parts of a text that are operands -/

/-- The part of a text lexes, and in place of an operand the reader takes it
for what the function gives. -/
def Reads (a : Alphabet) (cs : List Char) (f : Level → Operand) : Prop :=
  ∃ ts, Lexes a cs ts ∧ ∀ frames l, run (.operand frames l) ts = some (.operator frames (f l))

variable {a : Alphabet} {cs ds : List Char} {f g : Level → Operand}

/-- A text that is an operand is read to the end. -/
theorem Reads.read {text : String} (h : Reads a text.toList f) :
    read a text = some (f {}).close := by
  obtain ⟨ts, hlex, hrun⟩ := h
  have htokens : tokens a text.toList = some ts := by
    have := hlex [] (by simp [Breaks])
    rw [List.append_nil] at this
    rw [this, tokens, scan, chunkTokens, if_pos rfl, prepend, Option.map_some, List.append_nil]
  rw [Reader.read, htokens, Option.bind_some, hrun, Option.bind_some, State.type?]

theorem stepOperand_of_leafType {x : Token} {t : TypeTerm} (h : leafType x = some t)
    (frames : List Frame) (l : Level) : stepOperand frames l x = some (.operator frames ⟨l, t⟩) := by
  rw [stepOperand, h]
  · rfl
  · rintro rfl
    cases h
  · rintro rfl
    cases h

theorem reads_of_token {x : Token} {t : TypeTerm} (hlex : Lexes a cs [x]) (hx : leafType x = some t) :
    Reads a cs fun l => ⟨l, t⟩ := by
  refine ⟨[x], hlex, fun frames l => ?_⟩
  rw [run, step, stepOperand_of_leafType hx]
  rfl

theorem Reads.group (h : Reads a cs f) :
    Reads a ('(' :: cs ++ [')']) fun l => ⟨l, (f {}).close⟩ := by
  obtain ⟨ts, hlex, hrun⟩ := h
  refine ⟨_, ((separates_mark (by decide)).append_lexes hlex).append (separates_mark (by decide)),
    fun frames l => ?_⟩
  rw [List.append_assoc, List.singleton_append, run, step, stepOperand, Option.bind_some, run_append,
    hrun, Option.bind_some]
  rfl

theorem Reads.array (h : Reads a cs f) : Reads a (cs ++ ['[', ']']) fun l => (f l).item := by
  obtain ⟨ts, hlex, hrun⟩ := h
  refine ⟨_, hlex.append ((separates_mark (c := '[') (by decide)).append
    (separates_mark (c := ']') (by decide))), fun frames l => ?_⟩
  rw [run_append, hrun, Option.bind_some]
  rfl

/-- Two operands with an operator between them: the second one is read behind
what the operator makes of the first one. -/
theorem Reads.behind {c : Char} {next : Operand → Level} (hc : isMark c = true)
    (hstep : ∀ frames x, stepOperator frames x (.mark c) = some (.operand frames (next x)))
    (h : Reads a cs f) (h' : Reads a ds g) :
    Reads a (cs ++ [' ', c, ' '] ++ ds) fun l => g (next (f l)) := by
  obtain ⟨ts, hlex, hrun⟩ := h
  obtain ⟨us, hlex', hrun'⟩ := h'
  have hsep : Separates a [' ', c, ' '] [.mark c] :=
    (separates_blank (by decide)).append ((separates_mark hc).append (separates_blank (by decide)))
  refine ⟨_, hlex.append_lexes hsep hlex', fun frames l => ?_⟩
  rw [List.append_assoc, run_append, hrun, Option.bind_some, List.singleton_append, run, step, hstep,
    Option.bind_some, hrun']

theorem Reads.bar (h : Reads a cs f) (h' : Reads a ds g) :
    Reads a (cs ++ [' ', '|', ' '] ++ ds) fun l => g (f l).bar :=
  h.behind (by decide) (fun _ _ => rfl) h'

theorem Reads.amp (h : Reads a cs f) (h' : Reads a ds g) :
    Reads a (cs ++ [' ', '&', ' '] ++ ds) fun l => g (f l).amp :=
  h.behind (by decide) (fun _ _ => rfl) h'

end SchemaTypes.Reader
