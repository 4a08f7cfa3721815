/-
# Reading the text of a type

Read at any depth of nesting, the text of a type is what `readBack` says. A
type can be written if its names are identifiers and no keywords, its
literals are the texts of scalar JSON values, its keys are keys of
properties, and its unions and intersections have members: then the text is
read to the end, and the type comes back, up to merging, exactly if it is
grouped.

Key definitions: `Reader.IsName`, `TypeTerm.Writable`.
Key theorems: `TypeTerm.reads_text`, `TypeTerm.read_text`,
`TypeTerm.merge_readBack_iff_of_writable`.
-/
import SchemaTypes.Identifier
import SchemaTypes.Proofs.Reader.Atom
import SchemaTypes.Proofs.Reader.Weight
import SchemaTypes.TypeTerm

namespace SchemaTypes

/-- Null, a boolean, a number or a string. -/
def Json.isScalar : Json → Bool
  | .array _ | .object _ => false
  | _ => true

namespace Reader

/-- An identifier that names a declared type. -/
def IsName (a : Alphabet) (name : String) : Prop :=
  a.isIdentifier name.toList = true ∧ name ∉ keywords

end Reader

open Reader (Alphabet IsName Lexes Reads Separates Level Operand Token)

/-- The type has a text that can be read. -/
inductive TypeTerm.Writable (a : Alphabet) : TypeTerm → Prop
  | any : Writable a .any
  | number : Writable a .number
  | string : Writable a .string
  | boolean : Writable a .boolean
  | record : Writable a .record
  | literal {v : Json} (h : v.isScalar = true) : Writable a (.literal v.compact)
  | named {name : String} (h : IsName a name) : Writable a (.named name)
  | array {t : TypeTerm} (h : Writable a t) : Writable a (.array t)
  | object {fs : List (FieldOf TypeTerm)}
      (hkey : ∀ f ∈ fs, ∃ name, f.key = Identifier.propertyKey name)
      (h : ∀ f ∈ fs, Writable a f.type) : Writable a (.object fs)
  | union {ms : List TypeTerm} (hne : ms ≠ []) (h : ∀ m ∈ ms, Writable a m) :
      Writable a (.union ms)
  | intersection {ms : List TypeTerm} (hne : ms ≠ []) (h : ∀ m ∈ ms, Writable a m) :
      Writable a (.intersection ms)

namespace Reader

variable {a : Alphabet} {cs ds : List Char} {f g : Level → Operand} {t : TypeTerm}

/-! ### Leaves -/

/-- A word that is an identifier is read as the type it stands for. -/
theorem reads_word (name : String) (hid : a.isIdentifier name.toList = true)
    (hw : wordType name = some t) : Reads a name.toList fun l => ⟨l, t⟩ := by
  refine reads_of_token (lexes_identifier hid) ?_
  rw [String.ofList_toList]
  exact hw

theorem wordType_of_isName {name : String} (h : IsName a name) :
    wordType name = some (.named name) := by
  have hne : ∀ k ∈ keywords, name ≠ k := fun k hk heq => h.2 (heq ▸ hk)
  rw [wordType, if_neg (hne _ (by decide)), if_neg (hne _ (by decide)), if_neg (hne _ (by decide)),
    if_neg (hne _ (by decide)), if_neg ?_, if_neg h.2]
  rintro (heq | heq | heq)
  · exact hne _ (by decide) heq
  · exact hne _ (by decide) heq
  · exact hne _ (by decide) heq

theorem reads_name {name : String} (h : IsName a name) :
    Reads a name.toList fun l => ⟨l, .named name⟩ :=
  reads_word name h.1 (wordType_of_isName h)

theorem reads_scalar {v : Json} (h : v.isScalar = true) :
    Reads a v.compact.toList fun l => ⟨l, .literal v.compact⟩ := by
  cases v with
  | null => exact reads_word "null" rfl rfl
  | bool b =>
    cases b with
    | true => exact reads_word "true" rfl rfl
    | false => exact reads_word "false" rfl rfl
  | number n => exact reads_of_token (lexes_number n) rfl
  | string s => exact reads_of_token (lexes_quote s) rfl
  | array vs => cases h
  | object ms => cases h

theorem reads_record (a : Alphabet) : Reads a "Record<string, any>".toList fun l => ⟨l, .record⟩ := by
  have hrecord : Lexes a "Record".toList [.word "Record"] := lexes_identifier rfl
  have hstring : Lexes a "string".toList [.word "string"] := lexes_identifier rfl
  have hany : Lexes a "any".toList [.word "any"] := lexes_identifier rfl
  have hopen : Separates a ['<'] [.mark '<'] := separates_mark (by decide)
  have hcomma : Separates a [',', ' '] [.mark ','] :=
    (separates_mark (by decide)).append (separates_blank (by decide))
  have hclose : Separates a ['>'] [.mark '>'] := separates_mark (by decide)
  have htext : "Record<string, any>".toList =
      "Record".toList ++ ['<'] ++ ("string".toList ++ [',', ' '] ++ "any".toList ++ ['>']) := by
    decide
  refine ⟨.word "Record" :: recordArguments, ?_, fun frames l => ?_⟩
  · rw [htext]
    exact hrecord.append_lexes hopen ((hstring.append_lexes hcomma hany).append hclose)
  · have hname : leafType (.word "Record") = some (.named "Record") :=
      wordType_of_isName (a := a) ⟨rfl, by decide⟩
    rw [run, step, stepOperand_of_leafType hname]
    rfl

/-! ### Object types -/

/-- The lines lex, and where a key has to follow the reader takes them for the
fields. -/
def ReadsFields (a : Alphabet) (cs : List Char) (gs : List Field) : Prop :=
  ∃ ts, Lexes a cs ts ∧ ∀ frames l fields,
    run (.key frames l fields) ts = some (.key frames l (fields ++ gs))

theorem separates_blanks (c : Char) (hc : c.isWhitespace = true) (n : ℕ) :
    Separates a (c :: List.replicate n ' ') [] := by
  induction n generalizing c with
  | zero => exact separates_blank hc
  | succ n ih => exact (separates_blank hc).append (ih ' ' (by decide))

theorem separates_indent (depth : ℕ) : Separates a (indent (depth + 1)).toList [] := by
  rw [indent, String.toList_ofList, show 2 * (depth + 1) = 2 * depth + 1 + 1 by omega,
    List.replicate_succ]
  exact separates_blanks ' ' (by decide) _

theorem separates_newline_indent (depth : ℕ) : Separates a ('\n' :: (indent depth).toList) [] := by
  rw [indent, String.toList_ofList]
  exact separates_blanks '\n' (by decide) _

/-- A key is one token, which the reader takes for a key. -/
theorem lexes_propertyKey (name : String) :
    ∃ x, Lexes a (Identifier.propertyKey name).toList [x] ∧ ∀ frames l fields,
      stepKey frames l fields x = some (.colon frames l fields (Identifier.propertyKey name) false) := by
  rw [Identifier.propertyKey]
  by_cases hbare : Identifier.isBare name = true
  · have hid : a.isIdentifier name.toList = true := by
      rw [Identifier.isBare] at hbare
      cases hname : name.toList with
      | nil =>
        rw [hname] at hbare
        cases hbare
      | cons c cs =>
        rw [hname, Bool.and_eq_true, List.all_eq_true] at hbare
        rw [Alphabet.isIdentifier, Bool.and_eq_true, List.all_eq_true]
        constructor
        · rw [Alphabet.isStart, hbare.1, Bool.true_or, Bool.true_or]
        · intro d hd
          have hword := hbare.2 d hd
          rw [Identifier.isWordChar] at hword
          rw [Alphabet.isPart, hword, Bool.true_or, Bool.true_or]
    have hlex := lexes_identifier hid
    rw [String.ofList_toList] at hlex
    rw [if_pos hbare]
    exact ⟨_, hlex, fun frames l fields => rfl⟩
  · rw [if_neg hbare]
    exact ⟨_, lexes_quote name, fun frames l fields => rfl⟩

/-- The marks between a key and the type of a field. -/
def colon (isOptional : Bool) : List Token :=
  if isOptional then [.mark '?', .mark ':'] else [.mark ':']

theorem separates_colon (isOptional : Bool) :
    Separates a (if isOptional then "?: " else ": ").toList (colon isOptional) := by
  have hcolon : Separates a [':', ' '] [.mark ':'] :=
    (separates_mark (by decide)).append (separates_blank (by decide))
  cases isOptional with
  | true => exact (separates_mark (c := '?') (by decide)).append hcolon
  | false => exact hcolon

theorem run_colon (isOptional : Bool) (frames : List Frame) (l : Level) (fields : List Field)
    (key : String) : run (.colon frames l fields key false) (colon isOptional) =
      some (.operand (.field l fields key isOptional :: frames) {}) := by
  cases isOptional <;> rfl

/-- A field is read from its line. -/
theorem readsFields_line {text : String} (name : String) (isOptional : Bool) (depth : ℕ)
    (h : Reads a text.toList f) :
    ReadsFields a
      (indent (depth + 1) ++ Identifier.propertyKey name ++ (if isOptional then "?: " else ": ") ++
        text ++ ";").toList
      [⟨Identifier.propertyKey name, isOptional, (f {}).close⟩] := by
  obtain ⟨x, hlexkey, hstepkey⟩ := lexes_propertyKey (a := a) name
  obtain ⟨ts, hlex, hrun⟩ := h
  have hend : Separates a [';'] [.mark ';'] := separates_mark (by decide)
  refine ⟨x :: colon isOptional ++ ts ++ [.mark ';'], ?_, fun frames l fields => ?_⟩
  · simp only [String.toList_append]
    exact ((((separates_indent depth).append_lexes hlexkey).append_lexes
      (separates_colon isOptional) hlex).append hend)
  · rw [List.cons_append, List.cons_append, run, step, hstepkey, Option.bind_some, run_append,
      run_append, run_colon, Option.bind_some, hrun, Option.bind_some]
    rfl

/-- Lines one below the other are read one after the other. -/
theorem ReadsFields.append {gs hs : List Field} (h : ReadsFields a cs gs) (h' : ReadsFields a ds hs) :
    ReadsFields a (cs ++ ['\n'] ++ ds) (gs ++ hs) := by
  obtain ⟨ts, hlex, hrun⟩ := h
  obtain ⟨us, hlex', hrun'⟩ := h'
  refine ⟨_, hlex.append_lexes (separates_blank (by decide)) hlex', fun frames l fields => ?_⟩
  rw [List.append_nil, run_append, hrun, Option.bind_some, hrun', List.append_assoc]

theorem reads_empty_object : Reads a ['\x7b', '\x7d'] fun l => ⟨l, .object []⟩ := by
  have hopen : Separates a ['\x7b'] [.mark '\x7b'] := separates_mark (by decide)
  have hclose : Separates a ['\x7d'] [.mark '\x7d'] := separates_mark (by decide)
  exact ⟨_, (hopen.append hclose).lexes, fun frames l => rfl⟩

/-- Lines between braces are read as an object type. -/
theorem ReadsFields.object {gs : List Field} (h : ReadsFields a cs gs) (depth : ℕ) :
    Reads a ('\x7b' :: '\n' :: cs ++ ('\n' :: (indent depth).toList) ++ ['\x7d'])
      fun l => ⟨l, .object gs⟩ := by
  obtain ⟨ts, hlex, hrun⟩ := h
  have hopen : Separates a ['\x7b', '\n'] [.mark '\x7b'] :=
    (separates_mark (by decide)).append (separates_blank (by decide))
  have hclose : Separates a ['\x7d'] [.mark '\x7d'] := separates_mark (by decide)
  refine ⟨.mark '\x7b' :: ts ++ [.mark '\x7d'], ?_, fun frames l => ?_⟩
  · have := ((hopen.append_lexes hlex).append (separates_newline_indent depth)).append hclose
    rwa [List.append_nil] at this
  · rw [List.cons_append, run, step, stepOperand, Option.bind_some, run_append, hrun,
      Option.bind_some]
    rfl

/-! ### Types -/

theorem Reads.parenthesized {text : String} (needed : Bool) (h : Reads a text.toList f) :
    Reads a (parenthesized needed text).toList (Reader.grouped needed f) := by
  cases needed with
  | true =>
    have := h.group
    rw [SchemaTypes.parenthesized, if_pos rfl, String.toList_append, String.toList_append]
    exact this
  | false => exact h

end Reader

namespace TypeTerm

variable {a : Alphabet} {depth : ℕ}

theorem reads_texts {ms : List TypeTerm} (hne : ms ≠ [])
    (h : ∀ m ∈ ms, Reads a (text depth m).toList (readBehind m)) :
    Reads a (" | ".intercalate (texts depth ms)).toList (readUnion ms) := by
  induction ms with
  | nil => exact absurd rfl hne
  | cons m ms ih =>
    have hm := h m List.mem_cons_self
    cases ms with
    | nil =>
      rw [texts, texts, String.intercalate_singleton]
      exact hm
    | cons m' ms =>
      have hms := ih (List.cons_ne_nil m' ms) fun n hn => h n (List.mem_cons_of_mem m hn)
      rw [texts] at hms
      rw [texts, texts, String.intercalate_cons_cons, String.toList_append, String.toList_append]
      exact hm.bar hms

theorem reads_operandTexts {ms : List TypeTerm} (hne : ms ≠ [])
    (h : ∀ m ∈ ms, Reads a (text depth m).toList (readBehind m)) :
    Reads a (" & ".intercalate (operandTexts depth ms)).toList (readIntersection ms) := by
  induction ms with
  | nil => exact absurd rfl hne
  | cons m ms ih =>
    have hm := (h m List.mem_cons_self).parenthesized m.isProperUnion
    cases ms with
    | nil =>
      rw [operandTexts, operandTexts, String.intercalate_singleton]
      exact hm
    | cons m' ms =>
      have hms := ih (List.cons_ne_nil m' ms) fun n hn => h n (List.mem_cons_of_mem m hn)
      rw [operandTexts] at hms
      rw [operandTexts, operandTexts, String.intercalate_cons_cons, String.toList_append,
        String.toList_append]
      exact hm.amp hms

theorem readsFields_fieldLines {fs : List Field} (hne : fs ≠ [])
    (hkey : ∀ f ∈ fs, ∃ name, f.key = Identifier.propertyKey name)
    (h : ∀ f ∈ fs, Reads a (text (depth + 1) f.type).toList (readBehind f.type)) :
    Reader.ReadsFields a ("\n".intercalate (fieldLines (depth + 1) fs)).toList (readFields fs) := by
  induction fs with
  | nil => exact absurd rfl hne
  | cons f fs ih =>
    obtain ⟨key, isOptional, t⟩ := f
    obtain ⟨name, hname⟩ := hkey _ List.mem_cons_self
    have hf := Reader.readsFields_line name isOptional depth (h _ List.mem_cons_self)
    simp only at hname
    rw [← hname] at hf
    cases fs with
    | nil =>
      rw [fieldLines, fieldLines, String.intercalate_singleton]
      exact hf
    | cons f' fs =>
      have hfs := ih (List.cons_ne_nil f' fs) (fun g hg => hkey g (List.mem_cons_of_mem _ hg))
        fun g hg => h g (List.mem_cons_of_mem _ hg)
      rw [fieldLines] at hfs
      rw [fieldLines, fieldLines, String.intercalate_cons_cons, String.toList_append,
        String.toList_append]
      exact hf.append hfs

theorem reads_object {fs : List Field}
    (hkey : ∀ f ∈ fs, ∃ name, f.key = Identifier.propertyKey name)
    (h : ∀ f ∈ fs, Reads a (text (depth + 1) f.type).toList (readBehind f.type)) :
    Reads a (text depth (object fs)).toList (readBehind (object fs)) := by
  cases fs with
  | nil =>
    have htext : (text depth (object [])).toList = ['\x7b', '\x7d'] := by
      rw [text, braced, fieldLines, List.isEmpty_nil, if_pos rfl]
      rfl
    rw [htext]
    exact Reader.reads_empty_object
  | cons f fs =>
    have hfields := (readsFields_fieldLines (List.cons_ne_nil f fs) hkey h).object depth
    have htext : (text depth (object (f :: fs))).toList =
        '\x7b' :: '\n' :: ("\n".intercalate (fieldLines (depth + 1) (f :: fs))).toList ++
          ('\n' :: (indent depth).toList) ++ ['\x7d'] := by
      rw [text, braced, fieldLines, List.isEmpty_cons, if_neg Bool.false_ne_true]
      simp only [String.toList_append, List.append_assoc]
      rfl
    rw [htext]
    exact hfields

/-- **The text of a type is read.** At every depth of nesting the text of a
type that can be written is read in place of an operand. -/
theorem reads_text {t : TypeTerm} (h : Writable a t) (depth : ℕ) :
    Reads a (t.text depth).toList (readBehind t) := by
  induction h generalizing depth with
  | any => exact Reader.reads_word "any" rfl rfl
  | number => exact Reader.reads_word "number" rfl rfl
  | string => exact Reader.reads_word "string" rfl rfl
  | boolean => exact Reader.reads_word "boolean" rfl rfl
  | record => exact Reader.reads_record a
  | literal hv => exact Reader.reads_scalar hv
  | named hn => exact Reader.reads_name hn
  | @array t _ ih =>
    rw [text, String.toList_append]
    exact ((ih depth).parenthesized t.isCompound).array
  | object hkey _ ih => exact reads_object hkey fun f hf => ih f hf (depth + 1)
  | union hne _ ih =>
    rw [text, if_neg (by simpa using hne)]
    exact reads_texts hne fun m hm => ih m hm depth
  | intersection hne _ ih =>
    rw [text, if_neg (by simpa using hne)]
    exact reads_operandTexts hne fun m hm => ih m hm depth

/-- The text of a type that can be written is read to the end. -/
theorem read_text {t : TypeTerm} (h : Writable a t) (depth : ℕ) :
    Reader.read a (t.text depth) = some t.readBack :=
  (reads_text h depth).read

theorem Writable.child {t u : TypeTerm} (h : Writable a t) (hu : u ∈ t.children) : Writable a u := by
  cases h with
  | array h => exact List.mem_singleton.1 hu ▸ h
  | object _ h =>
    obtain ⟨f, hf, rfl⟩ := List.mem_map.1 hu
    exact h f hf
  | union _ h => exact h u hu
  | intersection _ h => exact h u hu
  | _ => cases hu

theorem Writable.subterm {t u : TypeTerm} {position : List Nat} (h : Writable a t)
    (hu : t.subterm? position = some u) : Writable a u := by
  induction position generalizing t with
  | nil => exact Option.some.inj (subterm?_nil t ▸ hu) ▸ h
  | cons i position ih =>
    rw [subterm?] at hu
    obtain ⟨v, hv, hu⟩ := Option.bind_eq_some_iff.1 hu
    exact ih (h.child (List.mem_of_getElem? hv)) hu

theorem Writable.hasMembers {t : TypeTerm} (h : Writable a t) : HasMembers t := by
  intro position u hu
  have hwritable := h.subterm hu
  constructor
  · rintro rfl
    cases hwritable with
    | union hne _ => exact hne rfl
  · rintro rfl
    cases hwritable with
    | intersection hne _ => exact hne rfl

/-- A type that can be written is read back as it is, up to merging, exactly
if it is grouped. -/
theorem merge_readBack_iff_of_writable {t : TypeTerm} (h : Writable a t) :
    t.readBack.merge = t.merge ↔ t.isGrouped = true :=
  merge_readBack_iff h.hasMembers

end TypeTerm
end SchemaTypes
