/-
# The values of an enum

A schema that lists values, as a string or without a type, is written in two
ways: its type is the union of the literals of the values, and its declaration
is an enum with an initializer for each value.

The literal of a value is its compact text, so no value is lost or mistaken
for another one: the text is read as the value (`Typing.literals_read_back`).

An initializer is the same text if the value is a string or a number. Any
other value is put between quotes, and is a string to whoever reads the enum.
Then the two renderings do not have the same texts in any order: an
initializer starts with a quote, a minus sign or a digit, and the literal of
such a value with a letter or a bracket. So the renderings agree exactly if
all values are strings and numbers (`Catalog.initializers_eq_literals_iff`).

Key definitions: `Schema.Lists`, `Json.isPlain`.
Key theorems: `Typing.literals_read_back`,
`Catalog.initializers_eq_literals_iff`, `Catalog.true_initialized_as_string`.
-/
import SchemaTypes.Proofs.Declaration.EnumNames
import SchemaTypes.Proofs.Declaration.Precedence
import SchemaTypes.Proofs.Json.RoundTrip

namespace SchemaTypes

/-- The schema is no reference, is of type string or without a type, and lists
these values, of which there is at least one. -/
structure Schema.Lists (s : Schema) (vs : List Json) : Prop where
  reference : s.reference = none
  kind : s.kind = none ∨ s.kind = some .string
  values : s.enum = some vs
  nonempty : vs ≠ []

variable {s : Schema} {vs : List Json} {c : Catalog} {o : Settings} {r : String}

namespace Schema.Lists

theorem enumValues (h : s.Lists vs) : s.enumValues = some vs := by
  obtain ⟨v, vs', hvs⟩ := List.exists_cons_of_ne_nil h.nonempty
  rw [Schema.enumValues, h.values, hvs]
  rfl

/-- Its type is the union of the literals, whatever the references are. -/
theorem termWith (h : s.Lists vs) (refer : String → Logged TypeTerm) :
    s.termWith refer = ⟨.union ((vs.map Json.compact).map .literal), []⟩ := by
  have hvalues := Schema.stringEnumValues_of_enumValues h.enumValues h.kind
  have hrule : s.rule = .literals vs := by
    rw [Schema.rule, h.reference, hvalues]
  rw [Schema.termWith_eq_rule, hrule, List.map_map]
  rfl

/-- A reference to it that is expanded is the union of the literals. -/
theorem reference_expanded (h : s.Lists vs) {stack : List String} (hi : o.inlineRefs = true)
    (hs : Reference.target r ∉ stack) (hc : Reference.resolve? r c = some s) :
    Typing.reference c o stack r = ⟨.union ((vs.map Json.compact).map .literal), []⟩ := by
  rw [Typing.reference_expanded hi hs hc, h.termWith]

end Schema.Lists

/-! ### Literals -/

namespace Typing

/-- **Literals are faithful.** The type of a schema that lists values is the
union of one literal for each value, in order. The literal of an exact value
that is nested no deeper than the reader allows is read as the value; and
exact values, at any depth of nesting, are the same if their literals are. -/
theorem literals_read_back (h : s.Lists vs) (c : Catalog) (o : Settings) (stack : List String) :
    ∃ texts : List String,
      term c o stack (some s) = ⟨.union (texts.map .literal), []⟩ ∧ texts.length = vs.length ∧
        (∀ (i : Nat) (v : Json) (text : String), vs[i]? = some v → texts[i]? = some text →
          v.Exact → v.nesting ≤ Json.maxDepth → Json.parse text = .ok v) ∧
        ∀ (i j : Nat) (v w : Json) (text : String), vs[i]? = some v → vs[j]? = some w →
          v.Exact → w.Exact → texts[i]? = some text → texts[j]? = some text → v = w := by
  have htexts : ∀ (i : Nat) (v : Json) (text : String), vs[i]? = some v →
      (vs.map Json.compact)[i]? = some text → text = v.compact := by
    intro i v text hv ht
    rw [List.getElem?_map, hv] at ht
    exact (Option.some.inj ht).symm
  refine ⟨vs.map Json.compact, h.termWith _, List.length_map .., ?_, ?_⟩
  · intro i v text hv ht hexact hnesting
    have hread : Json.parse (String.ofList [] ++ v.compact ++ String.ofList []) = .ok v :=
      Json.parse_compact hexact hnesting nofun nofun
    rw [htexts i v text hv ht]
    simpa using hread
  · intro i j v w text hv hw hvexact hwexact hvtext hwtext
    have hsame : v.compact = w.compact := by
      rw [← htexts i v text hv hvtext, ← htexts j w text hw hwtext]
    exact Json.compact_inj hvexact hwexact hsame

/-- An object with an array in it. -/
def arrayAndNull : Json :=
  .object [("z", .array [.bool true]), ("a", .null)]

theorem exact_arrayAndNull : arrayAndNull.Exact := by
  have htrue : (Json.bool true).Exact := .of_inside_eq_nil rfl rfl rfl
  have harray : (Json.array [.bool true]).Exact :=
    .intro List.nodup_nil rfl (List.forall_mem_singleton.2 htrue)
  have hnull : Json.null.Exact := .of_inside_eq_nil rfl rfl rfl
  exact .intro (by decide) rfl
    (List.forall_mem_cons.2 ⟨harray, List.forall_mem_singleton.2 hnull⟩)

/-- A string with characters that are escaped, the least integer, and an
object with an array in it. -/
def mixedValues : List Json :=
  [.string "a\"\n", .number (.integer (-9223372036854775808) (by decide) (by decide)), arrayAndNull]

/-- A schema that lists them. -/
def mixed : Schema where
  enum := some mixedValues

theorem exact_mixedValues : ∀ v ∈ mixedValues, v.Exact ∧ v.nesting ≤ Json.maxDepth := by
  rw [mixedValues, List.forall_mem_cons, List.forall_mem_cons, List.forall_mem_singleton]
  refine ⟨⟨?_, by decide⟩, ⟨?_, by decide⟩, exact_arrayAndNull, by decide⟩
  · exact .of_inside_eq_nil rfl rfl rfl
  · exact .of_inside_eq_nil rfl rfl rfl

/-- The literals of the mixed values are read as these values. -/
theorem literals_read_back_mixed :
    mixed.Lists mixedValues ∧
      ∃ texts : List String,
        term .empty {} [] (some mixed) = ⟨.union (texts.map .literal), []⟩ ∧ texts.length = 3 ∧
          ∀ (i : Nat) (v : Json) (text : String), mixedValues[i]? = some v →
            texts[i]? = some text → Json.parse text = .ok v := by
  have h : mixed.Lists mixedValues := ⟨rfl, .inl rfl, rfl, List.cons_ne_nil _ _⟩
  obtain ⟨texts, hterm, hlength, hread, -⟩ := literals_read_back h .empty {} []
  refine ⟨h, texts, hterm, hlength, fun i v text hv htext => ?_⟩
  obtain ⟨hexact, hnesting⟩ := exact_mixedValues v (List.mem_of_getElem? hv)
  exact hread i v text hv htext hexact hnesting

end Typing

/-! ### Initializers -/

/-- A string or a number. -/
def Json.isPlain : Json → Bool
  | .string _ | .number _ => true
  | _ => false

/-- The text starts with a quote, a minus sign or a digit. -/
def Text.startsPlain (s : String) : Bool :=
  s.toList.head?.any fun ch => ch = '"' || ch = '-' || ch.isDigit

open Text (startsPlain)

theorem Text.startsPlain_quote (s : String) : startsPlain (quote s) = true := by
  simp [startsPlain, quote]

theorem Json.Number.startsPlain_text (n : Number) : startsPlain n.text = true := by
  obtain ⟨cs, hnumeral, htext | htext⟩ := Reader.isNumeralText_number n
  · obtain ⟨ch, ds, rfl, hdigit⟩ := hnumeral.eq_cons
    simp [startsPlain, htext, hdigit]
  · simp [startsPlain, htext]

/-- Only a string or a number starts as one. -/
theorem Json.startsPlain_compact (v : Json) : startsPlain v.compact = v.isPlain := by
  cases v with
  | null => rfl
  | bool b =>
    cases b with
    | false => rfl
    | true => rfl
  | number n => exact n.startsPlain_text
  | string s => exact Text.startsPlain_quote s
  | array vs => simp [startsPlain, compact, isPlain, Char.isDigit]
  | object ms => simp [startsPlain, compact, isPlain, Char.isDigit]

/-- An initializer is the text of the value, between quotes unless the value
is a string or a number. -/
theorem EnumMember.value_ofJson (v : Json) :
    (ofJson v).value = if v.isPlain then v.compact else Text.quote v.compact := by
  cases v <;> rfl

/-- Every initializer starts as a string or a number. -/
theorem EnumMember.startsPlain_value (v : Json) : startsPlain (ofJson v).value = true := by
  rw [value_ofJson]
  by_cases hplain : v.isPlain = true
  · rw [if_pos hplain, Json.startsPlain_compact, hplain]
  · rw [if_neg hplain]
    exact Text.startsPlain_quote _

/-- The texts of values are among the initializers only if all the values are
strings and numbers. -/
theorem Json.isPlain_of_compact_mem
    (h : ∀ v ∈ vs, v.compact ∈ (vs.map EnumMember.ofJson).map EnumMember.value) :
    ∀ v ∈ vs, v.isPlain = true := by
  intro v hv
  obtain ⟨m, hm, hvalue⟩ := List.mem_map.1 (h v hv)
  obtain ⟨w, -, rfl⟩ := List.mem_map.1 hm
  have hstarts : startsPlain v.compact = true := by
    rw [← hvalue]
    exact EnumMember.startsPlain_value w
  rwa [Json.startsPlain_compact] at hstarts

namespace Catalog

/-- **Initializers are the literals exactly of strings and numbers.** A schema
that lists values is declared as an enum with the text of each value as its
initializer, in order, but between quotes unless the value is a string or a
number; the literals of its type are these texts as they are. The two lists
are the same exactly if all the values are strings and numbers, and so are the
two sets. A reference to the schema is the name of the enum if references are
kept, and the union of the literals if they are expanded. -/
theorem initializers_eq_literals_iff (h : s.Lists vs) (c : Catalog) (o : Settings) (n : String) :
    ∃ ms : List EnumMember,
      c.declare o n s = ⟨.enum (o.declaredName n) ms, []⟩ ∧
        (∀ stack, Typing.term c o stack (some s) =
          ⟨.union ((vs.map Json.compact).map .literal), []⟩) ∧
        ms.map EnumMember.value =
          vs.map (fun v => if v.isPlain then v.compact else Text.quote v.compact) ∧
        (ms.map EnumMember.value = vs.map Json.compact ↔ ∀ v ∈ vs, v.isPlain = true) ∧
        ((∀ text, text ∈ ms.map EnumMember.value ↔ text ∈ vs.map Json.compact) ↔
          ∀ v ∈ vs, v.isPlain = true) ∧
        ∀ r stack, Reference.target r = n → Reference.resolve? r c = some s → n ∉ stack →
          Typing.reference c { o with inlineRefs := false } stack r =
              ⟨.named (o.declaredName n), []⟩ ∧
            Typing.reference c { o with inlineRefs := true } stack r =
              ⟨.union ((vs.map Json.compact).map .literal), []⟩ := by
  have hvalues : (vs.map EnumMember.ofJson).map EnumMember.value =
      vs.map fun v => if v.isPlain then v.compact else Text.quote v.compact := by
    rw [List.map_map]
    exact List.map_congr_left fun v _ => EnumMember.value_ofJson v
  have hsame : (∀ v ∈ vs, v.isPlain = true) →
      (vs.map EnumMember.ofJson).map EnumMember.value = vs.map Json.compact := by
    intro hplain
    rw [hvalues]
    exact List.map_congr_left fun v hv => if_pos (hplain v hv)
  refine ⟨vs.map EnumMember.ofJson, declare_of_enumValues c o n h.enumValues,
    fun stack => h.termWith _, hvalues, ⟨fun heq => ?_, hsame⟩, ⟨fun hset => ?_, ?_⟩, ?_⟩
  · refine Json.isPlain_of_compact_mem fun v hv => ?_
    rw [heq]
    exact List.mem_map_of_mem hv
  · exact Json.isPlain_of_compact_mem fun v hv => (hset _).2 (List.mem_map_of_mem hv)
  · intro hplain text
    rw [hsame hplain]
  · rintro r stack rfl hc hs
    have hcontains : c.contains (Reference.target r) = true := by
      rw [contains, show c.find? (Reference.target r) = some s from hc]
      rfl
    constructor
    · rw [Typing.reference_kept rfl, if_pos hcontains]
      rfl
    · exact h.reference_expanded rfl hs hc

/-- A schema that lists a string and a number. -/
def wordOrNumber : Schema where
  enum := some [.string "one", .number (.integer 2 (by decide) (by decide))]

/-- The enum of a string and a number has their literals as its initializers. -/
theorem initializers_wordOrNumber :
    wordOrNumber.Lists [.string "one", .number (.integer 2 (by decide) (by decide))] ∧
      ∃ ms : List EnumMember,
        empty.declare {} "A" wordOrNumber = ⟨.enum "IA" ms, []⟩ ∧
          ms.map EnumMember.value = ["\"one\"", "2"] := by
  have h : wordOrNumber.Lists [.string "one", .number (.integer 2 (by decide) (by decide))] :=
    ⟨rfl, .inl rfl, rfl, List.cons_ne_nil _ _⟩
  obtain ⟨ms, hdeclared, -, -, hsame, -⟩ := initializers_eq_literals_iff h empty {} "A"
  exact ⟨h, ms, hdeclared, hsame.2 (by decide)⟩

/-- A schema that lists a truth value. -/
def alwaysTrue : Schema where
  enum := some [.bool true]

/-- The literal of a truth value is the truth value, and its initializer is a
string. -/
theorem true_initialized_as_string :
    alwaysTrue.Lists [.bool true] ∧
      Typing.term empty {} [] (some alwaysTrue) = ⟨.union [.literal "true"], []⟩ ∧
      empty.declare {} "A" alwaysTrue = ⟨.enum "IA" [⟨"TRUE", "\"true\""⟩], []⟩ ∧
      [(⟨"TRUE", "\"true\""⟩ : EnumMember)].map EnumMember.value ≠ ["true"] := by
  refine ⟨⟨rfl, .inl rfl, rfl, List.cons_ne_nil _ _⟩, ?_, ?_, by decide⟩
  · rw [Typing.term]
    rfl
  · have hvalues : alwaysTrue.enumValues = some [.bool true] := rfl
    have hmember : EnumMember.ofJson (.bool true) = ⟨"TRUE", "\"true\""⟩ := by decide
    rw [declare_of_enumValues empty {} "A" hvalues, List.map_singleton, hmember]
    rfl

end Catalog
end SchemaTypes
