/-
# A module is one block for each entry

Where the naming prefix, the names of the entries and the references have no
line feed in them, the declarations can be told apart in the text of a module:
split at every blank line, it falls apart into their texts, in the order of
the entries. What else a document holds makes no difference: the names of
properties and the values of `enum` are written on one line.

The types that a schema is given are tidy (`Typing.tidy_term`), by the course
of typing: what is left for a reference is its declared name or an empty
object, an expansion gives the type of an entry, and all other labels are keys
and literals. So is the declaration, and its text is a block.

Key definitions: `Declaration.Tidy`.
Key theorems: `Typing.tidy_term`, `Catalog.tidy_declare`,
`Declaration.isBlock_text`, `Catalog.blocks_moduleText`.
-/
import SchemaTypes.Proofs.Declaration.Closed
import SchemaTypes.Proofs.TypeTerm.Tidy
import SchemaTypes.Proofs.Typing.Leaves

namespace SchemaTypes

open Text (OnOneLine Solid IsBlock)

namespace Schema

variable {refer : String → Logged TypeTerm} {s : Schema}

/-- The labels that a schema itself brings into its type are keys. -/
theorem onOneLine_labels_termWith (h : ∀ r, s.rule ≠ .reference r) :
    ∀ x ∈ (s.termWith refer).value.labels, OnOneLine x := by
  intro x hx
  rw [termWith_eq_rule] at hx
  cases hr : s.rule with
  | reference r => exact absurd hr (h r)
  | object ps =>
    rw [hr, Rule.termWith, Logged.value_map, value_propertiesWith, TypeTerm.labels,
      List.map_map] at hx
    obtain ⟨p, -, rfl⟩ := List.mem_map.1 hx
    exact Identifier.onOneLine_propertyKey p.1
  | plain p =>
    rw [hr] at hx
    cases p <;> cases hx
  | _ =>
    rw [hr] at hx
    cases hx

theorem tidy_leaves (rule : Rule) : ∀ u ∈ rule.leaves, u.Tidy := by
  intro u hu
  obtain rfl | ⟨v, rfl⟩ := eq_of_mem_leaves hu
  · exact .of_nil rfl rfl
  · refine .of_labels rfl fun x hx => ?_
    rw [List.mem_singleton.1 hx]
    exact Json.onOneLine_compact v

theorem mentions_of_rule {r : String} (h : s.rule = .reference r) : s.Mentions r := by
  have hk := keyword_of_rule s
  rw [h] at hk
  exact mentions_of_reference hk

/-- The object type of the properties is tidy if their types are. -/
theorem tidy_fieldsWith (h : ∀ p ∈ s.properties.getD [], (p.2.termWith refer).value.Tidy) :
    (TypeTerm.object (s.fieldsWith refer).value).Tidy := by
  constructor
  · intro x hx
    rw [TypeTerm.labels, value_fieldsWith, List.map_map] at hx
    obtain ⟨p, -, rfl⟩ := List.mem_map.1 hx
    exact Identifier.onOneLine_propertyKey p.1
  · intro u hu
    rw [TypeTerm.children, types_fieldsWith] at hu
    obtain ⟨p, hp, rfl⟩ := List.mem_map.1 hu
    exact h p hp

end Schema

namespace Typing

variable {c : Catalog} {o : Settings} {stack : List String} {r : String}

theorem tidy_named (hp : OnOneLine o.namePrefix) (hr : OnOneLine r) : (named o r).Tidy := by
  refine .of_labels rfl fun x hx => ?_
  rw [List.mem_singleton.1 hx]
  exact Reference.onOneLine_declaredName hp hr

/-- The type of a schema is tidy if the references that the schema and the
entries mention stand on one line. -/
theorem tidy_term (hp : OnOneLine o.namePrefix)
    (hc : ∀ e ∈ c.entries, ∀ r, e.2.Mentions r → OnOneLine r) (stack : List String) (s : Schema) :
    (∀ r, s.Mentions r → OnOneLine r) → (term c o stack (some s)).value.Tidy := by
  induction stack, s using Typing.induction with
  | left stack s r hr h =>
    intro hs
    rw [term_of_reference hr]
    rcases value_of_isLeft h with hv | ⟨-, hv⟩
    · rw [hv]
      exact tidy_named hp (hs r (Schema.mentions_of_rule hr))
    · rw [hv]
      exact .of_nil rfl rfl
  | expand stack s r t hi hr hs ht ih =>
    intro _
    rw [term_expanded hi hr hs ht]
    exact ih (hc _ (Catalog.mem_entries_of_find? ht))
  | parts stack s hs ih =>
    intro hmentions
    refine .intro (Schema.onOneLine_labels_termWith hs) fun u hu => ?_
    rw [term, Schema.children_termWith hs, List.mem_append] at hu
    rcases hu with hu | hu
    · obtain ⟨t, ht, rfl⟩ := List.mem_map.1 hu
      exact ih t ht fun r hr => hmentions r (hr.sub (Schema.mem_subschemas_of_mem_parts ht))
    · exact Schema.tidy_leaves s.rule u hu

end Typing

namespace Declaration

/-- The names, labels and values in the declaration stand on one line each. -/
def Tidy : Declaration → Prop
  | .enum n ms => OnOneLine n ∧ ∀ m ∈ ms, OnOneLine m.name ∧ OnOneLine m.value
  | .union n ts => OnOneLine n ∧ (TypeTerm.union ts).Tidy
  | .intersection n ts => OnOneLine n ∧ (TypeTerm.intersection ts).Tidy
  | .interface n fs => OnOneLine n ∧ (TypeTerm.object fs).Tidy
  | .typeAlias n t => OnOneLine n ∧ t.Tidy

theorem isBlock_typeText {n : String} {t : TypeTerm} (hn : OnOneLine n) (ht : t.Tidy) :
    IsBlock (typeText n t) := by
  have hhead : IsBlock "type " := OnOneLine.isBlock (by decide) (by decide)
  have hequals : Solid " = " := OnOneLine.solid (by decide)
  have hend : Solid ";" := OnOneLine.solid (by decide)
  exact (((hhead.append hn.solid).append hequals).append (TypeTerm.solid_text ht 0)).append hend

theorem isBlock_enumBody {ms : List EnumMember}
    (h : ∀ m ∈ ms, OnOneLine m.name ∧ OnOneLine m.value) : IsBlock (enumBody ms) := by
  have hlines : ∀ l ∈ memberLines ms, IsBlock l := by
    intro l hl
    obtain ⟨m, hm, rfl⟩ := List.mem_map.1 hl
    have hhead : OnOneLine ("  " ++ m.name ++ " = ") :=
      (OnOneLine.append (by decide) (h m hm).1).append (by decide)
    have hend : IsBlock "," := OnOneLine.isBlock (by decide) (by decide)
    exact (hhead.append (h m hm).2).solid.append_isBlock hend
  have hbody : enumBody ms = braced 0 (memberLines ms) := by
    unfold enumBody braced
    cases ms with
    | nil => rfl
    | cons m ms =>
      have hindent : indent 0 = "" := rfl
      have hclose : ("\n\x7d" : String) = "\n" ++ "\x7d" := rfl
      rw [hindent, String.append_empty, hclose, ← String.append_assoc]
      rfl
  rw [hbody]
  exact isBlock_braced 0 hlines

theorem isBlock_localText {d : Declaration} (h : d.Tidy) : IsBlock d.localText := by
  have hblank : Solid " " := OnOneLine.solid (by decide)
  cases d with
  | enum n ms =>
    have hhead : IsBlock "enum " := OnOneLine.isBlock (by decide) (by decide)
    exact ((hhead.append h.1.solid).append hblank).append (isBlock_enumBody h.2).toSolid
  | union n ts => exact isBlock_typeText h.1 h.2
  | intersection n ts => exact isBlock_typeText h.1 h.2
  | interface n fs =>
    have hhead : IsBlock "interface " := OnOneLine.isBlock (by decide) (by decide)
    have hfields := TypeTerm.solid_text h.2 0
    rw [TypeTerm.text] at hfields
    exact ((hhead.append h.1.solid).append hblank).append hfields
  | typeAlias n t => exact isBlock_typeText h.1 h.2

/-- The text of a tidy declaration is a block. -/
theorem isBlock_text {d : Declaration} (h : d.Tidy) (exported : Bool) :
    IsBlock (d.text exported) := by
  have hkeyword : Solid (if exported then "export " else "") := by
    cases exported with
    | false => exact OnOneLine.solid (by decide)
    | true => exact OnOneLine.solid (by decide)
  exact hkeyword.append_isBlock (isBlock_localText h)

end Declaration

namespace Catalog

variable {c : Catalog} {o : Settings} {n : String} {s : Schema}

theorem tidy_declare (hp : OnOneLine o.namePrefix) (hn : OnOneLine n)
    (hc : ∀ e ∈ c.entries, ∀ r, e.2.Mentions r → OnOneLine r)
    (hs : ∀ r, s.Mentions r → OnOneLine r) : (c.declare o n s).value.Tidy := by
  have hname : OnOneLine (o.declaredName n) := hp.append hn
  have hfields : ∀ m : Schema, (∀ r, m.Mentions r → OnOneLine r) →
      (TypeTerm.object (m.fieldsWith (Typing.reference c o [n])).value).Tidy := by
    intro m hm
    refine Schema.tidy_fieldsWith fun p hp' => ?_
    refine Typing.tidy_term hp hc [n] p.2 fun r hr => hm r ?_
    exact hr.sub (Schema.mem_subschemas_of_property hp')
  have hmembers : ∀ ms, s.row = .union ms ∨ s.row = .intersection ms →
      ∀ u ∈ (Schema.memberListWith (Typing.reference c o [n]) o ms).value, u.Tidy := by
    intro ms hrow u hu
    obtain ⟨m, hm, rfl⟩ := List.mem_map.1 hu
    have hsub := Schema.mem_subschemas_of_row hrow hm
    cases hmr : m.reference with
    | some r =>
      rw [Schema.memberWith_of_reference hmr]
      exact Typing.tidy_named hp (hs r ((Schema.mentions_of_reference hmr).sub hsub))
    | none =>
      rw [Schema.memberWith_of_fields hmr]
      exact hfields m fun r hr => hs r (hr.sub hsub)
  rw [declare_eq_declareWith, Schema.declareWith]
  cases hrow : s.row with
  | enum vs =>
    refine ⟨hname, fun m hm => ?_⟩
    obtain ⟨v, -, rfl⟩ := List.mem_map.1 hm
    exact EnumMember.onOneLine_ofJson v
  | union ms => exact ⟨hname, .of_children rfl (hmembers ms (.inl hrow))⟩
  | intersection ms => exact ⟨hname, .of_children rfl (hmembers ms (.inr hrow))⟩
  | interface => exact ⟨hname, hfields s hs⟩
  | typeAlias =>
    rw [Schema.Row.declareWith]
    split
    · exact ⟨hname, Typing.tidy_term hp hc [n] s hs⟩
    · exact ⟨hname, .of_nil rfl rfl⟩

/-- **A module is one block for each entry.** If the prefix, the names and the
references stand on one line each, the blocks of the module of a catalog with
an entry are the texts of the declarations, in order. Each has something in it,
no blank line, and no line feed at either end. -/
theorem blocks_moduleText (c : Catalog) (o : Settings) (hne : c.entries ≠ [])
    (hp : OnOneLine o.namePrefix) (hnames : ∀ n ∈ c.names, OnOneLine n)
    (hreferences : ∀ e ∈ c.entries, ∀ r, e.2.Mentions r → OnOneLine r) :
    Text.blocks (c.moduleText o) = c.entries.map (fun e => (c.emit o e.1 e.2).text) ∧
      ∀ e ∈ c.entries, (c.emit o e.1 e.2).text ≠ "" ∧
        ¬ ['\n', '\n'] <:+: (c.emit o e.1 e.2).text.toList ∧
        (c.emit o e.1 e.2).text.toList.head? ≠ some '\n' ∧
        (c.emit o e.1 e.2).text.toList.getLast? ≠ some '\n' := by
  have hblock : ∀ e ∈ c.entries, IsBlock (c.emit o e.1 e.2).text := by
    intro e he
    have hname := hnames e.1 (List.mem_map_of_mem he)
    exact Declaration.isBlock_text (tidy_declare hp hname hreferences (hreferences e he)) o.exported
  constructor
  · have htexts : (c.emissions o).map (·.text) = c.entries.map fun e => (c.emit o e.1 e.2).text := by
      rw [emissions, List.map_map]
      rfl
    rw [moduleText, htexts]
    refine Text.blocks_intercalate (by simpa using hne) fun s hs => ?_
    obtain ⟨e, he, rfl⟩ := List.mem_map.1 hs
    exact (hblock e he).toSolid
  · intro e he
    have h := hblock e he
    exact ⟨h.nonempty, h.toSolid.not_infix, h.head, h.last⟩

/-- A property name and a value with blank lines in them. -/
def blankLines : Catalog where
  entries :=
    [("A", { properties := some [("a\n\nb", .ofKind .string)] }),
      ("B", { enum := some [.string "\n\n"] })]
  nodup := by decide

theorem not_mentions_blankLines : ∀ e ∈ blankLines.entries, ∀ r, ¬ e.2.Mentions r := by
  intro e he r hr
  have hkind : ¬ (Schema.ofKind .string).Mentions r := fun h => by
    rcases Schema.mentions_iff.1 h with h | ⟨t, ht, -⟩
    · cases h
    · cases ht
  rcases List.mem_pair.1 he with rfl | rfl
  · rcases Schema.mentions_iff.1 hr with h | ⟨t, ht, h⟩
    · cases h
    · rw [List.mem_singleton.1 ht] at h
      exact hkind h
  · rcases Schema.mentions_iff.1 hr with h | ⟨t, ht, -⟩
    · cases h
    · cases ht

/-- They do not get in the way of the two blocks. -/
theorem blocks_blankLines :
    blankLines.entries ≠ [] ∧ OnOneLine "I" ∧ (∀ n ∈ blankLines.names, OnOneLine n) ∧
      (∀ e ∈ blankLines.entries, ∀ r, e.2.Mentions r → OnOneLine r) ∧
      Text.blocks (blankLines.moduleText {}) =
        ["export interface IA \x7b\n  \"a\\n\\nb\"?: string;\n\x7d",
          "export enum IB \x7b\n  _ = \"\\n\\n\",\n\x7d"] := by
  have hne : blankLines.entries ≠ [] := List.cons_ne_nil _ _
  have hp : OnOneLine "I" := by decide
  have hnames : ∀ n ∈ blankLines.names, OnOneLine n := by decide
  have hreferences : ∀ e ∈ blankLines.entries, ∀ r, e.2.Mentions r → OnOneLine r :=
    fun e he r hr => absurd hr (not_mentions_blankLines e he r)
  refine ⟨hne, hp, hnames, hreferences, ?_⟩
  rw [(blocks_moduleText blankLines {} hne hp hnames hreferences).1]
  rfl

end Catalog
end SchemaTypes
