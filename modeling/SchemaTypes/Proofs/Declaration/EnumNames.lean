/-
# The names of enum members

A declared enum has one member for each value, in order, under the name that
is made of the text of the value. No name is changed because another member
has it already, so two members have the same name exactly if the texts of
their values are respellings of each other, as `user-name` and `userName`
are. The names are pairwise distinct exactly if no two values are
(`Catalog.enum_names_nodup_iff`).

Key definitions: `Json.spelling`, `Json.IsRespelled`.
Key theorems: `Catalog.enum_names_nodup_iff`, `Catalog.userName_twice`.
-/
import SchemaTypes.Proofs.Declaration.Row
import SchemaTypes.Proofs.Identifier.Respelling

namespace SchemaTypes

namespace Json

/-- The text that an enum member is named for: a string itself, and of any
other value its compact text. -/
def spelling : Json → String
  | .string s => s
  | v => v.compact

/-- The trimmed texts of the values are respellings of each other. -/
def IsRespelled (v w : Json) : Prop :=
  Identifier.Respelled (Text.trim v.spelling.toList) (Text.trim w.spelling.toList)

end Json

theorem EnumMember.name_ofJson (v : Json) : (ofJson v).name = Identifier.member v.spelling := by
  cases v <;> rfl

namespace Catalog

/-- An enum has one member for each value, in order. -/
theorem declare_of_enumValues (c : Catalog) (o : Settings) (n : String) {s : Schema}
    {vs : List Json} (h : s.enumValues = some vs) :
    c.declare o n s = ⟨.enum (o.declaredName n) (vs.map EnumMember.ofJson), []⟩ := by
  rw [declare, h]

/-- **Enum members share a name exactly if their values are respellings.** A
schema with enum values is declared as an enum of one member for each value,
in order, named for the text of the value. The names are pairwise distinct
exactly if no two of the values have texts that are respellings of each
other. -/
theorem enum_names_nodup_iff (c : Catalog) (o : Settings) (n : String) {s : Schema}
    {vs : List Json} (h : s.enumValues = some vs) :
    ∃ ms, (c.declare o n s).value = .enum (o.declaredName n) ms ∧
      ms.map EnumMember.name = vs.map (fun v => Identifier.member v.spelling) ∧
      ((ms.map EnumMember.name).Nodup ↔ vs.Pairwise fun v w => ¬ v.IsRespelled w) := by
  have hnames : (vs.map EnumMember.ofJson).map EnumMember.name =
      vs.map fun v => Identifier.member v.spelling := by
    rw [List.map_map]
    exact List.map_congr_left fun v _ => EnumMember.name_ofJson v
  refine ⟨vs.map EnumMember.ofJson, ?_, hnames, ?_⟩
  · rw [declare_of_enumValues c o n h]
  · rw [hnames, List.Nodup, List.pairwise_map]
    simp only [ne_eq, Identifier.member_eq_iff, Json.IsRespelled]

/-- A schema of two strings that are no respellings of each other. -/
def switch : Schema where
  enum := some [.string "on", .string "off"]

/-- The members of the switch have two names. -/
theorem switch_names_nodup :
    switch.enumValues = some [.string "on", .string "off"] ∧
      ∃ ms, (Catalog.empty.declare {} "A" switch).value = .enum "IA" ms ∧
        (ms.map EnumMember.name).Nodup := by
  have hvalues : switch.enumValues = some [.string "on", .string "off"] := rfl
  have hne : Identifier.member "on" ≠ Identifier.member "off" := by decide
  have hpairwise : [Json.string "on", .string "off"].Pairwise fun v w => ¬ v.IsRespelled w := by
    rw [List.pairwise_pair, Json.IsRespelled, ← Identifier.member_eq_iff]
    exact hne
  obtain ⟨ms, hdeclared, -, hnames⟩ := enum_names_nodup_iff .empty {} "A" hvalues
  exact ⟨hvalues, ms, hdeclared, hnames.2 hpairwise⟩

/-- A schema of two strings that differ in how words are set apart. -/
def userNames : Schema where
  enum := some [.string "user-name", .string "userName"]

/-- Distinct values may have the same name. -/
theorem userName_twice :
    [Json.string "user-name", .string "userName"].Nodup ∧
      userNames.enumValues = some [.string "user-name", .string "userName"] ∧
      ∃ ms, (Catalog.empty.declare {} "A" userNames).value = .enum "IA" ms ∧
        ms.map EnumMember.name = ["USER_NAME", "USER_NAME"] ∧
        ¬ (ms.map EnumMember.name).Nodup := by
  have hnames : ([Json.string "user-name", .string "userName"].map EnumMember.ofJson).map
      EnumMember.name = ["USER_NAME", "USER_NAME"] := by decide
  refine ⟨by simp, rfl, _, rfl, hnames, ?_⟩
  rw [hnames]
  decide

end Catalog
end SchemaTypes
