/-
# Edits that leave the catalog of a document as it is

A document is edited where one of its definitions is: in the document itself
if it has no version, under `components` and `schemas` if it has one. Two
documents that are joined by a chain of edits, there and back, are both read
or both refused. They are read as the same catalog, so all that is written
for it is the same; and if a definition is the reason for refusing one of
them, the definition of the same name is for the other.

One edit leaves the outcome of reading as it is (`outcome_of_edit`): the
definitions before the edited one are the same, so it is reached in both
documents or in none, and it is a definition in both or in none.

Key definitions: `Document.Edit`, `Document.outcome`.
Key theorems: `Document.outcome_of_edit`, `Document.catalog_of_edits`.
-/
import Mathlib.Logic.Relation
import SchemaTypes.Declaration.Emit
import SchemaTypes.Proofs.Document.Definitions
import SchemaTypes.Proofs.Schema.Edit

namespace SchemaTypes

/-- What is found under a key is found in the first part of the entries or,
if nothing is there, in the second. -/
theorem Entries.find?_append {α : Type} (key : String) (es es' : Entries α) :
    Entries.find? key (es ++ es') = (Entries.find? key es).or (Entries.find? key es') := by
  induction es with
  | nil => rfl
  | cons e es ih =>
    obtain ⟨name, a⟩ := e
    rw [List.cons_append, Entries.find?, Entries.find?]
    split
    · rfl
    · exact ih

namespace Document

/-- One of the definitions of an object is edited. -/
inductive DefinitionEdit : Json → Json → Prop
  | definition {front back : List (String × Json)} {name : String} {v v' : Json}
      (h : Schema.Edit v v') :
      DefinitionEdit (.object (front ++ (name, v) :: back)) (.object (front ++ (name, v') :: back))

/-- One of the definitions of a document is edited. -/
inductive Edit : Json → Json → Prop
  | bare {d d' : Json} (hopenapi : d.get? "openapi" = none) (h : DefinitionEdit d d') : Edit d d'
  | versioned {front back front' back' : List (String × Json)} {schemas schemas' : Json}
      (hopenapi : "openapi" ∈ Entries.names (front ++ back)) (h : DefinitionEdit schemas schemas') :
      Edit (.object (front ++ ("components", .object (front' ++ ("schemas", schemas) :: back')) :: back))
        (.object (front ++ ("components", .object (front' ++ ("schemas", schemas') :: back')) :: back))

section

variable {α β : Type}

/-- The name of the definition that is at fault, if one is. -/
def refused? : Except Fault α → Option String
  | .error (.schema name _) => some name
  | _ => none

/-- What comes of reading: what is read, or else the name of the definition
that is at fault, if one is. -/
def outcome (x : Except Fault α) : Option α × Option String :=
  (x.toOption, refused? x)

theorem refused?_eq_some_iff {x : Except Fault α} {name : String} :
    refused? x = some name ↔ ∃ e, x = .error (.schema name e) := by
  cases x with
  | ok a => simp [refused?]
  | error e => cases e <;> simp [refused?]

theorem isSome_toOption (x : Except Fault α) : x.toOption.isSome = x.isOk := by
  cases x <;> rfl

theorem outcome_map (f : α → β) (x : Except Fault α) :
    outcome (x.map f) = ((outcome x).1.map f, (outcome x).2) := by
  cases x with
  | ok a => rfl
  | error e => cases e <;> rfl

theorem outcome_map_congr {x y : Except Fault α} (h : outcome x = outcome y) (f : α → β) :
    outcome (x.map f) = outcome (y.map f) := by
  rw [outcome_map, outcome_map, h]

end

/-! ### Definitions -/

/-- Definitions are read alike if one of them is replaced by a value that is
read as the same schema. -/
theorem outcome_decodeEntries_replace {v v' : Json}
    (hv : (Schema.decode v).toOption = (Schema.decode v').toOption) (name : String)
    (front back : List (String × Json)) :
    outcome (decodeEntries (front ++ (name, v) :: back)) =
      outcome (decodeEntries (front ++ (name, v') :: back)) := by
  induction front with
  | nil =>
    rw [List.nil_append, List.nil_append, decodeEntries, decodeEntries]
    cases hs : Schema.decode v with
    | ok s =>
      rw [hs] at hv
      rw [toOption_eq_some_iff.1 hv.symm]
    | error e =>
      cases hs' : Schema.decode v' with
      | ok s' =>
        rw [hs, hs'] at hv
        cases hv
      | error e' => rfl
  | cons m front ih =>
    obtain ⟨n, w⟩ := m
    rw [List.cons_append, List.cons_append, decodeEntries, decodeEntries]
    cases Schema.decode w with
    | ok s => exact outcome_map_congr ih _
    | error e => rfl

theorem outcome_entriesOf_of_edit {d d' : Json} (h : DefinitionEdit d d') :
    outcome (entriesOf d) = outcome (entriesOf d') := by
  cases h with
  | definition h =>
    exact outcome_map_congr
      (outcome_decodeEntries_replace (Schema.toOption_decode_of_edit h) _ _ _) _

/-- An edit of a definition leaves every key. -/
theorem DefinitionEdit.isSome_get? {d d' : Json} (h : DefinitionEdit d d') (key : String) :
    (d.get? key).isSome = (d'.get? key).isSome := by
  cases h with
  | @definition front back name v v' _ =>
    rw [Json.get?, Json.get?, Entries.find?_append, Entries.find?_append]
    cases Entries.find? key front with
    | some w => rfl
    | none =>
      rw [Option.none_or, Option.none_or, Entries.find?, Entries.find?]
      split <;> rfl

/-! ### Documents -/

/-- The value of one member has no say in what is found under other keys. -/
theorem find?_replace_of_ne {key name : String} (h : name ≠ key) (v v' : Json)
    (front back : List (String × Json)) :
    Entries.find? key (front ++ (name, v) :: back) =
      Entries.find? key (front ++ (name, v') :: back) := by
  rw [Entries.find?_append, Entries.find?_append, Entries.find?, Entries.find?, if_neg h, if_neg h]

/-- Under its own key it is found, unless something stands before it. -/
theorem find?_replace (name : String) (v v' : Json) (front back : List (String × Json)) :
    Entries.find? name (front ++ (name, v) :: back) =
        Entries.find? name (front ++ (name, v') :: back) ∨
      Entries.find? name (front ++ (name, v) :: back) = some v ∧
        Entries.find? name (front ++ (name, v') :: back) = some v' := by
  simp only [Entries.find?_append, Entries.find?, if_true]
  cases Entries.find? name front with
  | some w => exact .inl rfl
  | none => exact .inr ⟨rfl, rfl⟩

theorem catalog_of_swagger {d : Json} (h : (d.get? "swagger").isSome = true) :
    catalog d = .error (.unsupported .swagger) := by
  rw [catalog, if_pos h]

theorem catalog_of_bare {d : Json} (hswagger : (d.get? "swagger").isSome = false)
    (hopenapi : d.get? "openapi" = none) : catalog d = entriesOf d := by
  simp only [catalog, hswagger, hopenapi]
  rfl

/-- What a document has under `components` and `schemas` decides its catalog,
once its version is settled. -/
theorem outcome_catalog_congr {d d' : Json} (hswagger : d.get? "swagger" = d'.get? "swagger")
    (hopenapi : d.get? "openapi" = d'.get? "openapi") (hversion : (d.get? "openapi").isSome = true)
    (hschemas : (d.get? "components").bind (·.get? "schemas") =
        (d'.get? "components").bind (·.get? "schemas") ∨
      ∃ schemas schemas', (d.get? "components").bind (·.get? "schemas") = some schemas ∧
        (d'.get? "components").bind (·.get? "schemas") = some schemas' ∧
        outcome (entriesOf schemas) = outcome (entriesOf schemas')) :
    outcome (catalog d) = outcome (catalog d') := by
  obtain ⟨version, hv⟩ := Option.isSome_iff_exists.1 hversion
  unfold catalog
  rw [← hswagger, ← hopenapi, hv]
  by_cases hs : (d.get? "swagger").isSome = true
  · rw [if_pos hs, if_pos hs]
  · rw [if_neg hs, if_neg hs]
    by_cases hsupported : isSupported (versionText version) = true
    · simp only [hsupported, Bool.not_true, Bool.false_eq_true, if_false]
      rcases hschemas with h | ⟨schemas, schemas', h, h', houtcome⟩
      · rw [h]
      · rw [h, h']
        exact houtcome
    · simp only [hsupported, Bool.not_false, if_true]

/-- **One edit leaves the outcome of reading as it is.** -/
theorem outcome_of_edit {d d' : Json} (h : Edit d d') :
    outcome (catalog d) = outcome (catalog d') := by
  cases h with
  | bare hopenapi h =>
    have hopenapi' : d'.get? "openapi" = none := by
      have hsome := h.isSome_get? "openapi"
      rw [hopenapi] at hsome
      exact Option.isNone_iff_eq_none.1 (Option.isSome_eq_false_iff.1 hsome.symm)
    have hsome := h.isSome_get? "swagger"
    cases hswagger : (d.get? "swagger").isSome with
    | true => rw [catalog_of_swagger hswagger, catalog_of_swagger (hsome ▸ hswagger)]
    | false =>
      rw [catalog_of_bare hswagger hopenapi, catalog_of_bare (hsome ▸ hswagger) hopenapi']
      exact outcome_entriesOf_of_edit h
  | @versioned front back front' back' schemas schemas' hopenapi h =>
    have hversion : "openapi" ∈ Entries.names (front ++ ("components",
        Json.object (front' ++ ("schemas", schemas) :: back')) :: back) := by
      rw [Entries.names, List.map_append, List.mem_append] at hopenapi ⊢
      exact hopenapi.imp_right (List.mem_cons_of_mem _)
    obtain ⟨version, hversion⟩ := Entries.exists_find?_of_mem_names hversion
    apply outcome_catalog_congr
    · exact find?_replace_of_ne (by decide) _ _ _ _
    · exact find?_replace_of_ne (by decide) _ _ _ _
    · exact Option.isSome_iff_exists.2 ⟨version, hversion⟩
    · obtain hc | ⟨hc, hc'⟩ := find?_replace "components"
        (.object (front' ++ ("schemas", schemas) :: back'))
        (.object (front' ++ ("schemas", schemas') :: back')) front back
      · exact .inl (congrArg (Option.bind · _) hc)
      · rw [Json.get?, Json.get?, hc, hc', Option.bind_some, Option.bind_some, Json.get?, Json.get?]
        refine (find?_replace "schemas" schemas schemas' front' back').imp_right ?_
        rintro ⟨hs, hs'⟩
        exact ⟨schemas, schemas', hs, hs', outcome_entriesOf_of_edit h⟩

/-- A chain of edits leaves it as it is. -/
theorem outcome_of_edits {d d' : Json} (h : Relation.EqvGen Edit d d') :
    outcome (catalog d) = outcome (catalog d') := by
  induction h with
  | rel d d' h => exact outcome_of_edit h
  | refl d => rfl
  | symm d d' _ ih => exact ih.symm
  | trans d d' d'' _ _ ih ih' => exact ih.trans ih'

/-- **Other keys and the order of the keywords do not matter.** Two documents
that are joined by edits are both read or both refused. If they are read, it is
as the same catalog, and the same module is written for them; if a definition
of one is refused, the definition of this name is refused in the other. -/
theorem catalog_of_edits {d d' : Json} (h : Relation.EqvGen Edit d d') :
    (catalog d).isOk = (catalog d').isOk ∧
      (∀ c c', catalog d = .ok c → catalog d' = .ok c' →
        c = c' ∧ ∀ o, c.moduleText o = c'.moduleText o) ∧
      ∀ name, (∃ e, catalog d = .error (.schema name e)) ↔
        ∃ e, catalog d' = .error (.schema name e) := by
  have houtcome := outcome_of_edits h
  have hread : (catalog d).toOption = (catalog d').toOption := congrArg Prod.fst houtcome
  have hrefused : refused? (catalog d) = refused? (catalog d') := congrArg Prod.snd houtcome
  refine ⟨?_, ?_, ?_⟩
  · rw [← isSome_toOption, hread, isSome_toOption]
  · intro c c' hc hc'
    rw [hc, hc'] at hread
    obtain rfl : c = c' := Option.some.inj hread
    exact ⟨rfl, fun o => rfl⟩
  · intro name
    rw [← refused?_eq_some_iff, ← refused?_eq_some_iff, hrefused]

/-- A document with one definition, which has a property. -/
def point : Json :=
  .object [("Point", .object
    [("type", .string "object"),
      ("properties", .object [("x", .object [("type", .string "number")])])])]

/-- The same with another key in the property, and with the keywords of the
definition in another order. -/
def notedPoint : Json :=
  .object [("Point", .object
    [("properties", .object [("x", .object [("type", .string "number"), ("format", .null)])]),
      ("type", .string "object")])]

theorem edits_point : Relation.EqvGen Edit point notedPoint := by
  have hinsert : Schema.Edit (.object [("type", .string "number")])
      (.object [("type", .string "number"), ("format", .null)]) :=
    @Schema.Edit.insert [("type", .string "number")] [] "format" .null rfl
  have hproperty := @Schema.EditUnder.property [] [] "x" _ _ hinsert
  have hmember := @Schema.Edit.member [("type", .string "object")] [] "properties" .properties _ _
    rfl hproperty
  have hdefinition := @DefinitionEdit.definition [] [] "Point" _ _ hmember
  refine .trans _ _ _ (.rel _ _ (.bare rfl hdefinition)) (.rel _ _ (.bare rfl ?_))
  exact @DefinitionEdit.definition [] [] "Point" _ _ (.permute (by decide) (.swap _ _ _))

/-- The two documents are read as the same catalog. -/
theorem catalog_notedPoint :
    Relation.EqvGen Edit point notedPoint ∧ (catalog notedPoint).isOk = true ∧
      ∀ c, catalog notedPoint = .ok c → ∃ c', catalog point = .ok c' ∧ c' = c := by
  have h := edits_point
  obtain ⟨hisOk, hsame, -⟩ := catalog_of_edits h
  have hpoint : (catalog point).isOk = true := rfl
  refine ⟨h, hisOk ▸ hpoint, fun c hc => ?_⟩
  cases hp : catalog point with
  | error e =>
    rw [hp] at hpoint
    cases hpoint
  | ok c' => exact ⟨c', rfl, (hsame c' c hp hc).1⟩

end Document
end SchemaTypes
