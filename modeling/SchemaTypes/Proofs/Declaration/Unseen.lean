/-
# Changes of schemas that are not seen

A change of schemas is not seen if a changed schema is typed by the same rule
and declared by the same row, with the schemas that these go on to changed,
and has the same reference, the same property names and the same `required`
list. Then typing and declaring give the same, also if every schema of the
catalog is changed: a target is found where it was, and what it is expanded to
is again not seen to be changed.

Key definitions: `Schema.Unseen`, `Catalog.map`.
Key theorems: `Schema.Unseen.termWith_eq`, `Schema.Unseen.term_eq`,
`Schema.Unseen.emit_eq`.
-/
import SchemaTypes.Proofs.Declaration.Relabel

namespace SchemaTypes

/-- The catalog with its schemas under a function. -/
def Catalog.map (f : Schema → Schema) (c : Catalog) : Catalog where
  entries := c.entries.map fun e => (e.1, f e.2)
  nodup := by
    rw [Entries.names_map]
    exact c.nodup

theorem Catalog.find?_map (f : Schema → Schema) (c : Catalog) (n : String) :
    (c.map f).find? n = (c.find? n).map f :=
  Entries.find?_map f n c.entries

namespace Schema

/-- Neither typing nor declaring sees the change. -/
structure Unseen (f : Schema → Schema) : Prop where
  rule : ∀ s, (f s).rule = s.rule.map f
  row : ∀ s, (f s).row = s.row.map f
  reference : ∀ s, (f s).reference = s.reference
  properties : ∀ s, (f s).properties = s.properties.map (List.map fun p => (p.1, f p.2))
  required : ∀ s, (f s).required = s.required

variable {f : Schema → Schema} {refer : String → Logged TypeTerm}

/-! ### By the shape of a schema -/

theorem membersWith_map {ms : List Schema}
    (h : ∀ m ∈ ms, (f m).termWith refer = m.termWith refer) :
    membersWith refer (ms.map f) = membersWith refer ms := by
  induction ms with
  | nil => rfl
  | cons m ms ih =>
    rw [List.forall_mem_cons] at h
    rw [List.map_cons, membersWith, membersWith, h.1, ih h.2]

theorem propertiesWith_map {ps : List (String × Schema)} (required : List String)
    (h : ∀ p ∈ ps, (f p.2).termWith refer = p.2.termWith refer) :
    propertiesWith refer required (ps.map fun p => (p.1, f p.2)) =
      propertiesWith refer required ps := by
  induction ps with
  | nil => rfl
  | cons p ps ih =>
    rw [List.forall_mem_cons] at h
    rw [List.map_cons, propertiesWith, propertiesWith, h.1, ih h.2]

namespace Unseen

variable (hf : Unseen f)
include hf

/-- A changed schema has the type of the schema. -/
theorem termWith_eq (s : Schema) : (f s).termWith refer = s.termWith refer := by
  induction s using part_induction with
  | step s ih =>
    rw [termWith_eq_rule, termWith_eq_rule, hf.rule, hf.required]
    cases hr : s.rule with
    | reference r => rfl
    | literals vs => rfl
    | union ms =>
      rw [hr] at ih
      have hms : membersWith refer (ms.map f) = membersWith refer ms := membersWith_map ih
      rw [Rule.map, Rule.termWith, Rule.termWith, hms]
    | intersection ms =>
      rw [hr] at ih
      have hms : membersWith refer (ms.map f) = membersWith refer ms := membersWith_map ih
      rw [Rule.map, Rule.termWith, Rule.termWith, hms]
    | array item =>
      rw [hr] at ih
      rw [Rule.map, Rule.termWith, Rule.termWith, ih item (List.mem_singleton_self item)]
    | object ps =>
      rw [hr] at ih
      have hps : ∀ p ∈ ps, (f p.2).termWith refer = p.2.termWith refer :=
        fun p hp => ih p.2 (List.mem_map_of_mem hp)
      rw [Rule.map, Rule.termWith, Rule.termWith, propertiesWith_map s.required hps]
    | plain p => rfl

theorem fieldsWith_eq (s : Schema) : (f s).fieldsWith refer = s.fieldsWith refer := by
  rw [fieldsWith, fieldsWith, hf.properties, hf.required]
  cases s.properties with
  | none => rfl
  | some ps => exact propertiesWith_map s.required fun p _ => hf.termWith_eq p.2

theorem memberListWith_eq (o : Settings) (ms : List Schema) :
    memberListWith refer o (ms.map f) = memberListWith refer o ms := by
  have hmember : ∀ m, (f m).memberWith refer o = m.memberWith refer o := by
    intro m
    rw [memberWith, memberWith, hf.reference, hf.fieldsWith_eq]
  simp only [memberListWith, List.map_map, List.flatMap_map, Function.comp_def, hmember]

/-- A changed schema has the declaration of the schema. -/
theorem declareWith_eq (o : Settings) (n : String) (s : Schema) :
    (f s).declareWith refer o n = s.declareWith refer o n := by
  rw [declareWith, declareWith, hf.row]
  cases s.row with
  | enum vs => rfl
  | union ms => rw [Row.map, Row.declareWith, Row.declareWith, hf.memberListWith_eq]
  | intersection ms => rw [Row.map, Row.declareWith, Row.declareWith, hf.memberListWith_eq]
  | interface => rw [Row.map, Row.declareWith, Row.declareWith, hf.fieldsWith_eq]
  | typeAlias => rw [Row.map, Row.declareWith, Row.declareWith, hf.termWith_eq]

/-! ### Through the catalog -/

theorem reference_eq (c : Catalog) (o : Settings) (stack : List String) :
    ∀ r, Typing.reference (c.map f) o stack r = Typing.reference c o stack r := by
  induction stack using c.stack_induction with
  | step stack ih =>
    intro r
    have hfind := c.find?_map f (Reference.target r)
    cases hi : o.inlineRefs with
    | false =>
      rw [Typing.reference_kept hi, Typing.reference_kept hi, Catalog.contains, Catalog.contains,
        hfind, Option.isSome_map]
    | true =>
      by_cases hs : Reference.target r ∈ stack
      · rw [Typing.reference_cut hi hs, Typing.reference_cut hi hs]
      · cases hc : Reference.resolve? r c with
        | none =>
          have hc' : Reference.resolve? r (c.map f) = none :=
            hfind.trans (congrArg (Option.map f) hc)
          rw [Typing.reference_missing hi hs hc', Typing.reference_missing hi hs hc]
        | some s =>
          have hc' : Reference.resolve? r (c.map f) = some (f s) :=
            hfind.trans (congrArg (Option.map f) hc)
          have hexpansion := funext (ih _ (Catalog.mem_names_of_resolve? hc) hs)
          rw [Typing.reference_expanded hi hs hc', Typing.reference_expanded hi hs hc, hexpansion,
            hf.termWith_eq]

/-- **Typing does not see the change**, of the schema and of the catalog. -/
theorem term_eq (c : Catalog) (o : Settings) (stack : List String) (s : Option Schema) :
    Typing.term (c.map f) o stack (s.map f) = Typing.term c o stack s := by
  have hrefer := funext (hf.reference_eq c o stack)
  cases s with
  | none => rfl
  | some s =>
    rw [Option.map_some, Typing.term, Typing.term, hrefer]
    exact hf.termWith_eq s

/-- **Writing a declaration does not see the change**, of the schema and of the
catalog. -/
theorem emit_eq (c : Catalog) (o : Settings) (n : String) (s : Schema) :
    (c.map f).emit o n (f s) = c.emit o n s := by
  have hrefer := funext (hf.reference_eq c o [n])
  have hdeclare : (c.map f).declare o n (f s) = c.declare o n s := by
    rw [Catalog.declare_eq_declareWith, Catalog.declare_eq_declareWith, hrefer]
    exact hf.declareWith_eq o n s
  rw [Catalog.emit, Catalog.emit, hdeclare]

end Unseen

end Schema
end SchemaTypes
