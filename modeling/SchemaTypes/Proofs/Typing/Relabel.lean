/-
# Typing commutes with relabelings

A relabeling of a type changes its declared names and the flags of its fields
and leaves its shape alone. Typing a relabeled schema against a relabeled
catalog, with relabeled settings, gives the relabeled type and the same
events: no rule looks at a declared name or a flag, and whether a reference is
expanded, cut or reported depends on its target and not on the name that it
would be kept by.

Key definitions: `TypeTerm.relabel`, `TypeTerm.HasNameAt`.
Key theorems: `TypeTerm.subterm?_relabel`, `Schema.termWith_relabel`,
`Typing.reference_relabel`, `Typing.term_relabel`.
-/
import SchemaTypes.Proofs.Schema.Relabel
import SchemaTypes.Proofs.Typing.Congruence

namespace SchemaTypes

namespace TypeTerm

section

variable (ρ : Relabeling)

mutual

/-- The type with its declared names and the flags of its fields changed. -/
def relabel : TypeTerm → TypeTerm
  | .named n => .named (ρ.name n)
  | .array t => .array (relabel t)
  | .object fs => .object (relabelFields fs)
  | .union ms => .union (relabelMembers ms)
  | .intersection ms => .intersection (relabelMembers ms)
  | t => t

/-- Each of the types relabeled. -/
def relabelMembers : List TypeTerm → List TypeTerm
  | [] => []
  | t :: ts => relabel t :: relabelMembers ts

/-- The fields with their flags changed and their types relabeled. -/
def relabelFields : List (FieldOf TypeTerm) → List (FieldOf TypeTerm)
  | [] => []
  | ⟨key, isOptional, t⟩ :: fs => ⟨key, ρ.flag isOptional, relabel t⟩ :: relabelFields fs

end

theorem relabelMembers_eq (ts : List TypeTerm) : relabelMembers ρ ts = ts.map (relabel ρ) := by
  induction ts with
  | nil => rfl
  | cons t ts ih => rw [relabelMembers, ih, List.map_cons]

theorem relabelFields_eq (fs : List Field) :
    relabelFields ρ fs = fs.map fun f => ⟨f.key, ρ.flag f.isOptional, f.type.relabel ρ⟩ := by
  induction fs with
  | nil => rfl
  | cons f fs ih => rw [relabelFields, ih, List.map_cons]

theorem children_relabel (t : TypeTerm) : (t.relabel ρ).children = t.children.map (relabel ρ) := by
  cases t with
  | object fs =>
    rw [relabel, relabelFields_eq, children, children, List.map_map, List.map_map]
    rfl
  | union ms => exact relabelMembers_eq ρ ms
  | intersection ms => exact relabelMembers_eq ρ ms
  | _ => rfl

/-- What stands at a position stands there relabeled. -/
theorem subterm?_relabel (t : TypeTerm) (position : List Nat) :
    (t.relabel ρ).subterm? position = (t.subterm? position).map (relabel ρ) := by
  induction position generalizing t with
  | nil => rw [subterm?_nil, subterm?_nil, Option.map_some]
  | cons i position ih =>
    rw [subterm?, subterm?, children_relabel, List.getElem?_map]
    cases t.children[i]? with
    | none => rfl
    | some u => exact ih u

/-- A declared name stands at the position. -/
def HasNameAt (t : TypeTerm) (position : List Nat) : Prop :=
  ∃ n, t.subterm? position = some (.named n)

/-- Names stand where they stood: only a name is relabeled to a name. -/
theorem hasNameAt_relabel (t : TypeTerm) (position : List Nat) :
    (t.relabel ρ).HasNameAt position ↔ t.HasNameAt position := by
  unfold HasNameAt
  rw [subterm?_relabel]
  constructor
  · rintro ⟨n, h⟩
    obtain ⟨u, hu, hn⟩ := Option.map_eq_some_iff.1 h
    cases u with
    | named m => exact ⟨m, hu⟩
    | _ => cases hn
  · rintro ⟨n, h⟩
    rw [h]
    exact ⟨ρ.name n, rfl⟩

end

/-- A relabeling that keeps names and flags keeps the type. -/
theorem relabel_of_labels {ρ : Relabeling} (hname : ∀ n, ρ.name n = n) (hflag : ∀ b, ρ.flag b = b)
    (t : TypeTerm) : t.relabel ρ = t := by
  induction t using child_induction with
  | step t ih =>
    have hmembers : ∀ ms : List TypeTerm, (∀ m ∈ ms, m.relabel ρ = m) → relabelMembers ρ ms = ms := by
      intro ms hms
      have : ms.map (relabel ρ) = ms.map id := List.map_congr_left hms
      rw [relabelMembers_eq, this, List.map_id]
    cases t with
    | named n => rw [relabel, hname]
    | array t => rw [relabel, ih t (List.mem_singleton_self t)]
    | object fs =>
      have hfields : relabelFields ρ fs = fs.map id := by
        rw [relabelFields_eq]
        refine List.map_congr_left fun f hf => ?_
        rw [hflag, ih f.type (List.mem_map_of_mem hf)]
        rfl
      rw [relabel, hfields, List.map_id]
    | union ms => rw [relabel, hmembers ms ih]
    | intersection ms => rw [relabel, hmembers ms ih]
    | _ => rfl

end TypeTerm

namespace Schema

variable {ρ : Relabeling} {f g : String → Logged TypeTerm}

/-! ### By the shape of a schema -/

theorem membersWith_relabel {ms : List Schema}
    (h : ∀ m ∈ ms, (m.relabel ρ).termWith g = (m.termWith f).map (TypeTerm.relabel ρ)) :
    membersWith g (ms.map (relabel ρ)) = (membersWith f ms).map (TypeTerm.relabelMembers ρ) := by
  induction ms with
  | nil => rfl
  | cons m ms ih =>
    rw [List.forall_mem_cons] at h
    rw [List.map_cons, membersWith, membersWith, h.1, ih h.2]
    rfl

/-- The flags change as the `required` list does. -/
theorem propertiesWith_relabel {ps : List (String × Schema)} {names listed : List String}
    (hnames : ∀ p ∈ ps, p.1 ∈ names)
    (h : ∀ p ∈ ps, (p.2.relabel ρ).termWith g = (p.2.termWith f).map (TypeTerm.relabel ρ)) :
    propertiesWith g (ρ.required names listed) (ps.map fun p => (p.1, p.2.relabel ρ)) =
      (propertiesWith f listed ps).map (TypeTerm.relabelFields ρ) := by
  induction ps with
  | nil => rfl
  | cons p ps ih =>
    rw [List.forall_mem_cons] at hnames h
    have hflag := ρ.flag_required names listed p.1 hnames.1
    rw [List.map_cons, propertiesWith, propertiesWith, h.1, ih hnames.2 h.2, hflag]
    rfl

/-- A relabeled schema has the relabeled type, if references do. -/
theorem termWith_relabel (h : ∀ r, g r = (f r).map (TypeTerm.relabel ρ)) (s : Schema) :
    (s.relabel ρ).termWith g = (s.termWith f).map (TypeTerm.relabel ρ) := by
  induction s using part_induction with
  | step s ih =>
    have hk := keyword_of_rule s
    rw [termWith_eq_rule, termWith_eq_rule, rule_relabel, required_relabel]
    cases hr : s.rule with
    | reference r => exact h r
    | literals vs =>
      have : TypeTerm.relabelMembers ρ (literals vs) = literals vs := by
        rw [TypeTerm.relabelMembers_eq, literals, List.map_map]
        rfl
      rw [Rule.map, Rule.termWith, Rule.termWith, Logged.map, TypeTerm.relabel, this]
    | union ms =>
      rw [hr] at ih
      have hms : membersWith g (ms.map (relabel ρ)) = _ := membersWith_relabel ih
      rw [Rule.map, Rule.termWith, Rule.termWith, hms]
      rfl
    | intersection ms =>
      rw [hr] at ih
      have hms : membersWith g (ms.map (relabel ρ)) = _ := membersWith_relabel ih
      rw [Rule.map, Rule.termWith, Rule.termWith, hms]
      rfl
    | array item =>
      rw [hr] at ih
      rw [Rule.map, Rule.termWith, Rule.termWith, ih item (List.mem_singleton_self item)]
      rfl
    | object ps =>
      rw [hr] at ih hk
      have hps : ∀ p ∈ ps, (p.2.relabel ρ).termWith g = (p.2.termWith f).map (TypeTerm.relabel ρ) :=
        fun p hp => ih p.2 (List.mem_map_of_mem hp)
      have hnames : ∀ p ∈ ps, p.1 ∈ (s.properties.getD []).map Prod.fst := by
        intro p hp
        rw [hk]
        exact List.mem_map_of_mem hp
      rw [Rule.map, Rule.termWith, Rule.termWith, propertiesWith_relabel hnames hps]
      rfl
    | plain p => cases p <;> rfl

theorem fieldsWith_relabel (h : ∀ r, g r = (f r).map (TypeTerm.relabel ρ)) (s : Schema) :
    (s.relabel ρ).fieldsWith g = (s.fieldsWith f).map (TypeTerm.relabelFields ρ) := by
  rw [fieldsWith, fieldsWith, properties_relabel, required_relabel]
  cases s.properties with
  | none => rfl
  | some ps =>
    exact propertiesWith_relabel (fun p hp => List.mem_map_of_mem hp)
      fun p _ => termWith_relabel h p.2

end Schema

namespace Typing

variable (ρ : Relabeling) (c : Catalog) (o : Settings)

/-! ### Through the catalog -/

theorem named_relabel (r : String) : named (ρ.settings o) r = (named o r).relabel ρ :=
  congrArg TypeTerm.named (ρ.declaredName_settings o (Reference.target r))

/-- A reference has the relabeled type: its target is looked up in the same
place, and it is on the stack or not as before. -/
theorem reference_relabel (stack : List String) :
    ∀ r, reference (c.relabel ρ) (ρ.settings o) stack r =
      (reference c o stack r).map (TypeTerm.relabel ρ) := by
  induction stack using c.stack_induction with
  | step stack ih =>
    intro r
    -- Both runs read the same switch and look up the same names, so they take the same branch.
    have hinline := ρ.inlineRefs_settings o
    cases hi : o.inlineRefs with
    | false =>
      rw [reference_kept (hinline.trans hi), reference_kept hi, Catalog.contains_relabel,
        named_relabel]
      rfl
    | true =>
      by_cases hs : Reference.target r ∈ stack
      · rw [reference_cut (hinline.trans hi) hs, reference_cut hi hs, named_relabel]
        rfl
      · have hfind := c.find?_relabel ρ (Reference.target r)
        cases hc : Reference.resolve? r c with
        | none =>
          have hc' : Reference.resolve? r (c.relabel ρ) = none :=
            hfind.trans (congrArg (Option.map (Schema.relabel ρ)) hc)
          rw [reference_missing (hinline.trans hi) hs hc', reference_missing hi hs hc]
          rfl
        | some s =>
          have hc' : Reference.resolve? r (c.relabel ρ) = some (s.relabel ρ) :=
            hfind.trans (congrArg (Option.map (Schema.relabel ρ)) hc)
          rw [reference_expanded (hinline.trans hi) hs hc', reference_expanded hi hs hc]
          exact Schema.termWith_relabel (ih _ (Catalog.mem_names_of_resolve? hc) hs) s

/-- **Typing commutes with relabelings.** The type of a relabeled schema is
the relabeled type of the schema, and the events are the same. -/
theorem term_relabel (stack : List String) (s : Option Schema) :
    term (c.relabel ρ) (ρ.settings o) stack (s.map (Schema.relabel ρ)) =
      (term c o stack s).map (TypeTerm.relabel ρ) := by
  cases s with
  | none => rfl
  | some s => exact Schema.termWith_relabel (reference_relabel ρ c o stack) s

end Typing
end SchemaTypes
