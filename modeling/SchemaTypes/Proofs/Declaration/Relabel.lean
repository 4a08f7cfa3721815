/-
# Declaring commutes with relabelings

The declaration of a relabeled schema is the relabeled declaration, made of
the same events: its row is the same, and what the row goes on to is typed in
the same way.

So the naming prefix is nothing but a text in front of every declared name.
Where an expansion is cut is decided by bare names, before the prefix is put
in front of them, so that no choice of a prefix can change it; and the switch
for exported declarations is read when the text is put together, after the
declaration is made (`Catalog.declare_prefix_export`).

Key definitions: `Declaration.relabel`, `Declaration.HasNameAt`.
Key theorems: `Catalog.declare_relabel`, `Catalog.declare_prefix_export`.
-/
import SchemaTypes.Proofs.Declaration.Row
import SchemaTypes.Proofs.Typing.Relabel

namespace SchemaTypes

namespace Declaration

variable (ρ : Relabeling)

/-- The declaration under its changed name, with its types relabeled. -/
def relabel : Declaration → Declaration
  | .enum n ms => .enum (ρ.name n) ms
  | .union n ts => .union (ρ.name n) (TypeTerm.relabelMembers ρ ts)
  | .intersection n ts => .intersection (ρ.name n) (TypeTerm.relabelMembers ρ ts)
  | .interface n fs => .interface (ρ.name n) (TypeTerm.relabelFields ρ fs)
  | .typeAlias n t => .typeAlias (ρ.name n) (t.relabel ρ)

/-- A declared name stands at the position of one of the types. -/
def HasNameAt (d : Declaration) (i : Nat) (position : List Nat) : Prop :=
  ∃ t, d.types[i]? = some t ∧ t.HasNameAt position

theorem types_relabel (d : Declaration) : (d.relabel ρ).types = d.types.map (TypeTerm.relabel ρ) := by
  cases d with
  | enum n ms => rfl
  | union n ts => exact TypeTerm.relabelMembers_eq ρ ts
  | intersection n ts => exact TypeTerm.relabelMembers_eq ρ ts
  | interface n fs => exact TypeTerm.children_relabel ρ (.object fs)
  | typeAlias n t => rfl

/-- Names stand where they stood. -/
theorem hasNameAt_relabel (d : Declaration) (i : Nat) (position : List Nat) :
    (d.relabel ρ).HasNameAt i position ↔ d.HasNameAt i position := by
  unfold HasNameAt
  rw [types_relabel, List.getElem?_map]
  constructor
  · rintro ⟨u, hu, hx⟩
    obtain ⟨t, ht, rfl⟩ := Option.map_eq_some_iff.1 hu
    exact ⟨t, ht, (t.hasNameAt_relabel ρ position).1 hx⟩
  · rintro ⟨t, ht, hx⟩
    exact ⟨t.relabel ρ, Option.map_eq_some_iff.2 ⟨t, ht, rfl⟩, (t.hasNameAt_relabel ρ position).2 hx⟩

/-- A relabeling that keeps names and flags keeps the declaration. -/
theorem relabel_of_labels {ρ : Relabeling} (hname : ∀ n, ρ.name n = n) (hflag : ∀ b, ρ.flag b = b)
    (d : Declaration) : d.relabel ρ = d := by
  have htype := TypeTerm.relabel_of_labels hname hflag
  cases d with
  | enum n ms => rw [relabel, hname]
  | union n ts => rw [relabel, hname, TypeTerm.union.inj (htype (.union ts))]
  | intersection n ts =>
    rw [relabel, hname, TypeTerm.intersection.inj (htype (.intersection ts))]
  | interface n fs => rw [relabel, hname, TypeTerm.object.inj (htype (.object fs))]
  | typeAlias n t => rw [relabel, hname, htype]

end Declaration

namespace Schema

variable {ρ : Relabeling} {f g : String → Logged TypeTerm}

/-! ### By the row of a schema -/

/-- The row with the schemas that it goes on to under a function. -/
def Row.map (f : Schema → Schema) : Row → Row
  | .enum vs => .enum vs
  | .union ms => .union (ms.map f)
  | .intersection ms => .intersection (ms.map f)
  | .interface => .interface
  | .typeAlias => .typeAlias

/-- If what the rows look at goes over to the other schema with the members
under the function, so does the row. -/
theorem row_map {f : Schema → Schema} {s t : Schema} (henum : t.enumValues = s.enumValues)
    (hunion : t.unionMembers = s.unionMembers.map (List.map f))
    (hintersection : t.intersectionMembers = s.intersectionMembers.map (List.map f))
    (hshape : t.isObjectShaped = s.isObjectShaped) : t.row = s.row.map f := by
  rw [row, row, henum, hunion, hintersection, hshape]
  cases s.enumValues with
  | some vs => rfl
  | none =>
    cases s.unionMembers with
    | some ms => rfl
    | none =>
      cases s.intersectionMembers with
      | some ms => rfl
      | none => cases s.isObjectShaped <;> rfl

/-- A relabeled schema is declared by the same row, with the members
relabeled. -/
theorem row_relabel (ρ : Relabeling) (s : Schema) : (s.relabel ρ).row = s.row.map (relabel ρ) :=
  row_map (enumValues_relabel ρ s) (unionMembers_relabel ρ s) (intersectionMembers_relabel ρ s)
    (isObjectShaped_relabel ρ s)

theorem memberWith_relabel (h : ∀ r, g r = (f r).map (TypeTerm.relabel ρ)) (o : Settings)
    (m : Schema) :
    (m.relabel ρ).memberWith g (ρ.settings o) = (m.memberWith f o).map (TypeTerm.relabel ρ) := by
  rw [memberWith, memberWith, reference_relabel]
  cases m.reference with
  | some r => exact congrArg (Logged.mk · []) (Typing.named_relabel ρ o r)
  | none =>
    rw [fieldsWith_relabel h]
    rfl

theorem memberListWith_relabel (h : ∀ r, g r = (f r).map (TypeTerm.relabel ρ)) (o : Settings)
    (ms : List Schema) :
    memberListWith g (ρ.settings o) (ms.map (relabel ρ)) =
      (memberListWith f o ms).map (TypeTerm.relabelMembers ρ) := by
  simp only [memberListWith, Logged.map, TypeTerm.relabelMembers_eq, List.map_map,
    List.flatMap_map, Function.comp_def, memberWith_relabel h]

/-- A relabeled schema has the relabeled declaration, if references have the
relabeled types. -/
theorem declareWith_relabel (h : ∀ r, g r = (f r).map (TypeTerm.relabel ρ)) (o : Settings)
    (n : String) (s : Schema) :
    (s.relabel ρ).declareWith g (ρ.settings o) n =
      (s.declareWith f o n).map (Declaration.relabel ρ) := by
  have hname := ρ.declaredName_settings o n
  rw [declareWith, declareWith, row_relabel]
  cases s.row with
  | enum vs => rw [Row.map, Row.declareWith, Row.declareWith, hname]; rfl
  | union ms =>
    rw [Row.map, Row.declareWith, Row.declareWith, memberListWith_relabel h, hname]
    rfl
  | intersection ms =>
    rw [Row.map, Row.declareWith, Row.declareWith, memberListWith_relabel h, hname]
    rfl
  | interface =>
    rw [Row.map, Row.declareWith, Row.declareWith, fieldsWith_relabel h, hname]
    rfl
  | typeAlias =>
    rw [Row.map, Row.declareWith, Row.declareWith, termWith_relabel h, hname,
      ρ.typedAliases_settings]
    split
    · rfl
    · rfl

end Schema

namespace Catalog

/-- **Declaring commutes with relabelings.** The declaration of a relabeled
schema is the relabeled declaration of the schema, and the events are the
same. -/
theorem declare_relabel (ρ : Relabeling) (c : Catalog) (o : Settings) (n : String) (s : Schema) :
    (c.relabel ρ).declare (ρ.settings o) n (s.relabel ρ) =
      (c.declare o n s).map (Declaration.relabel ρ) := by
  rw [declare_eq_declareWith, declare_eq_declareWith]
  exact Schema.declareWith_relabel (Typing.reference_relabel ρ c o [n]) o n s

/-! ### The naming prefix and the export switch -/

variable (c : Catalog) (o : Settings) (start : String)

theorem settings_prefixing :
    (Relabeling.prefixing start).settings { o with namePrefix := "" } =
      { o with namePrefix := start } := by
  change { o with namePrefix := start ++ "" } = _
  rw [String.append_empty]

/-- A prefix is put in front of the names of a type. -/
theorem term_prefixed (stack : List String) (s : Option Schema) :
    Typing.term c { o with namePrefix := start } stack s =
      (Typing.term c { o with namePrefix := "" } stack s).map
        (TypeTerm.relabel (.prefixing start)) := by
  have h := Typing.term_relabel (.prefixing start) c { o with namePrefix := "" } stack s
  have hc : c.relabel (.prefixing start) = c := relabel_of_required (fun _ _ => rfl) c
  have hs : s.map (Schema.relabel (.prefixing start)) = s := by
    cases s with
    | none => rfl
    | some s => rw [Option.map_some, Schema.relabel_of_required fun _ _ => rfl]
  rwa [settings_prefixing, hc, hs] at h

/-- A prefix is put in front of the declared name and of the names of the
types. -/
theorem declare_prefixed (n : String) (s : Schema) :
    c.declare { o with namePrefix := start } n s =
      (c.declare { o with namePrefix := "" } n s).map (Declaration.relabel (.prefixing start)) := by
  have h := declare_relabel (.prefixing start) c { o with namePrefix := "" } n s
  have hc : c.relabel (.prefixing start) = c := relabel_of_required (fun _ _ => rfl) c
  have hs : s.relabel (.prefixing start) = s := Schema.relabel_of_required (fun _ _ => rfl) s
  rwa [settings_prefixing, hc, hs] at h

/-- Declarations are made without a look at the switch for exporting them. -/
theorem declare_exported (exported : Bool) (n : String) (s : Schema) :
    c.declare { o with exported := exported } n s = c.declare o n s := by
  have h := declare_relabel (.exporting exported) c o n s
  have hc : c.relabel (.exporting exported) = c := relabel_of_required (fun _ _ => rfl) c
  have hs : s.relabel (.exporting exported) = s := Schema.relabel_of_required (fun _ _ => rfl) s
  rw [hc, hs] at h
  refine h.trans (Logged.ext ?_ rfl)
  exact Declaration.relabel_of_labels (fun _ => rfl) (fun _ => rfl) _

/-- An exported declaration has the keyword in front. -/
theorem text_exported (d : Declaration) : d.text true = "export " ++ d.text false := by
  rw [Declaration.text, Declaration.text, if_pos rfl, if_neg Bool.false_ne_true,
    String.empty_append]

/-- Writing a declaration looks at the switch for its text only. -/
theorem emit_exported (exported : Bool) (n : String) (s : Schema) :
    c.emit { o with exported := exported } n s =
      { c.emit o n s with text := (c.declare o n s).value.text exported } := by
  have h := declare_exported c o exported n s
  unfold emit
  rw [h]

/-- **The naming prefix and the export switch change names and the keyword,
and nothing else.** What is declared with a prefix is what is declared without
one after the prefix is put in front of the declared name and of every name in
its types; the events are the same, and names stand at the same positions, so
that expansions are cut at the same places. The same holds of the type of any
schema on any stack. The text of an exported declaration is the keyword
followed by the text of the one that is not exported, and what else is told
about it is the same. -/
theorem declare_prefix_export (n : String) (s : Schema) :
    c.declare { o with namePrefix := start } n s =
        (c.declare { o with namePrefix := "" } n s).map (Declaration.relabel (.prefixing start)) ∧
      (∀ i position,
        (c.declare { o with namePrefix := start } n s).value.HasNameAt i position ↔
          (c.declare { o with namePrefix := "" } n s).value.HasNameAt i position) ∧
      (∀ stack t,
        Typing.term c { o with namePrefix := start } stack t =
            (Typing.term c { o with namePrefix := "" } stack t).map
              (TypeTerm.relabel (.prefixing start)) ∧
          ∀ position,
            (Typing.term c { o with namePrefix := start } stack t).value.HasNameAt position ↔
              (Typing.term c { o with namePrefix := "" } stack t).value.HasNameAt position) ∧
      (c.emit { o with exported := true } n s).text =
        "export " ++ (c.emit { o with exported := false } n s).text ∧
      (c.emit { o with exported := true } n s).declaration =
        (c.emit { o with exported := false } n s).declaration ∧
      (c.emit { o with exported := true } n s).events =
        (c.emit { o with exported := false } n s).events := by
  refine ⟨declare_prefixed c o start n s, fun i position => ?_, fun stack t => ⟨?_, ?_⟩, ?_, ?_, ?_⟩
  · rw [declare_prefixed]
    exact Declaration.hasNameAt_relabel _ _ i position
  · exact term_prefixed c o start stack t
  · intro position
    rw [term_prefixed]
    exact TypeTerm.hasNameAt_relabel _ _ position
  · rw [emit_exported c o true, emit_exported c o false]
    exact text_exported _
  · rw [emit_exported c o true, emit_exported c o false]
  · rw [emit_exported c o true, emit_exported c o false]

end Catalog
end SchemaTypes
