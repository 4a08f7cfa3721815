/-
# Schemas written as JSON objects

An object encodes a schema if it has every keyword under which the schema has
something, with a value that says what it is, in any order. A keyword under
which the schema has nothing is left out or, except for `required`, given as
null, and an unknown kind is any value but null and the names of the six
others. Keys that are no keyword may stand between.

What encodes a schema is read as this schema (`decode_of_encodes`): each
keyword is read into its own place, so the order of the keys is of no
importance, and the induction goes down the values. Every schema has an
encoding (`encodes_encode`), which lists its keywords in their usual order.

Key definitions: `Schema.Encodes`, `Schema.EncodesUnder`, `Schema.encode`.
Key theorems: `Schema.decode_of_encodes`, `Schema.encodes_encode`.
-/
import Mathlib.Data.List.Forall2
import SchemaTypes.Proofs.Schema.Definition
import SchemaTypes.Proofs.Schema.Keyword
import SchemaTypes.Proofs.Schema.Rule

namespace SchemaTypes.Schema

/-- The members that stand under one of the three keywords that list
members. -/
def membersAt : Keyword → Schema → Option (List Schema)
  | .oneOf, s => s.oneOf
  | .anyOf, s => s.anyOf
  | .allOf, s => s.allOf
  | _, _ => none

mutual

/-- The value is an object that writes the schema out. -/
inductive Encodes : Json → Schema → Prop
  | object {ms : List (String × Json)} {s : Schema} (hnames : (Entries.names ms).Nodup)
      (h : ∀ k : Keyword, EncodesUnder k (Entries.find? k.name ms) s) : Encodes (.object ms) s

/-- What is found under the keyword, if anything is, says what the schema has
there. -/
inductive EncodesUnder : Keyword → Option Json → Schema → Prop
  | leftOut {k : Keyword} {s : Schema} (h : s.under k = {}) : EncodesUnder k none s
  | null {k : Keyword} {s : Schema} (hk : k ≠ .required) (h : s.under k = {}) :
      EncodesUnder k (some .null) s
  | kind {kind : Kind} {s : Schema} (h : s.kind = some kind) (hkind : kind ≠ .unknown) :
      EncodesUnder .type (some (.string kind.name)) s
  | unknownKind {v : Json} {s : Schema} (h : s.kind = some .unknown) (hnull : v ≠ .null)
      (hv : ∀ kind : Kind, kind ≠ .unknown → v ≠ .string kind.name) :
      EncodesUnder .type (some v) s
  | enum {values : List Json} {s : Schema} (h : s.enum = some values) :
      EncodesUnder .enum (some (.array values)) s
  | properties {ms : List (String × Json)} {ps : List (String × Schema)} {s : Schema}
      (h : s.properties = some ps) (hnames : Entries.names ms = Entries.names ps)
      (hms : List.Forall₂ Encodes (ms.map Prod.snd) (ps.map Prod.snd)) :
      EncodesUnder .properties (some (.object ms)) s
  | required {names : List String} {s : Schema} (h : s.required = names) :
      EncodesUnder .required (some (.array (names.map .string))) s
  | members {k : Keyword} {vs : List Json} {ss : List Schema} {s : Schema}
      (h : s.membersAt k = some ss) (hvs : List.Forall₂ Encodes vs ss) :
      EncodesUnder k (some (.array vs)) s
  | reference {r : String} {s : Schema} (h : s.reference = some r) :
      EncodesUnder .reference (some (.string r)) s
  | items {v : Json} {s t : Schema} (h : s.items = some t) (hv : Encodes v t) :
      EncodesUnder .items (some v) s

end

/-! ### Reading what encodes a schema -/

theorem Kind.ofName_name (kind : Kind) : Kind.ofName kind.name = kind := by
  cases kind <;> rfl

theorem Kind.name_injective : Function.Injective Kind.name :=
  Function.LeftInverse.injective ofName_name

/-- A value that is neither null nor the name of another kind stands for the
unknown kind. -/
theorem Kind.ofJson_of_unknown {v : Json} (hnull : v ≠ .null)
    (hv : ∀ kind : Kind, kind ≠ .unknown → v ≠ .string kind.name) :
    Kind.ofJson v = some .unknown := by
  cases v with
  | null => exact absurd rfl hnull
  | string name =>
    have hname : ∀ kind : Kind, kind ≠ .unknown → name ≠ kind.name := fun kind hkind h =>
      hv kind hkind (congrArg Json.string h)
    have hinteger : name ≠ "integer" := hname .integer (by decide)
    have hnumber : name ≠ "number" := hname .number (by decide)
    have hstring : name ≠ "string" := hname .string (by decide)
    have hboolean : name ≠ "boolean" := hname .boolean (by decide)
    have harray : name ≠ "array" := hname .array (by decide)
    have hobject : name ≠ "object" := hname .object (by decide)
    simp only [Kind.ofJson, Kind.ofName, hinteger, hnumber, hstring, hboolean, harray, hobject,
      if_false]
  | _ => rfl

theorem decodeStrings_map_string (names : List String) :
    decodeStrings (names.map .string) = .ok names := by
  induction names with
  | nil => rfl
  | cons name names ih =>
    rw [List.map_cons, decodeStrings, ih]
    rfl

variable {s : Schema} {k : Keyword}

theorem decodeList_of_encodes {vs : List Json} {ss : List Schema}
    (ih : ∀ v ∈ vs, ∀ s, Encodes v s → decode v = .ok s) (h : List.Forall₂ Encodes vs ss) :
    decodeList vs = .ok ss := by
  induction h with
  | nil => rfl
  | cons hv _ ihvs =>
    rw [List.forall_mem_cons] at ih
    rw [decodeList, ih.1 _ hv, ihvs ih.2]
    rfl

theorem decodeNamed_of_encodes {ms : List (String × Json)} {ps : List (String × Schema)}
    (ih : ∀ m ∈ ms, ∀ s, Encodes m.2 s → decode m.2 = .ok s)
    (hnames : Entries.names ms = Entries.names ps)
    (h : List.Forall₂ Encodes (ms.map Prod.snd) (ps.map Prod.snd)) : decodeNamed ms = .ok ps := by
  induction ms generalizing ps with
  | nil =>
    obtain rfl : ps = [] := List.map_eq_nil_iff.1 hnames.symm
    rfl
  | cons m ms ihms =>
    obtain ⟨name, v⟩ := m
    cases ps with
    | nil => cases hnames
    | cons p ps =>
      obtain ⟨name', t⟩ := p
      rw [List.forall_mem_cons] at ih
      obtain ⟨hv, hvs⟩ := List.forall₂_cons.1 h
      obtain ⟨hname, hnames⟩ := List.cons.inj hnames
      simp only at hname
      rw [decodeNamed, ih.1 _ hv, ihms ih.2 hnames hvs, hname]
      rfl

/-- What is found under a keyword is read as what the schema has there, if the
values no larger than it are read as they have to be: `items` holds a schema
itself. -/
theorem decodeUnder_of_encodesUnder {found : Option Json}
    (ih : ∀ v ∈ found, ∀ w, sizeOf w ≤ sizeOf v → ∀ t, Encodes w t → decode w = .ok t)
    (h : EncodesUnder k found s) : decodeUnder k found = .ok (s.under k) := by
  cases h with
  | leftOut h =>
    rw [h]
    rfl
  | null hk h =>
    rw [h, decodeUnder]
    cases k with
    | required => exact absurd rfl hk
    | type =>
      rw [decodeKeyword]
      rfl
    | _ => rfl
  | kind h hkind =>
    rw [decodeUnder, decodeKeyword, Kind.ofJson, Kind.ofName_name, ← h]
    rfl
  | unknownKind h hnull hv =>
    rw [decodeUnder, decodeKeyword, Kind.ofJson_of_unknown hnull hv, ← h]
    rfl
  | enum h =>
    rw [decodeUnder, decodeKeyword, ← h]
    rfl
  | properties h hnames hms =>
    have hread := decodeNamed_of_encodes (fun m hm =>
      ih _ rfl m.2 (Nat.le_of_lt (sizeOf_lt_of_mem_members hm))) hnames hms
    rw [decodeUnder, decodeKeyword, hread, Except.map, ← h]
    rfl
  | required h =>
    rw [decodeUnder, decodeKeyword, decodeStrings_map_string, ← h]
    rfl
  | members h hvs =>
    have hread := decodeList_of_encodes (fun v hv =>
      ih _ rfl v (Nat.le_of_lt (sizeOf_lt_of_mem_items hv))) hvs
    cases k with
    | oneOf | anyOf | allOf =>
      rw [membersAt] at h
      rw [decodeUnder, decodeKeyword, hread, Except.map, ← h]
      rfl
    | _ => cases h
  | reference h =>
    rw [decodeUnder, decodeKeyword, ← h]
    rfl
  | items h hv =>
    have hread := ih _ rfl _ Nat.le.refl _ hv
    cases hv with
    | object hnames hms =>
      rw [decode] at hread
      rw [decodeUnder, decodeKeyword, hread, Except.map, ← h]
      rfl

/-- **What encodes a schema is read as this schema.** -/
theorem decode_of_encodes {v : Json} {s : Schema} (h : Encodes v s) : decode v = .ok s := by
  cases h with
  | @object ms _ hnames h =>
    rw [decode, decodeMembers_eq_ok_iff hnames]
    intro k
    refine decodeUnder_of_encodesUnder (fun v hv w hw t ht => ?_) (h k)
    have := sizeOf_lt_of_mem_members (Entries.mem_of_find? hv)
    have := Nat.lt_of_le_of_lt hw this
    exact decode_of_encodes ht
termination_by sizeOf v
decreasing_by all_goals assumption

/-! ### An encoding of every schema -/

/-- The members that have a value under some keywords, in the usual order. -/
def keywordMembers (f : Keyword → Option Json) : List (String × Json) :=
  Keyword.all.filterMap fun k => (f k).map fun v => (k.name, v)

mutual

/-- What is written under a keyword of a schema; nothing where the schema has
nothing. -/
def written : Schema → Keyword → Option Json
  | { kind, enum, properties, required, oneOf, anyOf, allOf, reference, items }, k =>
    match k with
    | .type => kind.map fun kind => .string kind.name
    | .enum => enum.map .array
    | .properties =>
      match properties with
      | some ps => some (.object (writtenNamed ps))
      | none => none
    | .required => some (.array (required.map .string))
    | .oneOf =>
      match oneOf with
      | some ms => some (.array (writtenList ms))
      | none => none
    | .anyOf =>
      match anyOf with
      | some ms => some (.array (writtenList ms))
      | none => none
    | .allOf =>
      match allOf with
      | some ms => some (.array (writtenList ms))
      | none => none
    | .reference => reference.map .string
    | .items =>
      match items with
      | some t => some (.object (keywordMembers (written t)))
      | none => none

/-- The objects of schemas. -/
def writtenList : List Schema → List Json
  | [] => []
  | s :: ss => .object (keywordMembers (written s)) :: writtenList ss

/-- The objects of schemas with names. -/
def writtenNamed : List (String × Schema) → List (String × Json)
  | [] => []
  | (name, s) :: ps => (name, .object (keywordMembers (written s))) :: writtenNamed ps

end

/-- A schema as an object of its keywords. -/
def encode (s : Schema) : Json :=
  .object (keywordMembers s.written)

theorem writtenList_eq (ss : List Schema) : writtenList ss = ss.map encode := by
  induction ss with
  | nil => rfl
  | cons s ss ih => rw [writtenList, ih, List.map_cons, encode]

theorem writtenNamed_eq (ps : List (String × Schema)) :
    writtenNamed ps = ps.map fun p => (p.1, p.2.encode) := by
  induction ps with
  | nil => rfl
  | cons p ps ih => rw [writtenNamed, ih, List.map_cons, encode]

theorem find?_keywordMembers (f : Keyword → Option Json) (k : Keyword) :
    Entries.find? k.name (keywordMembers f) = f k := by
  have hfind : ∀ ks : List Keyword,
      Entries.find? k.name (ks.filterMap fun j => (f j).map fun v => (j.name, v)) =
        if k ∈ ks then f k else none := by
    intro ks
    induction ks with
    | nil => rfl
    | cons j ks ih =>
      by_cases hkj : k = j
      · subst hkj
        cases hf : f k with
        | none => simp [hf, ih]
        | some v => simp [hf, Entries.find?]
      · have hname : j.name ≠ k.name := fun h => hkj (Keyword.name_injective h).symm
        cases hf : f j with
        | none => simp [hf, ih, hkj]
        | some v => simp [hf, ih, hkj, hname, Entries.find?]
  have hk : k ∈ Keyword.all := by cases k <;> decide
  rw [keywordMembers, hfind, if_pos hk]

theorem nodup_keywordMembers (f : Keyword → Option Json) :
    (Entries.names (keywordMembers f)).Nodup := by
  have hsublist : ∀ ks : List Keyword,
      (Entries.names (ks.filterMap fun k => (f k).map fun v => (k.name, v))).Sublist
        (ks.map Keyword.name) := by
    intro ks
    induction ks with
    | nil => exact .slnil
    | cons k ks ih =>
      cases hf : f k with
      | none =>
        simp only [List.filterMap_cons, hf, Option.map_none]
        exact ih.cons _
      | some v =>
        simp only [List.filterMap_cons, hf, Option.map_some]
        exact ih.cons_cons _
  have hall : (Keyword.all.map Keyword.name).Nodup := by decide
  exact hall.sublist (hsublist _)

/-- What is written under the keywords, field by field. -/
theorem written_eq (s : Schema) (k : Keyword) :
    s.written k =
      match k with
      | .type => s.kind.map fun kind => .string kind.name
      | .enum => s.enum.map .array
      | .properties => s.properties.map fun ps => .object (ps.map fun p => (p.1, p.2.encode))
      | .required => some (.array (s.required.map .string))
      | .oneOf => s.oneOf.map fun ss => .array (ss.map encode)
      | .anyOf => s.anyOf.map fun ss => .array (ss.map encode)
      | .allOf => s.allOf.map fun ss => .array (ss.map encode)
      | .reference => s.reference.map .string
      | .items => s.items.map encode := by
  obtain ⟨kind, enum, properties, required, oneOf, anyOf, allOf, reference, items⟩ := s
  cases k with
  | properties => cases properties <;> simp [written, writtenNamed_eq]
  | oneOf => cases oneOf <;> simp [written, writtenList_eq]
  | anyOf => cases anyOf <;> simp [written, writtenList_eq]
  | allOf => cases allOf <;> simp [written, writtenList_eq]
  | items => cases items <;> simp [written, encode]
  | _ => rw [written]

/-- Schemas are encoded one by one under the keywords that list members. -/
theorem encodesUnder_map_encode {ss : List Schema} (h : s.membersAt k = some ss)
    (ih : ∀ t ∈ ss, Encodes t.encode t) :
    EncodesUnder k (some (.array (ss.map encode))) s := by
  refine .members h ?_
  rw [List.forall₂_map_left_iff, List.forall₂_same]
  exact ih

/-- **Every schema has an encoding.** -/
theorem encodes_encode (s : Schema) : Encodes s.encode s := by
  refine .object (nodup_keywordMembers _) fun k => ?_
  rw [find?_keywordMembers, written_eq]
  cases k with
  | type =>
    cases h : s.kind with
    | none => exact .leftOut (by rw [under, graft, h])
    | some kind =>
      by_cases hkind : kind = .unknown
      · subst hkind
        refine .unknownKind h Json.noConfusion fun kind hkind hname => hkind ?_
        exact (Kind.name_injective (Json.string.inj hname)).symm
      · exact .kind h hkind
  | enum =>
    cases h : s.enum with
    | none => exact .leftOut (by rw [under, graft, h])
    | some values => exact .enum h
  | properties =>
    cases h : s.properties with
    | none => exact .leftOut (by rw [under, graft, h])
    | some ps =>
      have ih : ∀ p ∈ ps, Encodes p.2.encode p.2 := fun p hp => encodes_encode p.2
      refine .properties h ?_ ?_
      · rw [Entries.names, List.map_map]
        rfl
      · rw [List.map_map, List.forall₂_map_left_iff, List.forall₂_map_right_iff, List.forall₂_same]
        exact ih
  | required => exact .required rfl
  | oneOf =>
    cases h : s.oneOf with
    | none => exact .leftOut (by rw [under, graft, h])
    | some ss => exact encodesUnder_map_encode h fun t ht => encodes_encode t
  | anyOf =>
    cases h : s.anyOf with
    | none => exact .leftOut (by rw [under, graft, h])
    | some ss => exact encodesUnder_map_encode h fun t ht => encodes_encode t
  | allOf =>
    cases h : s.allOf with
    | none => exact .leftOut (by rw [under, graft, h])
    | some ss => exact encodesUnder_map_encode h fun t ht => encodes_encode t
  | reference =>
    cases h : s.reference with
    | none => exact .leftOut (by rw [under, graft, h])
    | some r => exact .reference h
  | items =>
    cases h : s.items with
    | none => exact .leftOut (by rw [under, graft, h])
    | some t => exact .items h (encodes_encode t)
termination_by sizeOf s
decreasing_by
  · exact sizeOf_lt_of_keyword (.inr (.inr ⟨ps, h, List.mem_map_of_mem hp⟩))
  · exact sizeOf_lt_of_keyword (.inl ⟨ss, .inl h, ht⟩)
  · exact sizeOf_lt_of_keyword (.inl ⟨ss, .inr (.inl h), ht⟩)
  · exact sizeOf_lt_of_keyword (.inl ⟨ss, .inr (.inr h), ht⟩)
  · exact sizeOf_lt_of_keyword (.inr (.inl h))

end SchemaTypes.Schema
