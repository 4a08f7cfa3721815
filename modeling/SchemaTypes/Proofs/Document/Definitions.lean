/-
# A document is read exactly if its definitions are

The definitions of a document are the members of one object: the document
itself, or what an OpenAPI document has under `components` and `schemas`. They
are read one after another. If all of them are definitions, the catalog has an
entry for each, in their order; otherwise the first that is none is named in
the fault, whatever comes behind it.

Key definitions: `Document.Defines`, `Document.firstRefused`.
Key theorems: `Document.decodeEntries_of_definitions`,
`Document.decodeEntries_of_firstRefused`, `Document.catalog_of_defines`.
-/
import SchemaTypes.Document.Read
import SchemaTypes.Proofs.Schema.Definition

namespace SchemaTypes.Document

open Schema (Definition decode)

/-- The document defines its schemas by the members of this object. -/
inductive Defines : Json → List (String × Json) → Prop
  | bare {ms : List (String × Json)} (hswagger : Entries.find? "swagger" ms = none)
      (hopenapi : Entries.find? "openapi" ms = none) : Defines (.object ms) ms
  | versioned {document version components : Json} {ms : List (String × Json)}
      (hswagger : document.get? "swagger" = none)
      (hopenapi : document.get? "openapi" = some version)
      (hversion : "3.".toList <+: (versionText version).toList)
      (hcomponents : document.get? "components" = some components)
      (hschemas : components.get? "schemas" = some (.object ms)) : Defines document ms

/-- The first member that is no definition. -/
def firstRefused (ms : List (String × Json)) : Option (String × Json) :=
  ms.find? fun m => ¬ Definition m.2

variable {document : Json} {ms : List (String × Json)}

theorem Defines.catalog_eq (h : Defines document ms) :
    catalog document = (decodeEntries ms).map Catalog.ofList := by
  cases h with
  | bare hswagger hopenapi =>
    rw [catalog, Json.get?, hswagger, Json.get?, hopenapi]
    rfl
  | versioned hswagger hopenapi hversion hcomponents hschemas =>
    have hsupported : isSupported (versionText _) = true := List.isPrefixOf_iff_prefix.2 hversion
    simp only [catalog, hswagger, hopenapi, hsupported, hcomponents, hschemas, Option.bind_some]
    rfl

theorem firstRefused_eq_none : firstRefused ms = none ↔ ∀ m ∈ ms, Definition m.2 := by
  simp [firstRefused]

theorem firstRefused_cons_of_definition {m : String × Json} (h : Definition m.2) :
    firstRefused (m :: ms) = firstRefused ms := by
  simp [firstRefused, h]

theorem firstRefused_cons_of_not_definition {m : String × Json} (h : ¬ Definition m.2) :
    firstRefused (m :: ms) = some m := by
  simp [firstRefused, h]

/-- Members that are definitions are read one by one. -/
theorem decodeEntries_of_definitions (h : ∀ m ∈ ms, Definition m.2) :
    ∃ es, decodeEntries ms = .ok es ∧ Entries.names es = Entries.names ms ∧
      ∀ m ∈ ms, ∃ s, decode m.2 = .ok s ∧ (m.1, s) ∈ es := by
  induction ms with
  | nil => exact ⟨[], rfl, rfl, nofun⟩
  | cons m ms ih =>
    obtain ⟨name, v⟩ := m
    obtain ⟨hv, hms⟩ := List.forall_mem_cons.1 h
    obtain ⟨s, hs⟩ := Schema.exists_decode_eq_ok hv
    obtain ⟨es, hes, hnames, hread⟩ := ih hms
    refine ⟨(name, s) :: es, ?_, congrArg (name :: ·) hnames, List.forall_mem_cons.2 ⟨?_, ?_⟩⟩
    · rw [decodeEntries, hs, hes]
      rfl
    · exact ⟨s, hs, List.mem_cons_self⟩
    · intro m hm
      obtain ⟨t, ht, hmem⟩ := hread m hm
      exact ⟨t, ht, List.mem_cons_of_mem _ hmem⟩

/-- The first member that is no definition is named in the fault. -/
theorem decodeEntries_of_firstRefused {m : String × Json} (h : firstRefused ms = some m) :
    ∃ e, decode m.2 = .error e ∧ decodeEntries ms = .error (.schema m.1 e) := by
  induction ms with
  | nil => cases h
  | cons m' ms ih =>
    obtain ⟨name, v⟩ := m'
    by_cases hv : Definition v
    · rw [firstRefused_cons_of_definition hv] at h
      obtain ⟨s, hs⟩ := Schema.exists_decode_eq_ok hv
      obtain ⟨e, he, hms⟩ := ih h
      refine ⟨e, he, ?_⟩
      rw [decodeEntries, hs, hms]
      rfl
    · rw [firstRefused_cons_of_not_definition hv] at h
      cases h
      obtain ⟨e, he⟩ := Schema.exists_decode_eq_error hv
      refine ⟨e, he, ?_⟩
      rw [decodeEntries, he]

/-- Entries of distinct names are those of their catalog. -/
theorem entries_ofList {es : List (String × Schema)} (h : (Entries.names es).Nodup) :
    (Catalog.ofList es).entries = es :=
  Entries.collect_of_nodup h

/-- **A document is read exactly if all its definitions are.** The catalog then
has an entry for each member of the object, where no key comes twice, in the
order of the members and with the schema of its value. Otherwise the fault
names the first member that is no definition, and says why it is not read. -/
theorem catalog_of_defines (h : Defines document ms) :
    ((catalog document).isOk = true ↔ ∀ m ∈ ms, Definition m.2) ∧
      (∀ c, catalog document = .ok c → (Entries.names ms).Nodup →
        c.names = Entries.names ms ∧
          ∀ m ∈ ms, ∃ s, decode m.2 = .ok s ∧ c.find? m.1 = some s) ∧
      ((catalog document).isOk = false → ∃ m e, firstRefused ms = some m ∧
        decode m.2 = .error e ∧ catalog document = .error (.schema m.1 e)) := by
  rw [h.catalog_eq]
  cases hfirst : firstRefused ms with
  | none =>
    have hall := firstRefused_eq_none.1 hfirst
    obtain ⟨es, hes, hnames, hread⟩ := decodeEntries_of_definitions hall
    rw [hes]
    refine ⟨iff_of_true rfl hall, fun c hc hnodup => ?_, nofun⟩
    obtain rfl : Catalog.ofList es = c := Except.ok.inj hc
    have hentries : (Catalog.ofList es).entries = es := entries_ofList (hnames ▸ hnodup)
    refine ⟨(congrArg Entries.names hentries).trans hnames, fun m hm => ?_⟩
    obtain ⟨s, hs, hmem⟩ := hread m hm
    refine ⟨s, hs, (Entries.find?_eq_some_iff (Catalog.nodup _)).2 ?_⟩
    rwa [hentries]
  | some m =>
    obtain ⟨e, he, hms⟩ := decodeEntries_of_firstRefused hfirst
    have hall : ¬ ∀ m ∈ ms, Definition m.2 := by
      rw [← firstRefused_eq_none, hfirst]
      exact Option.some_ne_none m
    rw [hms]
    exact ⟨iff_of_false Bool.false_ne_true hall, nofun, fun _ => ⟨m, e, rfl, he, rfl⟩⟩

/-- Two members that are no definitions, behind one that is. -/
def nameAndGaps : List (String × Json) :=
  [("Name", .object [("type", .string "string")]), ("Gap", .object [("required", .null)]),
    ("Rest", .null)]

/-- Only the first of the gaps is named in the fault; without them the
document is read. -/
theorem catalog_nameAndGaps :
    Defines (.object nameAndGaps) nameAndGaps ∧
      catalog (.object nameAndGaps) = .error (.schema "Gap" (.unexpected .null .sequence)) ∧
      Defines (.object (nameAndGaps.take 1)) (nameAndGaps.take 1) ∧
      ∃ c, catalog (.object (nameAndGaps.take 1)) = .ok c ∧ c.names = ["Name"] := by
  have hgaps : Defines (.object nameAndGaps) nameAndGaps := .bare rfl rfl
  have hname : Defines (.object (nameAndGaps.take 1)) (nameAndGaps.take 1) := .bare rfl rfl
  refine ⟨hgaps, ?_, hname, ?_⟩
  · obtain ⟨hisOk, -, hfault⟩ := catalog_of_defines hgaps
    have hrefused : ¬ ∀ m ∈ nameAndGaps, Definition m.2 := by decide
    obtain ⟨m, e, hm, he, hc⟩ := hfault (Bool.eq_false_iff.2 fun h => hrefused (hisOk.1 h))
    have hfirst : firstRefused nameAndGaps = some ("Gap", .object [("required", .null)]) := rfl
    cases hfirst.symm.trans hm
    have hcause : decode (.object [("required", .null)]) = .error (.unexpected .null .sequence) :=
      rfl
    cases hcause.symm.trans he
    exact hc
  · obtain ⟨hisOk, hread, -⟩ := catalog_of_defines hname
    cases hc : catalog (.object (nameAndGaps.take 1)) with
    | ok c => exact ⟨c, rfl, (hread c hc (by decide)).1⟩
    | error e =>
      have := hisOk.2 (by decide)
      rw [hc] at this
      cases this

end SchemaTypes.Document
