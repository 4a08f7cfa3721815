/-
# Property names of a document are distinct

Whatever a document text says, no schema of the catalog that is read from it
has two properties of the same name, at any depth: no key comes twice in the
value of the text, in JSON or in YAML, and this is carried to the definitions
and through them to the schemas.

Key theorems: `Document.distinctNames_of_catalog`,
`Document.distinctNames_of_read`.
-/
import SchemaTypes.Document.Read
import SchemaTypes.Proofs.Schema.DistinctNames
import SchemaTypes.Proofs.Yaml.DistinctKeys

namespace SchemaTypes.Document

open Json (DistinctKeys)

variable {c : Catalog} {v document : Json}

theorem distinctKeys_of_get? {key : String} (hv : v.DistinctKeys) {u : Json}
    (h : v.get? key = some u) : u.DistinctKeys := by
  cases hv with
  | intro _ hinside =>
    cases v with
    | object ms => exact hinside u (List.mem_map_of_mem (Entries.mem_of_find? h))
    | _ => cases h

theorem distinctNames_of_decodeEntries {ms : List (String × Json)} {es : List (String × Schema)}
    (hms : ∀ m ∈ ms, m.2.DistinctKeys) (h : decodeEntries ms = .ok es) :
    ∀ e ∈ es, e.2.DistinctNames := by
  induction ms generalizing es with
  | nil => cases h; nofun
  | cons m ms ih =>
    obtain ⟨name, v⟩ := m
    rw [List.forall_mem_cons] at hms
    rw [decodeEntries] at h
    cases hv : Schema.decode v with
    | error e =>
      rw [hv] at h
      cases h
    | ok s =>
      rw [hv] at h
      obtain ⟨es', hes, rfl⟩ := Except.exists_of_map_eq_ok h
      have hs := Schema.distinctNames_of_decode hms.1 hv
      exact List.forall_mem_cons.2 ⟨hs, ih hms.2 hes⟩

theorem distinctNames_ofList {es : List (String × Schema)} (h : ∀ e ∈ es, e.2.DistinctNames) :
    (Catalog.ofList es).DistinctNames := by
  intro n s hs
  rcases Entries.value_of_mem_collect (Entries.mem_of_find? hs) with ⟨e, he, hvalue⟩ | he
  · have hs : s = e.2 := hvalue
    rw [hs]
    exact h e he
  · cases he

theorem distinctNames_of_entriesOf (hv : v.DistinctKeys) (h : entriesOf v = .ok c) :
    c.DistinctNames := by
  cases hv with
  | intro _ hinside =>
    cases v with
    | object ms =>
      obtain ⟨es, hes, rfl⟩ := Except.exists_of_map_eq_ok h
      refine distinctNames_ofList (distinctNames_of_decodeEntries (fun m hm => ?_) hes)
      exact hinside m.2 (List.mem_map_of_mem hm)
    | _ => cases h

theorem distinctNames_of_catalog (hdocument : document.DistinctKeys)
    (h : catalog document = .ok c) : c.DistinctNames := by
  unfold catalog at h
  split at h
  · cases h
  · split at h
    · exact distinctNames_of_entriesOf hdocument h
    · split at h
      · cases h
      · split at h
        · rename_i schemas hschemas
          obtain ⟨components, hcomponents, hschemas⟩ := Option.bind_eq_some_iff.1 hschemas
          have hschemas :=
            distinctKeys_of_get? (distinctKeys_of_get? hdocument hcomponents) hschemas
          exact distinctNames_of_entriesOf hschemas h
        · cases h
          nofun

theorem distinctKeys_of_valueOf {text : String} {format : Format} (h : valueOf text format = .ok v) :
    v.DistinctKeys := by
  unfold valueOf at h
  split at h
  · cases hv : Json.parse text with
    | error e => rw [hv] at h; cases h
    | ok w =>
      rw [hv] at h
      cases h
      exact Json.distinctKeys_of_parse hv
  · cases hv : Yaml.parse text with
    | error e => rw [hv] at h; cases h
    | ok w =>
      rw [hv] at h
      cases h
      exact Yaml.distinctKeys_of_parse hv

/-- **Every catalog that is read has distinct property names**, at any depth of
its schemas. -/
theorem distinctNames_of_read {text : String} {format : Format} (h : read text format = .ok c) :
    c.DistinctNames := by
  obtain ⟨v, hv, h⟩ := Except.exists_of_bind_eq_ok h
  exact distinctNames_of_catalog (distinctKeys_of_valueOf hv) h

end SchemaTypes.Document
