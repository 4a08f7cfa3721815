/-
# Property names are distinct

The properties of a schema are an object, in which no name comes twice.
`DistinctNames` says so of a schema and of all schemas in it, and of the
schemas of a catalog. It holds of every schema that is read from a value in
which no key comes twice: the properties of a schema have the keys of the
object that they are read from.

A schema is read keyword by keyword, and a keyword puts the schemas that it
reads from the values inside of its value in their place; the induction is on
the value.

Key definitions: `Schema.DistinctNames`, `Catalog.DistinctNames`.
Key theorems: `Schema.distinctNames_of_decode`.
-/
import SchemaTypes.Proofs.Json.DistinctKeys
import SchemaTypes.Proofs.Schema.Nesting
import SchemaTypes.Schema.Decode

namespace SchemaTypes

namespace Schema

/-- The names of the properties, in order. -/
def propertyNames (s : Schema) : List String :=
  Entries.names (s.properties.getD [])

/-- No schema at any depth has two properties of the same name. -/
def DistinctNames (s : Schema) : Prop :=
  ∀ u, s.Contains u → u.propertyNames.Nodup

variable {s t : Schema}

theorem distinctNames_iff :
    s.DistinctNames ↔ s.propertyNames.Nodup ∧ ∀ t ∈ s.subschemas, t.DistinctNames := by
  constructor
  · intro h
    exact ⟨h s (.refl s), fun t ht u hu => h u (.sub ht hu)⟩
  · rintro ⟨hs, hsub⟩ u hu
    cases hu with
    | refl => exact hs
    | sub ht hu => exact hsub _ ht u hu

theorem DistinctNames.nodup (h : s.DistinctNames) : s.propertyNames.Nodup :=
  (distinctNames_iff.1 h).1

theorem DistinctNames.sub (h : s.DistinctNames) (ht : t ∈ s.subschemas) : t.DistinctNames :=
  (distinctNames_iff.1 h).2 t ht

theorem DistinctNames.part (h : s.DistinctNames) (ht : t ∈ s.rule.parts) : t.DistinctNames :=
  h.sub (mem_subschemas_of_mem_parts ht)

/-- What distinct names come to, keyword by keyword. -/
theorem distinctNames_iff_keywords :
    s.DistinctNames ↔ s.propertyNames.Nodup ∧ (∀ p ∈ s.properties.getD [], p.2.DistinctNames) ∧
      (∀ t ∈ s.oneOf.getD [], t.DistinctNames) ∧ (∀ t ∈ s.anyOf.getD [], t.DistinctNames) ∧
      (∀ t ∈ s.allOf.getD [], t.DistinctNames) ∧ ∀ t, s.items = some t → t.DistinctNames := by
  rw [distinctNames_iff]
  simp only [subschemas, List.forall_mem_append, List.forall_mem_map, Option.mem_toList, and_assoc]

/-! ### Reading -/

/-- What is read from the value has distinct names. -/
def DecodesDistinct (v : Json) : Prop :=
  ∀ s, decode v = .ok s → s.DistinctNames

/-- Reading the value of a keyword into a schema keeps its names distinct. -/
def KeepsDistinct (v : Json) : Prop :=
  ∀ s k t, decodeKeyword s k v = .ok t → s.DistinctNames → t.DistinctNames

theorem distinctNames_empty : ({} : Schema).DistinctNames :=
  distinctNames_iff.2 ⟨List.nodup_nil, nofun⟩

theorem distinctNames_of_decodeList {vs : List Json} {ss : List Schema}
    (hvs : ∀ v ∈ vs, DecodesDistinct v) (h : decodeList vs = .ok ss) :
    ∀ s ∈ ss, s.DistinctNames := by
  induction vs generalizing ss with
  | nil => cases h; nofun
  | cons v vs ih =>
    rw [List.forall_mem_cons] at hvs
    rw [decodeList] at h
    cases hv : decode v with
    | error e =>
      rw [hv] at h
      cases h
    | ok s =>
      rw [hv] at h
      obtain ⟨ss', hss, rfl⟩ := Except.exists_of_map_eq_ok h
      exact List.forall_mem_cons.2 ⟨hvs.1 s hv, ih hvs.2 hss⟩

/-- The schemas that are read from members have the keys of the members for
names. -/
theorem distinctNames_of_decodeNamed {ms : List (String × Json)} {ps : List (String × Schema)}
    (hms : ∀ m ∈ ms, DecodesDistinct m.2) (h : decodeNamed ms = .ok ps) :
    Entries.names ps = Entries.names ms ∧ ∀ p ∈ ps, p.2.DistinctNames := by
  induction ms generalizing ps with
  | nil => cases h; exact ⟨rfl, nofun⟩
  | cons m ms ih =>
    obtain ⟨name, v⟩ := m
    rw [List.forall_mem_cons] at hms
    rw [decodeNamed] at h
    cases hv : decode v with
    | error e =>
      rw [hv] at h
      cases h
    | ok s =>
      rw [hv] at h
      obtain ⟨ps', hps, rfl⟩ := Except.exists_of_map_eq_ok h
      obtain ⟨hnames, hdistinct⟩ := ih hms.2 hps
      exact ⟨congrArg (name :: ·) hnames, List.forall_mem_cons.2 ⟨hms.1 s hv, hdistinct⟩⟩

theorem distinctNames_of_decodeMembers {ms : List (String × Json)}
    (hms : ∀ m ∈ ms, KeepsDistinct m.2) (h : decodeMembers s ms = .ok t) (hs : s.DistinctNames) :
    t.DistinctNames := by
  induction ms generalizing s with
  | nil => cases h; exact hs
  | cons m ms ih =>
    obtain ⟨name, v⟩ := m
    rw [List.forall_mem_cons] at hms
    rw [decodeMembers] at h
    cases hk : Keyword.ofName? name with
    | none =>
      rw [hk] at h
      exact ih hms.2 h hs
    | some k =>
      rw [hk] at h
      cases hv : decodeKeyword s k v with
      | error e =>
        simp only [hv] at h
        cases h
      | ok s' =>
        simp only [hv] at h
        exact ih hms.2 h (hms.1 s k s' hv hs)

theorem distinctNames_of_decodeItems {vs : List Json} {ks : List Keyword}
    (hvs : ∀ v ∈ vs, KeepsDistinct v) (h : decodeItems s ks vs = .ok t) (hs : s.DistinctNames) :
    t.DistinctNames := by
  induction vs generalizing s ks with
  | nil =>
    rw [decodeItems] at h
    cases h
    exact hs
  | cons v vs ih =>
    rw [List.forall_mem_cons] at hvs
    cases ks with
    | nil => cases h
    | cons k ks =>
      rw [decodeItems] at h
      cases hv : decodeKeyword s k v with
      | error e =>
        rw [hv] at h
        cases h
      | ok s' =>
        rw [hv] at h
        exact ih hvs.2 h (hvs.1 s k s' hv hs)

/-- A keyword puts schemas with distinct names in their place. -/
theorem keepsDistinct {v : Json} (hkeys : v.keys.Nodup)
    (hinside : ∀ u ∈ v.inside, DecodesDistinct u) (hself : DecodesDistinct v) :
    KeepsDistinct v := by
  intro s k t h hs
  obtain ⟨hnames, hproperties, hone, hany, hall, hitems⟩ := distinctNames_iff_keywords.1 hs
  cases k with
  | type =>
    rw [decodeKeyword] at h
    cases h
    exact distinctNames_iff_keywords.2 ⟨hnames, hproperties, hone, hany, hall, hitems⟩
  | required =>
    cases v with
    | array vs =>
      obtain ⟨names, -, rfl⟩ := Except.exists_of_map_eq_ok h
      exact distinctNames_iff_keywords.2 ⟨hnames, hproperties, hone, hany, hall, hitems⟩
    | _ => cases h
  | enum =>
    cases v with
    | null => cases h; exact hs
    | array vs =>
      cases h
      exact distinctNames_iff_keywords.2 ⟨hnames, hproperties, hone, hany, hall, hitems⟩
    | _ => cases h
  | reference =>
    cases v with
    | null => cases h; exact hs
    | string r =>
      cases h
      exact distinctNames_iff_keywords.2 ⟨hnames, hproperties, hone, hany, hall, hitems⟩
    | _ => cases h
  | properties =>
    cases v with
    | null => cases h; exact hs
    | object ms =>
      obtain ⟨ps, hps, rfl⟩ := Except.exists_of_map_eq_ok h
      obtain ⟨hps, hdistinct⟩ := distinctNames_of_decodeNamed
        (fun m hm => hinside m.2 (List.mem_map_of_mem hm)) hps
      have hnames : (Entries.names ps).Nodup := by
        rw [hps]
        exact hkeys
      exact distinctNames_iff_keywords.2 ⟨hnames, hdistinct, hone, hany, hall, hitems⟩
    | _ => cases h
  | oneOf | anyOf | allOf =>
    cases v with
    | null => cases h; exact hs
    | array vs =>
      obtain ⟨ss, hss, rfl⟩ := Except.exists_of_map_eq_ok h
      have hss := distinctNames_of_decodeList hinside hss
      refine distinctNames_iff_keywords.2 ⟨hnames, hproperties, ?_, ?_, ?_, hitems⟩
      all_goals assumption
    | _ => cases h
  | items =>
    -- The item is read from the whole value, as a schema alone is.
    have hitem : ∀ i, decode v = .ok i → { s with items := some i }.DistinctNames := by
      intro i hi
      refine distinctNames_iff_keywords.2 ⟨hnames, hproperties, hone, hany, hall, ?_⟩
      rintro t ⟨⟩
      exact hself i hi
    cases v with
    | null => cases h; exact hs
    | object ms =>
      obtain ⟨i, hi, rfl⟩ := Except.exists_of_map_eq_ok h
      exact hitem i hi
    | array vs =>
      obtain ⟨i, hi, rfl⟩ := Except.exists_of_map_eq_ok h
      exact hitem i hi
    | _ => cases h

theorem distinct_of_distinctKeys {v : Json} (h : v.DistinctKeys) :
    DecodesDistinct v ∧ KeepsDistinct v := by
  induction h with
  | @intro v hkeys _ ih =>
    have hself : DecodesDistinct v := by
      intro s hs
      cases v with
      | object ms =>
        rw [decode] at hs
        exact distinctNames_of_decodeMembers
          (fun m hm => (ih m.2 (List.mem_map_of_mem hm)).2) hs distinctNames_empty
      | array vs =>
        rw [decode] at hs
        exact distinctNames_of_decodeItems (fun u hu => (ih u hu).2) hs distinctNames_empty
      | _ => cases hs
    exact ⟨hself, keepsDistinct hkeys (fun u hu => (ih u hu).1) hself⟩

/-- **A schema that is read from a value in which no key comes twice has
distinct property names, at any depth.** -/
theorem distinctNames_of_decode {v : Json} (hv : v.DistinctKeys) (h : decode v = .ok s) :
    s.DistinctNames :=
  (distinct_of_distinctKeys hv).1 s h

end Schema

/-- No schema of the catalog, at any depth, has two properties of the same
name. -/
def Catalog.DistinctNames (c : Catalog) : Prop :=
  ∀ n s, c.find? n = some s → s.DistinctNames

end SchemaTypes
