/-
# The grammar of definitions

A JSON value is a definition if it is an object that gives each keyword a
value the keyword admits, whatever its other keys hold, or an array of at most
nine such values in the order of the keywords. What a keyword admits goes back
to definitions under five of them; null stands for an absent keyword, with the
exception of `required`, which has to be an array of strings.

A value is read as a schema exactly if it is a definition. The induction is on
the size of the value; what a keyword makes of its value does not depend on
the schema read so far, so the members of an object and the items of an array
succeed one by one.

Key definitions: `Schema.Definition`, `Schema.Admits`.
Key theorems: `Schema.isOk_decode`.
-/
import Mathlib.Data.List.Basic
import SchemaTypes.Proofs.Except
import SchemaTypes.Schema.Decode

namespace SchemaTypes

namespace Schema

mutual

/-- The value is a definition: an object of keywords and other keys, or an
array of the values of the keywords in order. -/
inductive Definition : Json → Prop
  | object {members : List (String × Json)}
      (h : ∀ m ∈ members, ∀ k, Keyword.ofName? m.1 = some k → Admits k m.2) :
      Definition (.object members)
  | array {items : List Json} (hlength : items.length ≤ 9)
      (h : ∀ e ∈ Keyword.all.zip items, Admits e.1 e.2) : Definition (.array items)

/-- The keyword admits the value. -/
inductive Admits : Keyword → Json → Prop
  | type (v : Json) : Admits .type v
  | absent {k : Keyword} (h : k ≠ .required) : Admits k .null
  | enum (values : List Json) : Admits .enum (.array values)
  | properties {members : List (String × Json)} (h : ∀ m ∈ members, Definition m.2) :
      Admits .properties (.object members)
  | required {items : List Json} (h : ∀ v ∈ items, ∃ name, v = .string name) :
      Admits .required (.array items)
  | members {k : Keyword} {items : List Json} (hk : k = .oneOf ∨ k = .anyOf ∨ k = .allOf)
      (h : ∀ v ∈ items, Definition v) : Admits k (.array items)
  | reference (r : String) : Admits .reference (.string r)
  | items {v : Json} (h : Definition v) : Admits .items v

end

/-! ### Lists -/

theorem isOk_decodeStrings (vs : List Json) :
    (decodeStrings vs).isOk = true ↔ ∀ v ∈ vs, ∃ name, v = .string name := by
  induction vs with
  | nil => simp [decodeStrings]
  | cons v vs ih =>
    cases v with
    | string name => rw [decodeStrings, isOk_map, ih]; simp
    | _ => simp [decodeStrings]

theorem isOk_decodeList (vs : List Json) :
    (decodeList vs).isOk = true ↔ ∀ v ∈ vs, (decode v).isOk = true := by
  induction vs with
  | nil => simp [decodeList]
  | cons v vs ih =>
    rw [decodeList, List.forall_mem_cons]
    cases decode v with
    | error e => simp
    | ok s => simp [ih]

theorem isOk_decodeNamed (ms : List (String × Json)) :
    (decodeNamed ms).isOk = true ↔ ∀ m ∈ ms, (decode m.2).isOk = true := by
  induction ms with
  | nil => simp [decodeNamed]
  | cons m ms ih =>
    obtain ⟨name, v⟩ := m
    rw [decodeNamed, List.forall_mem_cons]
    cases decode v with
    | error e => simp
    | ok s => simp [ih]

/-- An object is read if every keyword in it admits its value. -/
theorem isOk_decodeMembers {ms : List (String × Json)}
    (h : ∀ m ∈ ms, ∀ s k, (decodeKeyword s k m.2).isOk = true ↔ Admits k m.2) (s : Schema) :
    (decodeMembers s ms).isOk = true ↔
      ∀ m ∈ ms, ∀ k, Keyword.ofName? m.1 = some k → Admits k m.2 := by
  induction ms generalizing s with
  | nil => simp [decodeMembers]
  | cons m ms ih =>
    obtain ⟨name, v⟩ := m
    rw [List.forall_mem_cons] at h
    rw [decodeMembers, List.forall_mem_cons]
    cases Keyword.ofName? name with
    | none => simp [ih h.2 s]
    | some k =>
      have hv := h.1 s k
      cases hd : decodeKeyword s k v with
      | error e =>
        have hv : ¬ Admits k v := by simpa [hd] using hv
        simp [hd, hv]
      | ok s' =>
        have hv : Admits k v := by simpa [hd] using hv
        simp [hd, hv, ih h.2 s']

/-- An array is read if it has no more items than there are keywords and each
keyword admits its item. -/
theorem isOk_decodeItems {vs : List Json}
    (h : ∀ v ∈ vs, ∀ s k, (decodeKeyword s k v).isOk = true ↔ Admits k v) (s : Schema)
    (ks : List Keyword) :
    (decodeItems s ks vs).isOk = true ↔
      vs.length ≤ ks.length ∧ ∀ e ∈ ks.zip vs, Admits e.1 e.2 := by
  induction vs generalizing s ks with
  | nil => simp [decodeItems]
  | cons v vs ih =>
    rw [List.forall_mem_cons] at h
    cases ks with
    | nil => simp [decodeItems]
    | cons k ks =>
      have hv := h.1 s k
      rw [decodeItems, List.zip_cons_cons, List.forall_mem_cons]
      cases hd : decodeKeyword s k v with
      | error e =>
        have hv : ¬ Admits k v := by simpa [hd] using hv
        simp [hv]
      | ok s' =>
        have hv : Admits k v := by simpa [hd] using hv
        simp [hv, ih h.2 s' ks]

/-! ### What a keyword admits -/

theorem admits_enum (v : Json) : Admits .enum v ↔ v = .null ∨ ∃ vs, v = .array vs := by
  constructor
  · intro h
    cases h with
    | absent => exact .inl rfl
    | enum vs => exact .inr ⟨vs, rfl⟩
    | members hk => simp at hk
  · rintro (rfl | ⟨vs, rfl⟩)
    · exact .absent Keyword.noConfusion
    · exact .enum vs

theorem admits_properties (v : Json) :
    Admits .properties v ↔ v = .null ∨ ∃ ms, v = .object ms ∧ ∀ m ∈ ms, Definition m.2 := by
  constructor
  · intro h
    cases h with
    | absent => exact .inl rfl
    | properties h => exact .inr ⟨_, rfl, h⟩
    | members hk => simp at hk
  · rintro (rfl | ⟨ms, rfl, h⟩)
    · exact .absent Keyword.noConfusion
    · exact .properties h

theorem admits_required (v : Json) :
    Admits .required v ↔ ∃ vs, v = .array vs ∧ ∀ w ∈ vs, ∃ name, w = .string name := by
  constructor
  · intro h
    cases h with
    | absent h => exact absurd rfl h
    | required h => exact ⟨_, rfl, h⟩
    | members hk => simp at hk
  · rintro ⟨vs, rfl, h⟩
    exact .required h

theorem admits_members {k : Keyword} (hk : k = .oneOf ∨ k = .anyOf ∨ k = .allOf) (v : Json) :
    Admits k v ↔ v = .null ∨ ∃ vs, v = .array vs ∧ ∀ w ∈ vs, Definition w := by
  constructor
  · intro h
    cases h with
    | absent => exact .inl rfl
    | members _ h => exact .inr ⟨_, rfl, h⟩
    | _ => simp at hk
  · rintro (rfl | ⟨vs, rfl, h⟩)
    · exact .absent (by rcases hk with rfl | rfl | rfl <;> exact Keyword.noConfusion)
    · exact .members hk h

theorem admits_reference (v : Json) : Admits .reference v ↔ v = .null ∨ ∃ r, v = .string r := by
  constructor
  · intro h
    cases h with
    | absent => exact .inl rfl
    | reference r => exact .inr ⟨r, rfl⟩
    | members hk => simp at hk
  · rintro (rfl | ⟨r, rfl⟩)
    · exact .absent Keyword.noConfusion
    · exact .reference r

theorem admits_items (v : Json) : Admits .items v ↔ v = .null ∨ Definition v := by
  constructor
  · intro h
    cases h with
    | absent => exact .inl rfl
    | items h => exact .inr h
    | members hk => simp at hk
  · rintro (rfl | h)
    · exact .absent Keyword.noConfusion
    · exact .items h

/-! ### What a keyword takes -/

theorem isOk_decodeKeyword_enum (s : Schema) (v : Json) :
    (decodeKeyword s .enum v).isOk = true ↔ v = .null ∨ ∃ vs, v = .array vs := by
  cases v <;> simp [decodeKeyword]

theorem isOk_decodeKeyword_properties (s : Schema) (v : Json) :
    (decodeKeyword s .properties v).isOk = true ↔
      v = .null ∨ ∃ ms, v = .object ms ∧ ∀ m ∈ ms, (decode m.2).isOk = true := by
  cases v <;> simp [decodeKeyword, isOk_decodeNamed]

theorem isOk_decodeKeyword_required (s : Schema) (v : Json) :
    (decodeKeyword s .required v).isOk = true ↔
      ∃ vs, v = .array vs ∧ ∀ w ∈ vs, ∃ name, w = .string name := by
  cases v <;> simp [decodeKeyword, isOk_decodeStrings]

theorem isOk_decodeKeyword_members {k : Keyword} (hk : k = .oneOf ∨ k = .anyOf ∨ k = .allOf)
    (s : Schema) (v : Json) :
    (decodeKeyword s k v).isOk = true ↔
      v = .null ∨ ∃ vs, v = .array vs ∧ ∀ w ∈ vs, (decode w).isOk = true := by
  rcases hk with rfl | rfl | rfl <;> cases v <;> simp [decodeKeyword, isOk_decodeList]

theorem isOk_decodeKeyword_reference (s : Schema) (v : Json) :
    (decodeKeyword s .reference v).isOk = true ↔ v = .null ∨ ∃ r, v = .string r := by
  cases v <;> simp [decodeKeyword]

theorem isOk_decodeKeyword_items (s : Schema) (v : Json) :
    (decodeKeyword s .items v).isOk = true ↔ v = .null ∨ (decode v).isOk = true := by
  cases v <;> simp [decodeKeyword, decode]

/-! ### Values -/

/-- A value of a member of an object is smaller than the object. -/
theorem sizeOf_lt_of_mem_members {ms : List (String × Json)} {m : String × Json} (h : m ∈ ms) :
    sizeOf m.2 < sizeOf (Json.object ms) := by
  have hm := List.sizeOf_lt_of_mem h
  have : sizeOf m.2 < sizeOf m := by
    obtain ⟨name, v⟩ := m
    simp only [Prod.mk.sizeOf_spec]
    omega
  rw [Json.object.sizeOf_spec]
  omega

/-- An item of an array is smaller than the array. -/
theorem sizeOf_lt_of_mem_items {vs : List Json} {v : Json} (h : v ∈ vs) :
    sizeOf v < sizeOf (Json.array vs) := by
  have := List.sizeOf_lt_of_mem h
  rw [Json.array.sizeOf_spec]
  omega

/-- A keyword takes the values that it admits, if the values that are no larger
are read as they have to be: `items` takes the value itself for a schema. -/
theorem isOk_decodeKeyword {v : Json}
    (ih : ∀ w, sizeOf w ≤ sizeOf v → ((decode w).isOk = true ↔ Definition w)) (s : Schema)
    (k : Keyword) : (decodeKeyword s k v).isOk = true ↔ Admits k v := by
  have hlist : ∀ {k}, (k = .oneOf ∨ k = .anyOf ∨ k = .allOf) →
      ((decodeKeyword s k v).isOk = true ↔ Admits k v) := by
    intro k hk
    rw [isOk_decodeKeyword_members hk, admits_members hk]
    refine or_congr_right (exists_congr fun vs => and_congr_right fun hv => forall₂_congr ?_)
    subst hv
    exact fun w hw => ih w (Nat.le_of_lt (sizeOf_lt_of_mem_items hw))
  cases k with
  | type => exact iff_of_true (by rw [decodeKeyword, isOk_ok]) (.type v)
  | enum => rw [isOk_decodeKeyword_enum, admits_enum]
  | properties =>
    rw [isOk_decodeKeyword_properties, admits_properties]
    refine or_congr_right (exists_congr fun ms => and_congr_right fun hv => forall₂_congr ?_)
    subst hv
    exact fun m hm => ih m.2 (Nat.le_of_lt (sizeOf_lt_of_mem_members hm))
  | required => rw [isOk_decodeKeyword_required, admits_required]
  | oneOf => exact hlist (.inl rfl)
  | anyOf => exact hlist (.inr (.inl rfl))
  | allOf => exact hlist (.inr (.inr rfl))
  | reference => rw [isOk_decodeKeyword_reference, admits_reference]
  | items =>
    rw [isOk_decodeKeyword_items, admits_items]
    exact or_congr_right (ih v Nat.le.refl)

/-- **A value is read as a schema exactly if it is a definition.** -/
theorem isOk_decode (v : Json) : (decode v).isOk = true ↔ Definition v := by
  cases v with
  | object ms =>
    have hkeyword : ∀ m ∈ ms, ∀ s k, (decodeKeyword s k m.2).isOk = true ↔ Admits k m.2 := by
      intro m hm
      refine isOk_decodeKeyword fun w hw => ?_
      have := Nat.lt_of_le_of_lt hw (sizeOf_lt_of_mem_members hm)
      exact isOk_decode w
    rw [decode, isOk_decodeMembers hkeyword]
    constructor
    · exact .object
    · rintro ⟨h⟩
      exact h
  | array vs =>
    have hkeyword : ∀ v ∈ vs, ∀ s k, (decodeKeyword s k v).isOk = true ↔ Admits k v := by
      intro v hv
      refine isOk_decodeKeyword fun w hw => ?_
      have := Nat.lt_of_le_of_lt hw (sizeOf_lt_of_mem_items hv)
      exact isOk_decode w
    rw [decode, isOk_decodeItems hkeyword]
    constructor
    · rintro ⟨hlength, h⟩
      exact .array hlength h
    · intro h
      cases h with
      | array hlength h => exact ⟨hlength, h⟩
  | _ => exact iff_of_false (by simp [decode]) nofun
termination_by sizeOf v
decreasing_by all_goals assumption

theorem exists_decode_eq_error {v : Json} (h : ¬ Definition v) : ∃ e, decode v = .error e := by
  cases hv : decode v with
  | ok s => exact absurd ((isOk_decode v).1 (by rw [hv]; rfl)) h
  | error e => exact ⟨e, rfl⟩

theorem exists_decode_eq_ok {v : Json} (h : Definition v) : ∃ s, decode v = .ok s := by
  cases hv : decode v with
  | ok s => exact ⟨s, rfl⟩
  | error e => exact absurd ((isOk_decode v).2 h) (by rw [hv]; exact Bool.false_ne_true)

instance : DecidablePred Definition := fun v =>
  decidable_of_iff ((decode v).isOk = true) (isOk_decode v)

end Schema
end SchemaTypes
