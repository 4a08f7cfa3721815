/-
# Keys of objects are distinct

In a JSON value that was read no object, at any depth, has a key twice: the
reader collects the members of an object, and of a repeated key the first
place and the last value stay. The induction is on how many objects and arrays
may still be opened; the values inside of an object or an array are read with
one less.

Key definitions: `Json.keys`, `Json.inside`, `Json.DistinctKeys`.
Key theorems: `Json.distinctKeys_collect`, `Json.distinctKeys_of_parse`.
-/
import SchemaTypes.Json.Parser
import SchemaTypes.Proofs.Except

namespace SchemaTypes

namespace Json

/-- The keys of an object; other values have none. -/
def keys : Json → List String
  | .object ms => Entries.names ms
  | _ => []

/-- The values right inside of an array or an object. -/
def inside : Json → List Json
  | .array vs => vs
  | .object ms => ms.map Prod.snd
  | _ => []

/-- No object of the value, at any depth, has a key twice. -/
inductive DistinctKeys : Json → Prop
  | intro {v : Json} (hkeys : v.keys.Nodup) (h : ∀ u ∈ v.inside, DistinctKeys u) : DistinctKeys v

/-- A value with nothing inside has no key. -/
theorem distinctKeys_flat {v : Json} (hkeys : v.keys = []) (h : v.inside = []) :
    DistinctKeys v := by
  refine .intro ?_ fun u hu => ?_
  · rw [hkeys]
    exact List.nodup_nil
  · rw [h] at hu
    cases hu

theorem distinctKeys_array {vs : List Json} (h : ∀ v ∈ vs, DistinctKeys v) :
    DistinctKeys (.array vs) :=
  .intro List.nodup_nil h

/-- Members that are collected make an object without a repeated key. -/
theorem distinctKeys_collect {ms : List (String × Json)} (h : ∀ m ∈ ms, DistinctKeys m.2) :
    DistinctKeys (.object (Entries.collect ms [])) := by
  refine .intro (Entries.nodup_collect List.nodup_nil) fun u hu => ?_
  obtain ⟨e, he, rfl⟩ := List.mem_map.1 hu
  rcases Entries.value_of_mem_collect he with ⟨m, hm, hvalue⟩ | he
  · rw [hvalue]
    exact h m hm
  · cases he

namespace Parser

/-- What the reader reads has no key twice. -/
def ReadsDistinct (value : Reader Json) : Prop :=
  ∀ cs v rest, value cs = .ok (v, rest) → DistinctKeys v

variable {value : Reader Json}

theorem distinctKeys_items (hvalue : ReadsDistinct value) (n : Nat) :
    ∀ cs vs rest, items value n cs = .ok (vs, rest) → ∀ v ∈ vs, DistinctKeys v := by
  induction n with
  | zero => intro cs vs rest h; cases h
  | succ n ih =>
    intro cs vs rest h
    rw [items] at h
    obtain ⟨⟨v, cs'⟩, hv, h⟩ := Except.exists_of_bind_eq_ok h
    have hv := hvalue _ _ _ hv
    simp only at h
    split at h
    · obtain ⟨⟨vs', rest'⟩, hvs, h⟩ := Except.exists_of_bind_eq_ok h
      cases h
      exact List.forall_mem_cons.2 ⟨hv, ih _ _ _ hvs⟩
    · cases h
      exact List.forall_mem_singleton.2 hv
    · cases h

theorem distinctKeys_member (hvalue : ReadsDistinct value) {cs rest : List Char}
    {m : String × Json} (h : member value cs = .ok (m, rest)) : DistinctKeys m.2 := by
  rw [member] at h
  split at h
  · obtain ⟨⟨key, cs'⟩, -, h⟩ := Except.exists_of_bind_eq_ok h
    simp only at h
    split at h
    · obtain ⟨⟨v, rest'⟩, hv, h⟩ := Except.exists_of_bind_eq_ok h
      cases h
      exact hvalue _ _ _ hv
    · cases h
  · cases h

theorem distinctKeys_members (hvalue : ReadsDistinct value) (n : Nat) :
    ∀ cs ms rest, members value n cs = .ok (ms, rest) → ∀ m ∈ ms, DistinctKeys m.2 := by
  induction n with
  | zero => intro cs ms rest h; cases h
  | succ n ih =>
    intro cs ms rest h
    rw [members] at h
    obtain ⟨⟨m, cs'⟩, hm, h⟩ := Except.exists_of_bind_eq_ok h
    have hm := distinctKeys_member hvalue hm
    simp only at h
    split at h
    · obtain ⟨⟨ms', rest'⟩, hms, h⟩ := Except.exists_of_bind_eq_ok h
      cases h
      exact List.forall_mem_cons.2 ⟨hm, ih _ _ _ hms⟩
    · cases h
      exact List.forall_mem_singleton.2 hm
    · cases h

/-- A value has no key twice if the values inside of it have none. -/
theorem distinctKeys_valueWith {inner : Option (Reader Json)}
    (hinner : ∀ value, inner = some value → ReadsDistinct value) :
    ReadsDistinct (valueWith inner) := by
  intro cs v rest h
  unfold valueWith at h
  split at h
  · cases h
  · obtain ⟨rest', -, h⟩ := Except.exists_of_bind_eq_ok h
    cases h
    exact distinctKeys_flat rfl rfl
  · obtain ⟨rest', -, h⟩ := Except.exists_of_bind_eq_ok h
    cases h
    exact distinctKeys_flat rfl rfl
  · obtain ⟨rest', -, h⟩ := Except.exists_of_bind_eq_ok h
    cases h
    exact distinctKeys_flat rfl rfl
  · obtain ⟨p, -, h⟩ := Except.exists_of_bind_eq_ok h
    cases h
    exact distinctKeys_flat rfl rfl
  · split at h
    · cases h
    · split at h
      · cases h
        exact distinctKeys_flat rfl rfl
      · obtain ⟨p, hvs, h⟩ := Except.exists_of_bind_eq_ok h
        cases h
        exact distinctKeys_array (distinctKeys_items (hinner _ rfl) _ _ _ _ hvs)
  · split at h
    · cases h
    · split at h
      · cases h
        exact distinctKeys_flat rfl rfl
      · obtain ⟨p, hms, h⟩ := Except.exists_of_bind_eq_ok h
        cases h
        exact distinctKeys_collect (distinctKeys_members (hinner _ rfl) _ _ _ _ hms)
  · split at h
    · obtain ⟨p, -, h⟩ := Except.exists_of_bind_eq_ok h
      cases h
      exact distinctKeys_flat rfl rfl
    · cases h

theorem distinctKeys_value (depth : Nat) : ReadsDistinct (Parser.value depth) := by
  induction depth with
  | zero => exact distinctKeys_valueWith nofun
  | succ depth ih =>
    refine distinctKeys_valueWith fun value hvalue => ?_
    cases hvalue
    exact ih

end Parser

/-- **What is read from a JSON text has no key twice.** -/
theorem distinctKeys_of_parse {text : String} {v : Json} (h : parse text = .ok v) :
    DistinctKeys v := by
  obtain ⟨⟨v', rest⟩, hv, h⟩ := Except.exists_of_bind_eq_ok h
  have hv := Parser.distinctKeys_value maxDepth _ _ _ hv
  simp only at h
  split at h
  · cases h
    exact hv
  · cases h

end Json
end SchemaTypes
