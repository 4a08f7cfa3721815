/-
# The order of keywords does not matter

A schema has one field for each keyword: `under` keeps what stands under one
of them, and `graft` takes it from another schema. The value of a keyword is
read into the field of this keyword, and what the schema has under the other
keywords makes no difference to it (`decodeKeyword_eq_graft`).

So an object in which no key comes twice is read keyword by keyword. What is
found under a keyword, or that nothing is, decides what the schema has there;
the order of the keys and the keys that are no keyword have no say
(`decodeMembers_eq_ok_iff`). The induction is on the members, with a schema
that has nothing yet under the keywords still to come.

Key definitions: `Schema.graft`, `Schema.under`, `Schema.decodeUnder`.
Key theorems: `Schema.eq_of_under`, `Schema.decodeKeyword_eq_graft`,
`Schema.decodeMembers_eq_ok_iff`.
-/
import Mathlib.Logic.Function.Basic
import SchemaTypes.Schema.Decode

namespace SchemaTypes.Schema

/-- The schema with what stands under a keyword taken from another one. -/
def graft (k : Keyword) (t s : Schema) : Schema :=
  match k with
  | .type => { s with kind := t.kind }
  | .enum => { s with enum := t.enum }
  | .properties => { s with properties := t.properties }
  | .required => { s with required := t.required }
  | .oneOf => { s with oneOf := t.oneOf }
  | .anyOf => { s with anyOf := t.anyOf }
  | .allOf => { s with allOf := t.allOf }
  | .reference => { s with reference := t.reference }
  | .items => { s with items := t.items }

/-- The schema that has what stands under a keyword, and nothing else. -/
def under (k : Keyword) (s : Schema) : Schema :=
  graft k s {}

/-- The schema that is read from the value of a keyword, or from its
absence. -/
def decodeUnder (k : Keyword) : Option Json → Except Json.Mismatch Schema
  | none => .ok {}
  | some v => decodeKeyword {} k v

variable {j k : Keyword} {s t : Schema} {ms : List (String × Json)}

/-! ### What stands under a keyword -/

@[simp] theorem under_empty (k : Keyword) : under k {} = {} := by
  cases k <;> rfl

theorem under_graft (k : Keyword) (t s : Schema) : under k (graft k t s) = under k t := by
  cases k <;> rfl

theorem under_graft_of_ne (h : j ≠ k) (t s : Schema) : under j (graft k t s) = under j s := by
  cases k <;> cases j <;> first | rfl | exact absurd rfl h

/-- A schema is what stands under its keywords. -/
theorem eq_of_under (h : ∀ k, s.under k = t.under k) : s = t := by
  have hkind := congrArg Schema.kind (h .type)
  have henum := congrArg Schema.enum (h .enum)
  have hproperties := congrArg Schema.properties (h .properties)
  have hrequired := congrArg Schema.required (h .required)
  have honeOf := congrArg Schema.oneOf (h .oneOf)
  have hanyOf := congrArg Schema.anyOf (h .anyOf)
  have hallOf := congrArg Schema.allOf (h .allOf)
  have hreference := congrArg Schema.reference (h .reference)
  have hitems := congrArg Schema.items (h .items)
  cases s
  cases t
  simp only [under, graft] at hkind henum hproperties hrequired honeOf hanyOf hallOf hreference hitems
  subst_vars
  rfl

/-- Where nothing stands, nothing can be taken away. -/
theorem graft_empty (h : s.under k = {}) : graft k {} s = s := by
  cases s
  cases k <;> simp only [under, graft, mk.injEq, true_and, and_true] at h <;> subst h <;> rfl

/-! ### What a keyword takes -/

/-- The value of a keyword is read into what stands under this keyword. What
else the schema has makes no difference. -/
theorem decodeKeyword_eq_graft (h : s.under k = {}) (v : Json) :
    decodeKeyword s k v = (decodeKeyword {} k v).map fun t => graft k t s := by
  -- Null leaves a schema as it is: under this keyword it has nothing so far.
  have hnull : (.ok s : Except Json.Mismatch Schema) = .ok (graft k {} s) :=
    congrArg Except.ok (graft_empty h).symm
  cases k with
  | type =>
    rw [decodeKeyword, decodeKeyword]
    rfl
  | enum | reference =>
    cases v with
    | null => exact hnull
    | _ => rfl
  | required =>
    cases v with
    | array vs =>
      rw [decodeKeyword, decodeKeyword]
      cases decodeStrings vs <;> rfl
    | _ => rfl
  | properties =>
    cases v with
    | null => exact hnull
    | object ms =>
      rw [decodeKeyword, decodeKeyword]
      cases decodeNamed ms <;> rfl
    | _ => rfl
  | oneOf | anyOf | allOf =>
    cases v with
    | null => exact hnull
    | array vs =>
      rw [decodeKeyword, decodeKeyword]
      cases decodeList vs <;> rfl
    | _ => rfl
  | items =>
    cases v with
    | null => exact hnull
    | object ms =>
      rw [decodeKeyword, decodeKeyword]
      cases decodeMembers {} ms <;> rfl
    | array vs =>
      rw [decodeKeyword, decodeKeyword]
      cases decodeItems {} Keyword.all vs <;> rfl
    | _ => rfl

theorem under_of_decodeKeyword {v : Json} (h : decodeKeyword {} k v = .ok t) : t.under k = t := by
  have ht := decodeKeyword_eq_graft (under_empty k) v
  rw [h] at ht
  exact (Except.ok.inj ht).symm

/-! ### The keys of an object -/

theorem Keyword.name_of_ofName? {name : String} (h : Keyword.ofName? name = some k) :
    k.name = name := by
  simpa using List.find?_some h

theorem Keyword.ofName?_name (k : Keyword) : Keyword.ofName? k.name = some k := by
  cases k <;> rfl

theorem Keyword.name_injective : Function.Injective Keyword.name := by
  intro j k h
  have hj := Keyword.ofName?_name j
  rw [h, Keyword.ofName?_name] at hj
  exact (Option.some.inj hj).symm

/-- Where the schema has nothing yet under the keywords among the members, and
no key comes twice, each keyword is read into its own place, and everything
else stays. -/
theorem decodeMembers_eq_ok_iff_of_absent {s₀ : Schema} (hnames : (Entries.names ms).Nodup)
    (habsent : ∀ k : Keyword, k.name ∈ Entries.names ms → s₀.under k = {}) :
    decodeMembers s₀ ms = .ok s ↔ ∀ k : Keyword,
      match Entries.find? k.name ms with
      | none => s.under k = s₀.under k
      | some v => decodeKeyword {} k v = .ok (s.under k) := by
  induction ms generalizing s₀ with
  | nil =>
    constructor
    · intro h k
      cases h
      rfl
    · intro h
      exact congrArg Except.ok (eq_of_under fun k => (h k).symm)
  | cons m ms ih =>
    obtain ⟨name, v⟩ := m
    obtain ⟨hname, hms⟩ := List.nodup_cons.1 hnames
    have hrest : ∀ k : Keyword, k.name ∈ Entries.names ms → s₀.under k = {} := fun k hk =>
      habsent k (List.mem_cons_of_mem _ hk)
    rw [decodeMembers]
    cases hj : Keyword.ofName? name with
    | none =>
      have hne : ∀ k : Keyword, name ≠ k.name := by
        rintro k rfl
        rw [Keyword.ofName?_name] at hj
        cases hj
      simp only [ih hms hrest, Entries.find?, hne, if_false]
    | some j =>
      obtain rfl : j.name = name := Keyword.name_of_ofName? hj
      have hfind : ∀ k : Keyword, Entries.find? k.name ((j.name, v) :: ms) =
          if k = j then some v else Entries.find? k.name ms := fun k => by
        simp only [Entries.find?, Keyword.name_injective.eq_iff, eq_comm]
      have hgraft := decodeKeyword_eq_graft (habsent j List.mem_cons_self) v
      cases hv : decodeKeyword {} j v with
      | error e =>
        rw [hv] at hgraft
        simp only [hgraft, Except.map]
        refine iff_of_false (by simp) fun h => ?_
        have hj := h j
        rw [hfind, if_pos rfl] at hj
        simp only [hv] at hj
        cases hj
      | ok u =>
        rw [hv] at hgraft
        simp only [hgraft, Except.map]
        have hne : ∀ k : Keyword, k.name ∈ Entries.names ms → k ≠ j := fun k hk hkj =>
          hname (hkj ▸ hk)
        rw [ih hms fun k hk => (under_graft_of_ne (hne k hk) u s₀).trans (hrest k hk)]
        refine forall_congr' fun k => ?_
        rw [hfind]
        by_cases hkj : k = j
        · subst hkj
          rw [Entries.find?_of_not_mem hname, if_pos rfl]
          simp only [hv, under_graft, under_of_decodeKeyword hv, Except.ok.injEq, eq_comm]
        · rw [if_neg hkj, under_graft_of_ne hkj]

/-- **An object is read keyword by keyword.** If no key comes twice, the schema
read from an object has under each keyword what is read from the value found
there, whatever the order of the keys. -/
theorem decodeMembers_eq_ok_iff (hnames : (Entries.names ms).Nodup) :
    decodeMembers {} ms = .ok s ↔
      ∀ k : Keyword, decodeUnder k (Entries.find? k.name ms) = .ok (s.under k) := by
  rw [decodeMembers_eq_ok_iff_of_absent hnames fun k _ => under_empty k]
  refine forall_congr' fun k => ?_
  cases Entries.find? k.name ms with
  | none => simp only [decodeUnder, under_empty, Except.ok.injEq, eq_comm]
  | some v => rfl

end SchemaTypes.Schema
