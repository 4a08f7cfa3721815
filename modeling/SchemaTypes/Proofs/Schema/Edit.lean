/-
# Edits that leave the schema of a value as it is

An edit of a value puts a key that is no keyword into an object, or brings
the keys of an object into another order. It may take place in the value
itself or at any depth in it, wherever a keyword of the value holds a schema:
in a property, in a member of `oneOf`, `anyOf` or `allOf`, or in `items`. The
properties and the members themselves keep their order, and the values of
`enum` are left alone.

A value and its edit are both read as the same schema, or neither of them is
read (`toOption_decode_of_edit`). They may be refused for different reasons,
for the first key that does not fit decides. The induction is on the edit.
With it goes the value of a keyword: whatever schema it is taken into, the
edited value makes the same of it.

Key definitions: `Schema.Edit`, `Schema.EditUnder`.
Key theorems: `Schema.toOption_decode_of_edit`.
-/
import SchemaTypes.Proofs.Except
import SchemaTypes.Proofs.Schema.Keyword

namespace SchemaTypes

namespace Schema

mutual

/-- The second value differs from the first by a key that is no keyword or by
the order of keys, at one place where there is a schema. No key comes twice in
the value of an object, so where keys change places they are distinct. -/
inductive Edit : Json → Json → Prop
  | insert {front back : List (String × Json)} {name : String} (value : Json)
      (hname : Keyword.ofName? name = none) :
      Edit (.object (front ++ back)) (.object (front ++ (name, value) :: back))
  | permute {ms ms' : List (String × Json)} (hnames : (Entries.names ms).Nodup)
      (hp : ms.Perm ms') : Edit (.object ms) (.object ms')
  | member {front back : List (String × Json)} {name : String} {k : Keyword} {v v' : Json}
      (hk : Keyword.ofName? name = some k) (h : EditUnder k v v') :
      Edit (.object (front ++ (name, v) :: back)) (.object (front ++ (name, v') :: back))
  | item {front back : List Json} {k : Keyword} {v v' : Json}
      (hk : Keyword.all[front.length]? = some k) (h : EditUnder k v v') :
      Edit (.array (front ++ v :: back)) (.array (front ++ v' :: back))

/-- The value of the keyword is edited in one of the schemas it holds. -/
inductive EditUnder : Keyword → Json → Json → Prop
  | property {front back : List (String × Json)} {name : String} {v v' : Json} (h : Edit v v') :
      EditUnder .properties (.object (front ++ (name, v) :: back))
        (.object (front ++ (name, v') :: back))
  | alternative {k : Keyword} {front back : List Json} {v v' : Json}
      (hk : k = .oneOf ∨ k = .anyOf ∨ k = .allOf) (h : Edit v v') :
      EditUnder k (.array (front ++ v :: back)) (.array (front ++ v' :: back))
  | items {v v' : Json} (h : Edit v v') : EditUnder .items v v'

end

/-! ### Reading one after another -/

theorem toOption_decodeMembers_cons {name : String} {k : Keyword}
    (hk : Keyword.ofName? name = some k) (s : Schema) (v : Json) (ms : List (String × Json)) :
    (decodeMembers s ((name, v) :: ms)).toOption =
      (decodeKeyword s k v).toOption.bind fun t => (decodeMembers t ms).toOption := by
  simp only [decodeMembers, hk]
  cases decodeKeyword s k v <;> rfl

theorem toOption_decodeItems_cons (s : Schema) (k : Keyword) (ks : List Keyword) (v : Json)
    (vs : List Json) :
    (decodeItems s (k :: ks) (v :: vs)).toOption =
      (decodeKeyword s k v).toOption.bind fun t => (decodeItems t ks vs).toOption := by
  rw [decodeItems]
  cases decodeKeyword s k v <;> rfl

theorem toOption_decodeList_cons (v : Json) (vs : List Json) :
    (decodeList (v :: vs)).toOption =
      (decode v).toOption.bind fun s => (decodeList vs).toOption.map (s :: ·) := by
  rw [decodeList]
  cases decode v with
  | error e => rfl
  | ok s => exact toOption_map _ _

theorem toOption_decodeNamed_cons (name : String) (v : Json) (ms : List (String × Json)) :
    (decodeNamed ((name, v) :: ms)).toOption =
      (decode v).toOption.bind fun s => (decodeNamed ms).toOption.map ((name, s) :: ·) := by
  rw [decodeNamed]
  cases decode v with
  | error e => rfl
  | ok s => exact toOption_map _ _

/-! ### One place in a list -/

/-- A key that is no keyword makes no difference wherever it stands. -/
theorem decodeMembers_insert {name : String} (hname : Keyword.ofName? name = none) (value : Json)
    (front back : List (String × Json)) (s : Schema) :
    decodeMembers s (front ++ (name, value) :: back) = decodeMembers s (front ++ back) := by
  induction front generalizing s with
  | nil => simp only [List.nil_append, decodeMembers, hname]
  | cons m front ih => simp only [List.cons_append, decodeMembers, ih]

/-- Where no key comes twice, the order of the keys makes no difference. -/
theorem toOption_decodeMembers_of_perm {ms ms' : List (String × Json)}
    (hnames : (Entries.names ms).Nodup) (hp : ms.Perm ms') :
    (decodeMembers {} ms).toOption = (decodeMembers {} ms').toOption := by
  have hnames' : (Entries.names ms').Nodup := (hp.map Prod.fst).nodup_iff.1 hnames
  refine Option.ext fun s => ?_
  rw [toOption_eq_some_iff, toOption_eq_some_iff, decodeMembers_eq_ok_iff hnames,
    decodeMembers_eq_ok_iff hnames']
  exact forall_congr' fun k => by rw [Entries.find?_eq_of_perm hnames hp]

variable {k : Keyword} {v v' : Json}

theorem toOption_decodeMembers_replace {name : String} (hk : Keyword.ofName? name = some k)
    (hv : ∀ s, (decodeKeyword s k v).toOption = (decodeKeyword s k v').toOption)
    (front back : List (String × Json)) (s : Schema) :
    (decodeMembers s (front ++ (name, v) :: back)).toOption =
      (decodeMembers s (front ++ (name, v') :: back)).toOption := by
  induction front generalizing s with
  | nil =>
    rw [List.nil_append, List.nil_append, toOption_decodeMembers_cons hk,
      toOption_decodeMembers_cons hk, hv]
  | cons m front ih =>
    obtain ⟨n, w⟩ := m
    rw [List.cons_append, List.cons_append]
    cases hj : Keyword.ofName? n with
    | none =>
      simp only [decodeMembers, hj]
      exact ih s
    | some j =>
      rw [toOption_decodeMembers_cons hj, toOption_decodeMembers_cons hj]
      exact congrArg _ (funext ih)

theorem toOption_decodeItems_replace
    (hv : ∀ s, (decodeKeyword s k v).toOption = (decodeKeyword s k v').toOption)
    (front back : List Json) (s : Schema) (ks : List Keyword)
    (hk : ks[front.length]? = some k) :
    (decodeItems s ks (front ++ v :: back)).toOption =
      (decodeItems s ks (front ++ v' :: back)).toOption := by
  induction front generalizing s ks with
  | nil =>
    cases ks with
    | nil => cases hk
    | cons j ks =>
      obtain rfl : j = k := Option.some.inj hk
      rw [List.nil_append, List.nil_append, toOption_decodeItems_cons, toOption_decodeItems_cons, hv]
  | cons w front ih =>
    cases ks with
    | nil => cases hk
    | cons j ks =>
      rw [List.cons_append, List.cons_append, toOption_decodeItems_cons, toOption_decodeItems_cons]
      exact congrArg _ (funext fun t => ih t ks hk)

theorem toOption_decodeList_replace (hv : (decode v).toOption = (decode v').toOption)
    (front back : List Json) :
    (decodeList (front ++ v :: back)).toOption = (decodeList (front ++ v' :: back)).toOption := by
  induction front with
  | nil =>
    rw [List.nil_append, List.nil_append, toOption_decodeList_cons, toOption_decodeList_cons, hv]
  | cons w front ih =>
    rw [List.cons_append, List.cons_append, toOption_decodeList_cons, toOption_decodeList_cons, ih]

theorem toOption_decodeNamed_replace (hv : (decode v).toOption = (decode v').toOption)
    (name : String) (front back : List (String × Json)) :
    (decodeNamed (front ++ (name, v) :: back)).toOption =
      (decodeNamed (front ++ (name, v') :: back)).toOption := by
  induction front with
  | nil =>
    rw [List.nil_append, List.nil_append, toOption_decodeNamed_cons, toOption_decodeNamed_cons, hv]
  | cons m front ih =>
    obtain ⟨n, w⟩ := m
    rw [List.cons_append, List.cons_append, toOption_decodeNamed_cons, toOption_decodeNamed_cons, ih]

/-! ### Edits -/

/-- What is edited is an object or an array. -/
theorem Edit.ne_null (h : Edit v v') : v ≠ .null ∧ v' ≠ .null := by
  cases h <;> exact ⟨Json.noConfusion, Json.noConfusion⟩

/-- `items` takes the schema of any value other than null. -/
theorem decodeKeyword_items (s : Schema) (hv : v ≠ .null) :
    decodeKeyword s .items v = (decode v).map fun t => { s with items := some t } := by
  cases v with
  | null => exact absurd rfl hv
  | object ms => rw [decodeKeyword, decode]
  | array vs => rw [decodeKeyword, decode]
  | _ => rfl

mutual

/-- **An edited value is read as the same schema**, or neither of the two is
read. -/
theorem toOption_decode_of_edit {v v' : Json} : Edit v v' →
    (decode v).toOption = (decode v').toOption
  | .insert value hname => by rw [decode, decode, decodeMembers_insert hname]
  | .permute hnames hp => by
    rw [decode, decode]
    exact toOption_decodeMembers_of_perm hnames hp
  | .member hk h => by
    rw [decode, decode]
    exact toOption_decodeMembers_replace hk (toOption_decodeKeyword_of_edit h) _ _ _
  | .item hk h => by
    rw [decode, decode]
    exact toOption_decodeItems_replace (toOption_decodeKeyword_of_edit h) _ _ _ _ hk

/-- A keyword makes the same of an edited value. -/
theorem toOption_decodeKeyword_of_edit {k : Keyword} {v v' : Json} : EditUnder k v v' →
    ∀ s, (decodeKeyword s k v).toOption = (decodeKeyword s k v').toOption
  | .property h, s => by
    have hread := toOption_decodeNamed_replace (toOption_decode_of_edit h)
    rw [decodeKeyword, decodeKeyword, toOption_map, toOption_map, hread]
  | .alternative hk h, s => by
    have hread := toOption_decodeList_replace (toOption_decode_of_edit h)
    obtain rfl | rfl | rfl := hk
    all_goals rw [decodeKeyword, decodeKeyword, toOption_map, toOption_map, hread]
  | .items h, s => by
    obtain ⟨hv, hv'⟩ := h.ne_null
    rw [decodeKeyword_items s hv, decodeKeyword_items s hv', toOption_map, toOption_map,
      toOption_decode_of_edit h]

end

end Schema
end SchemaTypes
