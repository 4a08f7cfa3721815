/-
# A name is left exactly at a cycle

The references of a catalog make a graph: a schema refers to the entries that
are targets of the references it meets, and an entry to those its schema
refers to. With references expanded in place, a name is left in the type of a
schema exactly if a cycle of this graph can be reached from the schema.

The stack of an expansion is a path in the graph: every name that was pushed
leads to everything that is referred to from inside of its expansion
(`transGen_of_within`). So a reference back to the stack closes a cycle. The
other way round, if no name is left, every reference was expanded, and by
induction on the stack no cycle can be reached from any of their targets
(`cycleFree_of_names_eq_nil`).

Key definitions: `Catalog.Refers`, `Catalog.Edge`, `Catalog.ReachesCycle`,
`Typing.Within`, `Typing.InsideOf`.
Key theorems: `Typing.subterm?_of_within`, `Typing.within_of_named`,
`Typing.hasName_iff_reachesCycle`.
-/
import Mathlib.Logic.Relation
import SchemaTypes.Proofs.Typing.References

namespace SchemaTypes

open Relation (ReflTransGen TransGen)

namespace Catalog

variable (c : Catalog)

/-- Typing the schema meets a reference to the entry. -/
def Refers (s : Schema) (n : String) : Prop :=
  n ∈ c.names ∧ ∃ r ∈ s.references, Reference.target r = n

/-- The schema of the first entry refers to the second entry. -/
def Edge (m n : String) : Prop :=
  ∃ s, c.find? m = some s ∧ c.Refers s n

/-- The schema refers to an entry from which the other one can be reached. -/
def Reaches (s : Schema) (n : String) : Prop :=
  ∃ m, c.Refers s m ∧ ReflTransGen c.Edge m n

/-- A cycle can be reached from the schema. -/
def ReachesCycle (s : Schema) : Prop :=
  ∃ n, c.Reaches s n ∧ TransGen c.Edge n n

/-- No cycle can be reached from the entry. -/
def CycleFree (n : String) : Prop :=
  ∀ m, ReflTransGen c.Edge n m → ¬ TransGen c.Edge m m

variable {c : Catalog} {s t : Schema} {m n : String}

theorem Refers.reaches (h : c.Refers s n) : c.Reaches s n :=
  ⟨n, h, .refl⟩

/-- What an entry's schema reaches, the entry reaches by at least one step. -/
theorem Reaches.transGen (hm : c.find? m = some s) (h : c.Reaches s n) : TransGen c.Edge m n := by
  obtain ⟨k, hk, hkn⟩ := h
  exact .head' ⟨s, hm, hk⟩ hkn

/-- What the schema of an entry reaches, a schema that refers to the entry
reaches. -/
theorem Refers.reaches_of_reaches (hm : c.Refers s m) (ht : c.find? m = some t)
    (h : c.Reaches t n) : c.Reaches s n :=
  ⟨m, hm, (h.transGen ht).to_reflTransGen⟩

/-- An entry is free of cycles if all it refers to is: a cycle through the
entry goes on to one of them. -/
theorem cycleFree_of_edges (h : ∀ k, c.Edge n k → c.CycleFree k) : c.CycleFree n := by
  intro m hm hcycle
  rcases ReflTransGen.cases_head hm with rfl | ⟨k, hk, hkm⟩
  · obtain ⟨k, hk, hkn⟩ := TransGen.head'_iff.1 hcycle
    exact h k hk k .refl (.tail' hkn hk)
  · exact h k hk m hkm hcycle

theorem not_reachesCycle (h : ∀ n, c.Refers s n → c.CycleFree n) : ¬ c.ReachesCycle s := by
  rintro ⟨n, ⟨m, hm, hmn⟩, hcycle⟩
  exact h m hm n hmn hcycle

end Catalog

namespace TypeTerm

/-- A declared name stands somewhere in the type. -/
def HasName (t : TypeTerm) : Prop :=
  ∃ position n, t.subterm? position = some (.named n)

theorem hasName_iff {t : TypeTerm} : t.HasName ↔ t.names ≠ [] := by
  constructor
  · rintro ⟨position, n, h⟩
    exact List.ne_nil_of_mem (mem_names_iff.2 ⟨position, h⟩)
  · intro h
    obtain ⟨n, hn⟩ := List.exists_mem_of_ne_nil _ h
    obtain ⟨position, hp⟩ := mem_names_iff.1 hn
    exact ⟨position, n, hp⟩

end TypeTerm

namespace Typing

variable {c : Catalog} {o : Settings}

/-! ### No name left, no cycle -/

/-- If no name is left in the type of a schema, no cycle can be reached from
the entries it refers to. -/
theorem cycleFree_of_names_eq_nil (hi : o.inlineRefs = true) (stack : List String) :
    ∀ s, (term c o stack (some s)).value.names = [] → ∀ n, c.Refers s n → c.CycleFree n := by
  induction stack using c.stack_induction with
  | step stack ih =>
    rintro s hs n ⟨hn, r, hr, rfl⟩
    have hr : (reference c o stack r).value.names = [] := by
      rw [term, Schema.names_termWith, List.flatMap_eq_nil_iff] at hs
      exact hs r hr
    have hstack : Reference.target r ∉ stack := by
      intro hstack
      rw [reference_cut hi hstack] at hr
      exact List.cons_ne_nil _ _ hr
    obtain ⟨t, ht⟩ : ∃ t, c.find? (Reference.target r) = some t :=
      Entries.exists_find?_of_mem_names hn
    rw [reference_expanded hi hstack ht] at hr
    refine Catalog.cycleFree_of_edges fun k hk => ?_
    obtain ⟨t', ht', hk⟩ := hk
    rw [ht] at ht'
    cases ht'
    exact ih _ hn hstack t hr k hk

/-! ### Where a schema comes to stand in a type -/

/-- Typing the schema inside of the expansion of the first stack comes, at a
position of its type, to typing the other schema inside of the expansion of
the other stack. -/
inductive Within (c : Catalog) :
    List String → Schema → List Nat → List String → Schema → Prop
  | refl (stack : List String) (s : Schema) : Within c stack s [] stack s
  | part {stack stack' : List String} {s t u : Schema} {i : Nat} {position : List Nat}
      (h : s.rule.parts[i]? = some t) (hu : Within c stack t position stack' u) :
      Within c stack s (i :: position) stack' u
  | expand {stack stack' : List String} {s t u : Schema} {r : String} {position : List Nat}
      (hr : s.rule = .reference r) (hs : Reference.target r ∉ stack)
      (ht : Reference.resolve? r c = some t)
      (hu : Within c (stack ++ [Reference.target r]) t position stack' u) :
      Within c stack s position stack' u

variable {stack stack' : List String} {s u : Schema} {position : List Nat} {n : String}

theorem term_expanded {t : Schema} {r : String} (hi : o.inlineRefs = true)
    (hr : s.rule = .reference r) (hs : Reference.target r ∉ stack)
    (ht : Reference.resolve? r c = some t) :
    term c o stack (some s) = term c o (stack ++ [Reference.target r]) (some t) := by
  rw [term, Schema.termWith_of_reference hr, reference_expanded hi hs ht, term]

theorem getElem?_children_term {t : Schema} {i : Nat} (h : s.rule.parts[i]? = some t) :
    (term c o stack (some s)).value.children[i]? = some (term c o stack (some t)).value := by
  have hs := Schema.rule_ne_reference_of_mem_parts (List.mem_of_getElem? h)
  have hi := (List.getElem?_eq_some_iff.1 h).1
  rw [term, Schema.children_termWith hs,
    List.getElem?_append_left (by rw [List.length_map]; exact hi), List.getElem?_map, h]
  rfl

/-- What stands at the position is the type that typing comes to there. -/
theorem subterm?_of_within (hi : o.inlineRefs = true) (h : Within c stack s position stack' u) :
    (term c o stack (some s)).value.subterm? position = some (term c o stack' (some u)).value := by
  induction h with
  | refl => exact TypeTerm.subterm?_nil _
  | part h _ ih => exact (TypeTerm.subterm?_cons_of_child (getElem?_children_term h) _).trans ih
  | expand hr hs ht _ ih => rw [term_expanded hi hr hs ht]; exact ih

/-- A child of a type is the type of a part or one of the leaves. -/
theorem part_or_leaf_of_child (hs : ∀ r, s.rule ≠ .reference r) {i : Nat} {v : TypeTerm}
    (hv : (term c o stack (some s)).value.children[i]? = some v) :
    (∃ t, s.rule.parts[i]? = some t ∧ v = (term c o stack (some t)).value) ∨
      v ∈ s.rule.leaves := by
  rw [term, Schema.children_termWith hs] at hv
  rcases Nat.lt_or_ge i s.rule.parts.length with hi | hi
  · rw [List.getElem?_append_left (by rw [List.length_map]; exact hi), List.getElem?_map,
      Option.map_eq_some_iff] at hv
    obtain ⟨t, ht, rfl⟩ := hv
    exact .inl ⟨t, ht, rfl⟩
  · rw [List.getElem?_append_right (by rw [List.length_map]; exact hi)] at hv
    exact .inr (List.mem_of_getElem? hv)

/-- A child of a type is the type of a part, or it has no names in it. -/
theorem exists_part_of_child (hs : ∀ r, s.rule ≠ .reference r) {i : Nat} {v : TypeTerm}
    (hv : (term c o stack (some s)).value.children[i]? = some v) (hn : n ∈ v.names) :
    ∃ t, s.rule.parts[i]? = some t ∧ v = (term c o stack (some t)).value := by
  rcases part_or_leaf_of_child hs hv with ht | hleaf
  · exact ht
  · have : n ∈ s.rule.leaves.flatMap TypeTerm.names := List.mem_flatMap.2 ⟨v, hleaf, hn⟩
    rw [Schema.names_leaves] at this
    cases this

/-- A name stands where typing comes to a reference to a name of the stack. -/
theorem within_of_named (hi : o.inlineRefs = true) (stack : List String) :
    ∀ s position n, (term c o stack (some s)).value.subterm? position = some (.named n) →
      ∃ stack' u r, Within c stack s position stack' u ∧ u.rule = .reference r ∧
        Reference.target r ∈ stack' ∧ n = Reference.declaredName r o.namePrefix := by
  induction stack using c.stack_induction with
  | step stack ih =>
    intro s
    induction s using Schema.part_induction with
    | step s ihs =>
      intro position n h
      by_cases hs : ∃ r, s.rule = .reference r
      · obtain ⟨r, hr⟩ := hs
        by_cases hstack : Reference.target r ∈ stack
        · rw [term, Schema.termWith_of_reference hr, reference_cut hi hstack] at h
          obtain ⟨rfl, h⟩ := TypeTerm.eq_of_subterm?_leaf rfl h
          cases h
          exact ⟨stack, s, r, .refl stack s, hr, hstack, rfl⟩
        · cases ht : Reference.resolve? r c with
          | none =>
            rw [term, Schema.termWith_of_reference hr, reference_missing hi hstack ht] at h
            obtain ⟨-, h⟩ := TypeTerm.eq_of_subterm?_leaf rfl h
            cases h
          | some t =>
            rw [term_expanded hi hr hstack ht] at h
            obtain ⟨stack', u, r', hu, hur⟩ :=
              ih _ (Catalog.mem_names_of_resolve? ht) hstack t position n h
            exact ⟨stack', u, r', .expand hr hstack ht hu, hur⟩
      · have hs : ∀ r, s.rule ≠ .reference r := fun r hr => hs ⟨r, hr⟩
        obtain ⟨-, h⟩ | ⟨i, v, rest, rfl, hv, hn⟩ := TypeTerm.subterm?_cases h
        · exact absurd h.symm (Schema.termWith_ne_named hs n)
        · obtain ⟨t, ht, rfl⟩ := exists_part_of_child hs hv (TypeTerm.mem_names_iff.2 ⟨rest, hn⟩)
          obtain ⟨stack', u, r, hu, hur⟩ := ihs t (List.mem_of_getElem? ht) rest n hn
          exact ⟨stack', u, r, .part ht hu, hur⟩

/-! ### The stack is a path -/

/-- A part refers to nothing that the schema does not refer to. -/
theorem reaches_of_part {t : Schema} {i : Nat} (h : s.rule.parts[i]? = some t)
    (ht : c.Reaches t n) : c.Reaches s n := by
  obtain ⟨m, ⟨hm, r, hr, rfl⟩, hmn⟩ := ht
  have hs := Schema.rule_ne_reference_of_mem_parts (List.mem_of_getElem? h)
  refine ⟨_, ⟨hm, r, ?_, rfl⟩, hmn⟩
  rw [Schema.references_of_parts hs]
  exact List.mem_flatMap.2 ⟨t, List.mem_of_getElem? h, hr⟩

theorem refers_of_reference {t : Schema} {r : String} (hr : s.rule = .reference r)
    (ht : Reference.resolve? r c = some t) : c.Refers s (Reference.target r) := by
  refine ⟨Catalog.mem_names_of_resolve? ht, r, ?_, rfl⟩
  rw [Schema.references_of_reference hr]
  exact List.mem_singleton_self r

theorem reaches_of_within (h : Within c stack s position stack' u) (hu : c.Reaches u n) :
    c.Reaches s n := by
  induction h with
  | refl => exact hu
  | part h _ ih => exact reaches_of_part h (ih hu)
  | expand hr _ ht _ ih => exact (refers_of_reference hr ht).reaches_of_reaches ht (ih hu)

/-- A name that was pushed on the way is reached from the schema, and it
reaches all that is reached from inside of its expansion. -/
theorem transGen_of_within (h : Within c stack s position stack' u) :
    ∀ m ∈ stack', m ∈ stack ∨
      c.Reaches s m ∧ ∀ n, c.Reaches u n → TransGen c.Edge m n := by
  induction h with
  | refl => exact fun m hm => .inl hm
  | part h _ ih =>
    intro m hm
    exact (ih m hm).imp_right fun h' => ⟨reaches_of_part h h'.1, h'.2⟩
  | expand hr _ ht hu ih =>
    intro m hm
    have hs := refers_of_reference hr ht
    rcases ih m hm with hm | ⟨hm, hmn⟩
    · rcases List.mem_append.1 hm with hm | hm
      · exact .inl hm
      · rw [List.mem_singleton.1 hm]
        exact .inr ⟨hs.reaches, fun n hn => (reaches_of_within hu hn).transGen ht⟩
    · exact .inr ⟨hs.reaches_of_reaches ht hm, hmn⟩

/-- On the way to the position typing comes to a reference to the name and
expands it, and at the position, inside of this expansion, it comes to a
reference to the same name. -/
inductive InsideOf (c : Catalog) : List String → Schema → List Nat → String → Prop
  | intro {stack stack₁ stack₂ : List String} {s v t u : Schema} {front back : List Nat}
      {r r' n : String} (hv : Within c stack s front stack₁ v) (hr : v.rule = .reference r)
      (hn : Reference.target r = n) (hs : n ∉ stack₁) (ht : c.find? n = some t)
      (hu : Within c (stack₁ ++ [n]) t back stack₂ u) (hr' : u.rule = .reference r')
      (hn' : Reference.target r' = n) : InsideOf c stack s (front ++ back) n

/-- A reference to a name of the stack goes back to the stack it started with
or stands inside of the expansion of the name. -/
theorem insideOf_of_within {r : String} (h : Within c stack s position stack' u)
    (hr : u.rule = .reference r) (hn : Reference.target r = n) (hs : n ∈ stack') :
    n ∈ stack ∨ InsideOf c stack s position n := by
  induction h with
  | refl => exact .inl hs
  | part h _ ih =>
    refine (ih hr hs).imp_right fun hin => ?_
    obtain ⟨hv, hr₁, hn₁, hs₁, ht, hu, hr₂, hn₂⟩ := hin
    exact .intro (.part h hv) hr₁ hn₁ hs₁ ht hu hr₂ hn₂
  | expand hr₀ hs₀ ht₀ hu₀ ih =>
    rcases ih hr hs with hm | ⟨hv, hr₁, hn₁, hs₁, ht, hu, hr₂, hn₂⟩
    · rcases List.mem_append.1 hm with hm | hm
      · exact .inl hm
      · have hm := List.mem_singleton.1 hm
        rw [hm] at hn ⊢
        exact .inr (.intro (.refl _ _) hr₀ rfl hs₀ ht₀ hu₀ hr hn)
    · exact .inr (.intro (.expand hr₀ hs₀ ht₀ hv) hr₁ hn₁ hs₁ ht hu hr₂ hn₂)

/-! ### Names and cycles -/

/-- A name left behind comes from the stack or closes a cycle. -/
theorem cycle_of_hasName (hi : o.inlineRefs = true)
    (h : (term c o stack (some s)).value.HasName)
    (hstack : ∀ n ∈ stack, n ∈ c.names ∧ ∀ m, c.Reaches s m → TransGen c.Edge n m) :
    c.ReachesCycle s := by
  obtain ⟨position, x, h⟩ := h
  obtain ⟨stack', u, r, hw, hr, hn, -⟩ := within_of_named hi stack s position x h
  have hrefers : Reference.target r ∈ c.names → c.Reaches u (Reference.target r) := fun hmem =>
    Catalog.Refers.reaches ⟨hmem, r, by
      rw [Schema.references_of_reference hr]
      exact List.mem_singleton_self r, rfl⟩
  rcases transGen_of_within hw _ hn with hn | ⟨hs, hu⟩
  · obtain ⟨hmem, hreach⟩ := hstack _ hn
    have hs := reaches_of_within hw (hrefers hmem)
    exact ⟨_, hs, hreach _ hs⟩
  · obtain ⟨m, ⟨hm, hm'⟩, hmn⟩ := hs
    have hmem : Reference.target r ∈ c.names := by
      rcases ReflTransGen.cases_tail hmn with hmn | ⟨k, -, t, -, ht⟩
      · exact hmn ▸ hm
      · exact ht.1
    exact ⟨_, ⟨m, ⟨hm, hm'⟩, hmn⟩, hu _ (hrefers hmem)⟩

theorem hasName_of_cycle (hi : o.inlineRefs = true) (h : c.ReachesCycle s) :
    (term c o stack (some s)).value.HasName := by
  rw [TypeTerm.hasName_iff]
  intro hnil
  exact Catalog.not_reachesCycle (cycleFree_of_names_eq_nil hi stack s hnil) h

/-- **A name is left exactly at a cycle.** Typing a schema with references
expanded leaves a name if and only if a cycle can be reached from the schema,
also when it starts inside of the schema's own entry. Each name left is the
declared name of a name that typing started inside of or that is being
expanded around it, where the types that typing comes to are the subterms at
their positions. -/
theorem hasName_iff_reachesCycle (c : Catalog) (o : Settings) :
    (∀ s, (term c { o with inlineRefs := true } [] (some s)).value.HasName ↔ c.ReachesCycle s) ∧
      (∀ n s, c.find? n = some s →
        ((term c { o with inlineRefs := true } [n] (some s)).value.HasName ↔
          c.ReachesCycle s)) ∧
      (∀ stack s position x,
        (term c { o with inlineRefs := true } stack (some s)).value.subterm? position =
            some (.named x) →
          ∃ n, x = o.declaredName n ∧ (n ∈ stack ∨ InsideOf c stack s position n)) ∧
      ∀ stack s position stack' u, Within c stack s position stack' u →
        (term c { o with inlineRefs := true } stack (some s)).value.subterm? position =
          some (term c { o with inlineRefs := true } stack' (some u)).value := by
  refine ⟨fun s => ⟨fun h => ?_, hasName_of_cycle rfl⟩,
    fun n s hn => ⟨fun h => ?_, hasName_of_cycle rfl⟩, fun stack s position x h => ?_,
    fun stack s position stack' u h => subterm?_of_within rfl h⟩
  · exact cycle_of_hasName rfl h fun n hn => by cases hn
  · refine cycle_of_hasName rfl h fun m hm => ?_
    rw [List.mem_singleton.1 hm]
    exact ⟨Catalog.mem_names_of_find? hn, fun k hk => hk.transGen hn⟩
  · obtain ⟨stack', u, r, hw, hr, hn, rfl⟩ := within_of_named rfl stack s position x h
    exact ⟨Reference.target r, rfl, insideOf_of_within hw hr rfl hn⟩

/-- Inside of the declaration of `A` the ring is left at the reference back to
`A`, so a cycle can be reached from its schema. -/
theorem ring_reachesCycle :
    Catalog.ring.find? "A" = some (.link "b" "#/components/schemas/B") ∧
      Catalog.ring.ReachesCycle (.link "b" "#/components/schemas/B") := by
  have hA : Catalog.ring.find? "A" = some (.link "b" "#/components/schemas/B") := rfl
  have hname : (term Catalog.ring { inlineRefs := true } ["A"]
      (some (.link "b" "#/components/schemas/B"))).value.HasName :=
    ⟨[0, 0], "IA", by rw [term_ring]; rfl⟩
  obtain ⟨-, h, -⟩ := hasName_iff_reachesCycle Catalog.ring {}
  exact ⟨hA, (h "A" _ hA).1 hname⟩

end Typing
end SchemaTypes
