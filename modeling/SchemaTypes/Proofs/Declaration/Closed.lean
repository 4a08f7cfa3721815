/-
# Closed catalogs are declared closed

A catalog is closed if every reference that stands anywhere in its schemas has
its target among its entries. Then every name in its declarations is declared,
by one entry, and nothing is reported as unknown.

A name in a declaration comes from a reference in three ways: it is kept as a
member of a union or an intersection, it is kept by typing, or it is left
where an expansion is cut. The last two, and every event, go back to a
reference that typing comes to (`Typing.origin_of_names`,
`Typing.origin_of_events`), also through the entries it expands, and all of
these stand in the catalog.

Key definitions: `Catalog.Closed`.
Key theorems: `Typing.origin_of_names`, `Typing.origin_of_events`,
`Catalog.declare_closed`.
-/
import SchemaTypes.Proofs.Declaration.Row

namespace SchemaTypes

namespace Typing

variable {c : Catalog} {o : Settings} {stack : List String} {s : Schema}

/-! ### Where names and events come from -/

/-- A name in the type of a schema is that of a reference that typing comes
to. -/
theorem origin_of_names (stack : List String) :
    ∀ s x, x ∈ (term c o stack (some s)).value.names →
      ∃ r, Visits c o s r ∧ x = Reference.declaredName r o.namePrefix := by
  induction stack using c.stack_induction with
  | step stack ih =>
    intro s x hx
    rw [term, Schema.names_termWith] at hx
    obtain ⟨r, hr, hx⟩ := List.mem_flatMap.1 hx
    have hkept : x ∈ (named o r).names →
        ∃ r, Visits c o s r ∧ x = Reference.declaredName r o.namePrefix := fun hx =>
      ⟨r, visits_of_mem_references hr, List.mem_singleton.1 hx⟩
    cases hi : o.inlineRefs with
    | false =>
      rw [reference_kept hi] at hx
      exact hkept hx
    | true =>
      by_cases hs : Reference.target r ∈ stack
      · rw [reference_cut hi hs] at hx
        exact hkept hx
      · cases hc : Reference.resolve? r c with
        | none =>
          rw [reference_missing hi hs hc] at hx
          cases hx
        | some t =>
          rw [reference_expanded hi hs hc] at hx
          obtain ⟨r', ⟨u, hu, hur⟩, hx⟩ := ih _ (Catalog.mem_names_of_resolve? hc) hs t x hx
          exact ⟨r', ⟨u, meets_of_mem_references hi hr hc hu, hur⟩, hx⟩

/-- An event of typing a schema is about a reference that typing comes to: its
target is being expanded, or it is not in the catalog. -/
theorem origin_of_events (stack : List String) :
    ∀ s e, e ∈ (term c o stack (some s)).events →
      ∃ r, Visits c o s r ∧ (e = .cycle r ∨
        c.contains (Reference.target r) = false ∧ (e = .unknown r ∨ e = .unknownExpanded r)) := by
  induction stack using c.stack_induction with
  | step stack ih =>
    intro s e he
    rw [term, Schema.events_termWith] at he
    obtain ⟨r, hr, he⟩ := List.mem_flatMap.1 he
    have hv : Visits c o s r := visits_of_mem_references hr
    cases hi : o.inlineRefs with
    | false =>
      rw [reference_kept hi] at he
      cases hc : c.contains (Reference.target r) with
      | true => rw [hc] at he; cases he
      | false =>
        rw [hc] at he
        exact ⟨r, hv, .inr ⟨hc, .inl (List.mem_singleton.1 he)⟩⟩
    | true =>
      by_cases hs : Reference.target r ∈ stack
      · rw [reference_cut hi hs] at he
        exact ⟨r, hv, .inl (List.mem_singleton.1 he)⟩
      · cases hc : Reference.resolve? r c with
        | none =>
          rw [reference_missing hi hs hc] at he
          have hmissing : c.contains (Reference.target r) = false := congrArg Option.isSome hc
          exact ⟨r, hv, .inr ⟨hmissing, .inr (List.mem_singleton.1 he)⟩⟩
        | some t =>
          rw [reference_expanded hi hs hc] at he
          obtain ⟨r', ⟨u, hu, hur⟩, he⟩ := ih _ (Catalog.mem_names_of_resolve? hc) hs t e he
          exact ⟨r', ⟨u, meets_of_mem_references hi hr hc hu, hur⟩, he⟩

/-- A reference is typed as the schema that is only this reference. -/
theorem term_ofReference (c : Catalog) (o : Settings) (stack : List String) (r : String) :
    term c o stack (some (.ofReference r)) = reference c o stack r :=
  Schema.termWith_of_reference rfl

end Typing

namespace Catalog

/-- Every reference that stands anywhere in a schema of the catalog has its
target in the catalog. -/
def Closed (c : Catalog) : Prop :=
  ∀ e ∈ c.entries, ∀ r, e.2.Mentions r → c.contains (Reference.target r) = true

variable {c : Catalog} {o : Settings} {n : String} {s : Schema}

theorem mem_entries_of_find? (h : c.find? n = some s) : (n, s) ∈ c.entries :=
  Entries.mem_of_find? h

/-- A name of the catalog is declared by one entry only. -/
theorem existsUnique_declaredName (h : c.contains n = true) :
    ∃! e, e ∈ c.entries ∧ o.declaredName n = o.declaredName e.1 := by
  obtain ⟨s, hs⟩ := Option.isSome_iff_exists.1 h
  refine ⟨(n, s), ⟨mem_entries_of_find? hs, rfl⟩, ?_⟩
  rintro ⟨n', s'⟩ ⟨hmem, heq⟩
  obtain rfl : n = n' := String.append_right_inj o.namePrefix |>.1 heq
  have := (Entries.find?_eq_some_iff c.nodup).2 hmem
  rw [show Entries.find? n c.entries = some s from hs] at this
  cases this
  rfl

/-- In a closed catalog, what a reference with its target in the catalog leads
to has its target there as well. -/
theorem Closed.contains_of_visits (hc : c.Closed) {r r' : String}
    (hr : c.contains (Reference.target r) = true)
    (h : Typing.Visits c o (.ofReference r) r') : c.contains (Reference.target r') = true := by
  refine Typing.contains_of_visits (fun r'' hr'' => ?_) (fun n t ht r'' hr'' => ?_) h
  · rw [Schema.references_of_reference rfl] at hr''
    exact List.mem_singleton.1 hr'' ▸ hr
  · exact hc _ (mem_entries_of_find? ht) r'' (Schema.mentions_of_mem_references hr'')

/-- **A closed catalog is declared closed.** Every name that stands anywhere
in the declaration of an entry is declared by exactly one entry, and writing
the declaration gives no warning. -/
theorem declare_closed (hc : c.Closed) (o : Settings) {e : String × Schema}
    (he : e ∈ c.entries) :
    (∀ t ∈ (c.declare o e.1 e.2).value.types, ∀ position x,
      t.subterm? position = some (.named x) →
        ∃! e', e' ∈ c.entries ∧ x = o.declaredName e'.1) ∧
      ∀ event ∈ (c.emit o e.1 e.2).events, event.level ≠ .warn := by
  have hlookup : ∀ r ∈ e.2.lookups o, c.contains (Reference.target r) = true := fun r hr =>
    hc e he r (Schema.mentions_of_mem_lookups hr)
  constructor
  · intro t ht position x hx
    rw [declare_eq_declareWith] at ht
    rcases Schema.mem_names_declareWith ht (TypeTerm.mem_names_iff.2 ⟨position, hx⟩) with
      ⟨r, hr, rfl⟩ | ⟨r, hr, hx⟩
    · exact existsUnique_declaredName (hc e he r hr)
    · rw [← Typing.term_ofReference] at hx
      obtain ⟨r', hr', rfl⟩ := Typing.origin_of_names [e.1] _ x hx
      exact existsUnique_declaredName (hc.contains_of_visits (hlookup r hr) hr')
  · intro event hevent
    rw [emit, declare_eq_declareWith] at hevent
    rcases List.mem_append.1 hevent with hevent | hevent
    · obtain ⟨met, hmet, rfl⟩ := List.mem_map.1 hevent
      rw [Schema.events_declareWith] at hmet
      obtain ⟨r, hr, hmet⟩ := List.mem_flatMap.1 hmet
      rw [← Typing.term_ofReference] at hmet
      obtain ⟨r', hr', rfl | ⟨hmissing, -⟩⟩ := Typing.origin_of_events [e.1] _ met hmet
      · exact Log.Level.noConfusion
      · rw [hc.contains_of_visits (hlookup r hr) hr'] at hmissing
        cases hmissing
    · rw [List.mem_singleton.1 hevent]
      exact Log.Level.noConfusion

/-- Inside of the declaration of `A` the ring is cut at the reference back to
`A`. -/
theorem declare_ring :
    ring.declare { inlineRefs := true } "A" (.link "b" "#/components/schemas/B") =
      ⟨.interface "IA" [⟨"b", true, .object [⟨"a", true, .named "IA"⟩]⟩],
        [.cycle "#/components/schemas/A"]⟩ := by
  have hfields : (Typing.fields ring { inlineRefs := true } ["A"]
      (.link "b" "#/components/schemas/B")).map TypeTerm.object =
        ⟨.object [⟨"b", true, .object [⟨"a", true, .named "IA"⟩]⟩],
          [.cycle "#/components/schemas/A"]⟩ := Typing.term_ring
  change (Typing.fields ring { inlineRefs := true } ["A"]
    (.link "b" "#/components/schemas/B")).map (Declaration.interface "IA") = _
  cases hf : Typing.fields ring { inlineRefs := true } ["A"] (.link "b" "#/components/schemas/B")
  rw [hf] at hfields
  cases hfields
  rfl

theorem ring_closed : ring.Closed := by
  intro e he r hr
  have he : e = ("A", .link "b" "#/components/schemas/B") ∨
      e = ("B", .link "a" "#/components/schemas/A") := List.mem_pair.1 he
  rcases he with rfl | rfl
  · rw [Schema.eq_of_mentions_link hr]
    decide
  · rw [Schema.eq_of_mentions_link hr]
    decide

/-- The ring is closed, and the name that is left in the declaration of `A` is
that of one entry. -/
theorem declare_ring_closed :
    ring.Closed ∧ ("A", .link "b" "#/components/schemas/B") ∈ ring.entries ∧
      .object [⟨"a", true, .named "IA"⟩] ∈ (ring.declare { inlineRefs := true } "A"
        (.link "b" "#/components/schemas/B")).value.types ∧
      ∃! e, e ∈ ring.entries ∧ "IA" = Settings.declaredName { inlineRefs := true } e.1 := by
  have hmem : ("A", Schema.link "b" "#/components/schemas/B") ∈ ring.entries := .head _
  have htypes : TypeTerm.object [⟨"a", true, .named "IA"⟩] ∈ (ring.declare { inlineRefs := true }
      "A" (.link "b" "#/components/schemas/B")).value.types := by
    rw [declare_ring]
    exact .head _
  exact ⟨ring_closed, hmem, htypes,
    (declare_closed ring_closed { inlineRefs := true } hmem).1 _ htypes [0] "IA" rfl⟩

end Catalog
end SchemaTypes
