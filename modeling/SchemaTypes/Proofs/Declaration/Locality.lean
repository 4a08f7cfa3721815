/-
# A declaration depends only on what it reaches

Typing a schema asks the catalog and the stack for names: the targets of the
references it meets and, where references are expanded, what the schemas of
these targets ask for. A target that is on the stack to begin with is asked
for and not gone into. If two catalogs and two stacks give the same answers
to all that is asked, the type and the events are the same. The stacks of the
two runs grow by the same names, so they go on agreeing where they agreed at
first; the induction is on the names pushed so far
(`Typing.term_congr_of_pushed`).

The declaration of an entry asks the catalog for the targets of the references
it looks up and for what typing these asks for in turn (`DependsOn`). So a
catalog that answers all of this in the same way gives the same declaration,
text and events: the order of the entries does not matter, and neither does
an entry that is not asked for. Where references are kept by name the text
asks for nothing at all.

Key definitions: `Typing.Asks`, `Catalog.DependsOn`.
Key theorems: `Typing.term_congr`, `Typing.exists_visits_of_asks`,
`Catalog.emit_congr`, `Catalog.emit_local`.
-/
import SchemaTypes.Proofs.Declaration.Closed

namespace SchemaTypes.Typing

/-- Typing the schema inside of the expansion of the names on the stack asks
for the name. -/
inductive Asks (c : Catalog) (o : Settings) (stack : List String) : Schema → String → Prop
  | here {s : Schema} {r : String} (h : r ∈ s.references) : Asks c o stack s (Reference.target r)
  | through {s t : Schema} {r n : String} (hi : o.inlineRefs = true) (h : r ∈ s.references)
      (hs : Reference.target r ∉ stack) (ht : Reference.resolve? r c = some t)
      (hn : Asks c o stack t n) : Asks c o stack s n

variable {c c' : Catalog} {o : Settings} {stack stack' : List String}

/-- What typing asks for is the target of a reference that it comes to. -/
theorem exists_visits_of_asks {s : Schema} {n : String} (h : Asks c o stack s n) :
    ∃ r, Visits c o s r ∧ n = Reference.target r := by
  induction h with
  | here h => exact ⟨_, visits_of_mem_references h, rfl⟩
  | through hi h _ ht _ ih =>
    obtain ⟨r, ⟨u, hu, hr⟩, hn⟩ := ih
    exact ⟨r, ⟨u, meets_of_mem_references hi h ht hu, hr⟩, hn⟩

/-- Two runs that agree on what is asked for agree, however many names both
have pushed. -/
theorem term_congr_of_pushed (grown : List String) :
    ∀ pushed, grown = stack ++ pushed → ∀ s,
      (∀ n, Asks c o stack s n → c.find? n = c'.find? n ∧ (n ∈ stack ↔ n ∈ stack')) →
        term c o (stack ++ pushed) (some s) = term c' o (stack' ++ pushed) (some s) := by
  induction grown using c.stack_induction with
  | step grown ih =>
    rintro pushed rfl s h
    refine Schema.termWith_congr fun r hr => ?_
    obtain ⟨hfind, hstack⟩ := h _ (.here hr)
    have hgrown : Reference.target r ∈ stack ++ pushed ↔ Reference.target r ∈ stack' ++ pushed := by
      rw [List.mem_append, List.mem_append, hstack]
    cases hi : o.inlineRefs with
    | false =>
      rw [reference_kept hi, reference_kept hi, Catalog.contains, Catalog.contains, hfind]
    | true =>
      by_cases hs : Reference.target r ∈ stack ++ pushed
      · rw [reference_cut hi hs, reference_cut hi (hgrown.1 hs)]
      · have hs' : Reference.target r ∉ stack' ++ pushed := fun hs' => hs (hgrown.2 hs')
        have hresolve : Reference.resolve? r c' = Reference.resolve? r c := hfind.symm
        cases hc : Reference.resolve? r c with
        | none =>
          rw [reference_missing hi hs hc, reference_missing hi hs' (hresolve.trans hc)]
        | some t =>
          rw [reference_expanded hi hs hc, reference_expanded hi hs' (hresolve.trans hc),
            List.append_assoc, List.append_assoc]
          refine ih _ (Catalog.mem_names_of_resolve? hc) hs (pushed ++ [Reference.target r])
            (List.append_assoc _ _ _) t fun n hn => h n (.through hi hr (fun hm => hs ?_) hc hn)
          exact List.mem_append_left _ hm

/-- Two runs that agree on what is asked for agree. -/
theorem term_congr {s : Schema}
    (h : ∀ n, Asks c o stack s n → c.find? n = c'.find? n ∧ (n ∈ stack ↔ n ∈ stack')) :
    term c o stack (some s) = term c' o stack' (some s) := by
  have := term_congr_of_pushed (stack ++ []) [] rfl s h
  rwa [List.append_nil, List.append_nil] at this

end SchemaTypes.Typing

namespace SchemaTypes.Catalog

/-- Declaring the schema under the first name asks for the second name. -/
def DependsOn (c : Catalog) (o : Settings) (n : String) (s : Schema) (m : String) : Prop :=
  ∃ r ∈ s.lookups o, Typing.Asks c o [n] (.ofReference r) m

variable {c c' : Catalog} {o : Settings} {n m : String} {s : Schema}

/-- The order of the entries has no say in what a name stands for. -/
theorem find?_eq_of_perm (h : c.entries.Perm c'.entries) (n : String) : c.find? n = c'.find? n :=
  Entries.find?_eq_of_perm c.nodup h

theorem find?_insert_of_ne (c : Catalog) (s : Schema) (h : n ≠ m) :
    (c.insert m s).find? n = c.find? n :=
  Entries.find?_put_of_ne h

/-- Catalogs that agree on what a declaration depends on write it in the same
way. -/
theorem emit_congr (h : ∀ m, c.DependsOn o n s m → c.find? m = c'.find? m) :
    c.emit o n s = c'.emit o n s := by
  have hrefer : ∀ r ∈ s.lookups o, Typing.reference c o [n] r = Typing.reference c' o [n] r := by
    intro r hr
    rw [← Typing.term_ofReference, ← Typing.term_ofReference]
    exact Typing.term_congr fun m hm => ⟨h m ⟨r, hr, hm⟩, Iff.rfl⟩
  have hdeclare : c.declare o n s = c'.declare o n s := by
    rw [declare_eq_declareWith, declare_eq_declareWith]
    exact Schema.declareWith_congr hrefer
  rw [emit, emit, hdeclare]

/-- Where references are kept by name, the catalog has no say in a
declaration. -/
theorem value_declare_of_kept (hi : o.inlineRefs = false) :
    (c.declare o n s).value = (c'.declare o n s).value := by
  rw [declare_eq_declareWith, declare_eq_declareWith]
  refine Schema.value_declareWith_congr fun r _ => ?_
  rw [Typing.reference_kept hi, Typing.reference_kept hi]

/-- An entry that does not depend on a name is written as before if only the
schema of that name has changed. -/
theorem emit_of_same (hsame : ∀ k, k ≠ m → c'.find? k = c.find? k) (h : ¬ c.DependsOn o n s m) :
    c'.emit o n s = c.emit o n s := by
  refine (emit_congr fun k hk => ?_).symm
  exact (hsame k fun hkm => h (hkm ▸ hk)).symm

theorem text_emit_of_kept (hi : o.inlineRefs = false) :
    (c.emit o n s).text = (c'.emit o n s).text := by
  rw [emit, emit, value_declare_of_kept hi]

/-- In a module the texts of the entries are joined by blank lines. -/
theorem moduleText_congr {text : String × Schema → String}
    (h : ∀ e ∈ c.entries, (c.emit o e.1 e.2).text = text e) :
    c.moduleText o = "\n\n".intercalate (c.entries.map text) := by
  rw [moduleText, emissions, List.map_map]
  exact congrArg _ (List.map_congr_left h)

/-- **A declaration depends only on what it reaches.** Typing is the same
against two catalogs and on two stacks that agree on all that it asks for. So
in another order the entries are written as before, each in its new place; an
entry that is added, changed or taken out leaves every other one as it was
that does not depend on it; and where references are kept by name, no text
depends on the catalog. In each case the text of the module is made of the
texts so described, with a blank line between two. -/
theorem emit_local (o : Settings) :
    (∀ (c c' : Catalog) (stack stack' : List String) (s : Schema),
      (∀ n, Typing.Asks c o stack s n → c.find? n = c'.find? n ∧ (n ∈ stack ↔ n ∈ stack')) →
        Typing.term c o stack (some s) = Typing.term c' o stack' (some s)) ∧
      (∀ c c' : Catalog, c.entries.Perm c'.entries →
        c'.emissions o = (c'.entries.map fun e => c.emit o e.1 e.2) ∧
          (c.emissions o).Perm (c'.emissions o) ∧
          c'.moduleText o = "\n\n".intercalate (c'.entries.map fun e => (c.emit o e.1 e.2).text)) ∧
      (∀ (c c' : Catalog) (m : String), (∀ k, k ≠ m → c'.find? k = c.find? k) →
        (∀ n s, n ≠ m → c.find? n = some s → ¬ c.DependsOn o n s m →
          c'.find? n = some s ∧ c'.emit o n s = c.emit o n s) ∧
        ∃ texts, c'.moduleText o = "\n\n".intercalate texts ∧
          List.Forall₂ (fun e text => e.1 ≠ m → ¬ c.DependsOn o e.1 e.2 m →
            text = (c.emit o e.1 e.2).text) c'.entries texts) ∧
      (o.inlineRefs = false → ∀ c c' : Catalog,
        (∀ (n : String) (s : Schema), (c.emit o n s).text = (c'.emit o n s).text) ∧
          c.moduleText o = "\n\n".intercalate (c.entries.map fun e => (c'.emit o e.1 e.2).text)) := by
  refine ⟨fun c c' stack stack' s h => Typing.term_congr h, fun c c' h => ?_,
    fun c c' m hsame => ⟨fun n s hn hs hm => ⟨(hsame n hn).trans hs, emit_of_same hsame hm⟩, ?_⟩,
    fun hi c c' => ⟨fun n s => text_emit_of_kept hi, ?_⟩⟩
  · have hsame : ∀ n s, c'.emit o n s = c.emit o n s :=
      fun n s => (emit_congr fun m _ => find?_eq_of_perm h m).symm
    have hemit : c'.emissions o = c'.entries.map fun e => c.emit o e.1 e.2 :=
      List.map_congr_left fun e _ => hsame e.1 e.2
    exact ⟨hemit, hemit ▸ h.map _, moduleText_congr fun e _ => by rw [hsame]⟩
  · refine ⟨c'.entries.map fun e => (c'.emit o e.1 e.2).text, moduleText_congr fun e _ => rfl, ?_⟩
    rw [List.forall₂_map_right_iff, List.forall₂_same]
    exact fun e _ _ hm => by rw [emit_of_same hsame hm]
  · exact moduleText_congr fun e _ => text_emit_of_kept hi

/-- The declaration of `A` in the ring does not depend on `C`, so that it does
not matter whether the ring has such an entry. -/
theorem emit_ring_insert :
    ("A" : String) ≠ "C" ∧ ring.find? "A" = some (.link "b" "#/components/schemas/B") ∧
      ¬ ring.DependsOn { inlineRefs := true } "A" (.link "b" "#/components/schemas/B") "C" ∧
      (ring.insert "C" (.ofKind .string)).emit { inlineRefs := true } "A"
          (.link "b" "#/components/schemas/B") =
        ring.emit { inlineRefs := true } "A" (.link "b" "#/components/schemas/B") := by
  have hne : ("A" : String) ≠ "C" := by decide
  have hfind : ring.find? "A" = some (.link "b" "#/components/schemas/B") := rfl
  have hdepends : ¬ ring.DependsOn { inlineRefs := true } "A"
      (.link "b" "#/components/schemas/B") "C" := by
    rintro ⟨r, hr, hasks⟩
    obtain ⟨r', hr', hC⟩ := Typing.exists_visits_of_asks hasks
    have := ring_closed.contains_of_visits (ring_closed _ (mem_entries_of_find? hfind) r
      (Schema.mentions_of_mem_lookups hr)) hr'
    rw [← hC] at this
    exact absurd this (by decide)
  obtain ⟨-, -, hlocal, -⟩ := emit_local { inlineRefs := true }
  obtain ⟨hothers, -⟩ := hlocal ring (ring.insert "C" (.ofKind .string)) "C"
    fun k hk => find?_insert_of_ne ring _ hk
  exact ⟨hne, hfind, hdepends, (hothers "A" _ hne hfind hdepends).2⟩

end SchemaTypes.Catalog
