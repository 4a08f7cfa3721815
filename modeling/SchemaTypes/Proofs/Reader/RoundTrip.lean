/-
# The text of a type tells the type

If every union and every intersection has at least two members, parentheses
stand wherever they are needed: an array item of several members has them, and
so has an operand of `&` that is a union. The reader then gives back the type
itself, with unions right inside of unions and intersections right inside of
intersections merged, and the members, the fields, the keys and the flags in
the order in which they were written.

What the reader makes of a type in place of an operand is told by the operator
that may stand outside of its brackets. Without one the type is the operand.
With `&` its factors go behind those in front of it; with `|` its alternatives
do, if nothing but `|` stands there. The induction is on the type, with all
three said of every child.

Key definitions: `TypeTerm.HasSeveralMembers`, `TypeTerm.IsMerged`.
Key theorems: `TypeTerm.readBack_eq_merge`, `TypeTerm.merge_eq_self`,
`TypeTerm.read_text_eq_merge`.
-/
import SchemaTypes.Proofs.Reader.Text

namespace SchemaTypes.TypeTerm

open Reader (Alphabet IsName Level Operand)

/-- Every union and every intersection in the type has at least two members. -/
def HasSeveralMembers (t : TypeTerm) : Prop :=
  ∀ position u, t.subterm? position = some u →
    ∀ ms, u = .union ms ∨ u = .intersection ms → 1 < ms.length

/-- Nowhere in the type is anything left to merge. -/
def IsMerged (t : TypeTerm) : Prop :=
  ∀ position u, t.subterm? position = some u → Merged u

variable {t u : TypeTerm} {ms : List TypeTerm}

theorem hasSeveralMembers_iff :
    t.HasSeveralMembers ↔ (∀ ms, t = .union ms ∨ t = .intersection ms → 1 < ms.length) ∧
      ∀ u ∈ t.children, u.HasSeveralMembers :=
  forall_subterm?_iff

/-! ### Several members stay several -/

theorem length_le_flatMap {f : TypeTerm → List TypeTerm} (h : ∀ m ∈ ms, f m ≠ []) :
    ms.length ≤ (ms.flatMap f).length := by
  induction ms with
  | nil => exact Nat.le_refl 0
  | cons m ms ih =>
    rw [List.forall_mem_cons] at h
    have hm := List.length_pos_iff.2 h.1
    have hms := ih h.2
    rw [List.flatMap_cons, List.length_append, List.length_cons]
    omega

theorem ne_nil_of_several {α : Type} {l : List α} (h : 1 < l.length) : l ≠ [] :=
  List.ne_nil_of_length_pos (Nat.zero_lt_of_lt h)

/-- A union of several types stays a union when it is merged. -/
theorem merge_union_of_several (hlen : 1 < ms.length) (h : ∀ m ∈ ms, m.mergedAlternatives ≠ []) :
    (union ms).merge = .union (ms.flatMap mergedAlternatives) := by
  have := length_le_flatMap h
  rw [merge_union, unionOf_of_length_ne_one (by omega)]

theorem merge_intersection_of_several (hlen : 1 < ms.length) (h : ∀ m ∈ ms, m.mergedFactors ≠ []) :
    (intersection ms).merge = .intersection (ms.flatMap mergedFactors) := by
  have := length_le_flatMap h
  rw [merge_intersection, intersectionOf_of_length_ne_one (by omega)]

/-- What is merged is the union of something and the intersection of
something. -/
theorem merged_ne_nil (t : TypeTerm) (h : t.HasSeveralMembers) :
    t.mergedAlternatives ≠ [] ∧ t.mergedFactors ≠ [] := by
  induction t using child_induction with
  | step t ih =>
    obtain ⟨htop, hchildren⟩ := hasSeveralMembers_iff.1 h
    have ih : ∀ u ∈ t.children, u.mergedAlternatives ≠ [] ∧ u.mergedFactors ≠ [] :=
      fun u hu => ih u hu (hchildren u hu)
    cases t with
    | union ms =>
      have hlen := htop ms (.inl rfl)
      have hle := length_le_flatMap fun m hm => (ih m hm).1
      have hmerge := merge_union_of_several hlen fun m hm => (ih m hm).1
      constructor
      · rw [mergedAlternatives_union]
        exact ne_nil_of_several (Nat.lt_of_lt_of_le hlen hle)
      · rw [mergedFactors, hmerge]
        exact List.cons_ne_nil _ _
    | intersection ms =>
      have hlen := htop ms (.inr rfl)
      have hle := length_le_flatMap fun m hm => (ih m hm).2
      have hmerge := merge_intersection_of_several hlen fun m hm => (ih m hm).2
      constructor
      · rw [mergedAlternatives, hmerge]
        exact List.cons_ne_nil _ _
      · rw [mergedFactors_intersection]
        exact ne_nil_of_several (Nat.lt_of_lt_of_le hlen hle)
    | _ => exact ⟨List.cons_ne_nil _ _, List.cons_ne_nil _ _⟩

/-! ### What the reader makes of a type -/

/-- In place of an operand the reader takes for the merged type what has no
operator outside of its brackets, and for its factors or alternatives what has
one. -/
structure ReadsMerged (t : TypeTerm) : Prop where
  whole : t.isCompound = false → ∀ l, t.readBehind l = ⟨l, t.merge⟩
  factors : t.isProperUnion = false → ∀ l,
    (t.readBehind l).amp = ⟨l.alternatives, l.factors ++ t.mergedFactors⟩
  alternatives : ∀ l, l.factors = [] →
    (t.readBehind l).bar = ⟨l.alternatives ++ t.mergedAlternatives, []⟩

/-- With nothing but `|` in front of an operand, the factors that `&` would go
on with are one alternative for `|`. -/
theorem bar_of_amp {x : Operand} {l : Level} {fs : List TypeTerm} (hl : l.factors = [])
    (h : x.amp = ⟨l.alternatives, l.factors ++ fs⟩) :
    x.bar = ⟨l.alternatives ++ [intersectionOf fs], []⟩ := by
  rw [Operand.amp, Level.mk.injEq, hl, List.nil_append] at h
  rw [Operand.bar, h.1, h.2]

theorem readsMerged_of_whole (hfactors : t.mergedFactors = [t.merge])
    (halternatives : t.mergedAlternatives = [t.merge])
    (h : ∀ l, t.readBehind l = ⟨l, t.merge⟩) : ReadsMerged t where
  whole _ := h
  factors _ l := by
    rw [h, hfactors]
    rfl
  alternatives l hl := by
    rw [h, halternatives, Operand.bar, hl]
    rfl

theorem ReadsMerged.close (h : ReadsMerged t) : (t.readBehind {}).close = t.merge := by
  rw [Operand.close, h.alternatives {} rfl, List.nil_append, ← merge_eq_unionOf]

/-- An item has parentheses if it has an operator outside of brackets. -/
theorem ReadsMerged.item (h : ReadsMerged t) (l : Level) :
    (Reader.grouped t.isCompound t.readBehind l).item = ⟨l, .array t.merge⟩ := by
  rw [Reader.grouped]
  by_cases hc : t.isCompound = true
  · rw [if_pos hc, h.close]
    rfl
  · rw [if_neg hc, h.whole (Bool.not_eq_true _ ▸ hc)]
    rfl

theorem isProperUnion_eq_true (h : t.isProperUnion = true) : ∃ ms, t = .union ms := by
  cases t with
  | union ms => exact ⟨ms, rfl⟩
  | _ => cases h

/-- An operand of `&` has parentheses if it has a `|` outside of brackets. -/
theorem ReadsMerged.operand (h : ReadsMerged t) (hseveral : t.HasSeveralMembers) (l : Level) :
    (Reader.grouped t.isProperUnion t.readBehind l).amp =
      ⟨l.alternatives, l.factors ++ t.mergedFactors⟩ := by
  rw [Reader.grouped]
  by_cases hu : t.isProperUnion = true
  · obtain ⟨ms, rfl⟩ := isProperUnion_eq_true hu
    obtain ⟨htop, hchildren⟩ := hasSeveralMembers_iff.1 hseveral
    have hmerge := merge_union_of_several (htop ms (.inl rfl))
      fun m hm => (merged_ne_nil m (hchildren m hm)).1
    have hfactors : (union ms).mergedFactors = [(union ms).merge] := by
      rw [mergedFactors, hmerge]
      rfl
    rw [if_pos hu, h.close, hfactors]
    rfl
  · rw [if_neg hu, h.factors (Bool.not_eq_true _ ▸ hu)]

theorem bar_readUnion (hne : ms ≠ []) (h : ∀ m ∈ ms, ReadsMerged m) :
    ∀ l : Level, l.factors = [] →
      (readUnion ms l).bar = ⟨l.alternatives ++ ms.flatMap mergedAlternatives, []⟩ := by
  induction ms with
  | nil => exact absurd rfl hne
  | cons m ms ih =>
    intro l hl
    rw [List.forall_mem_cons] at h
    have hm := h.1.alternatives l hl
    by_cases hms : ms = []
    · rw [hms, readUnion, hm, List.flatMap_singleton]
    · rw [readUnion_cons hms, hm, ih hms h.2 _ rfl, List.flatMap_cons, List.append_assoc]

theorem amp_readIntersection (hne : ms ≠ []) (h : ∀ m ∈ ms, ReadsMerged m)
    (hseveral : ∀ m ∈ ms, m.HasSeveralMembers) :
    ∀ l : Level, (readIntersection ms l).amp =
      ⟨l.alternatives, l.factors ++ ms.flatMap mergedFactors⟩ := by
  induction ms with
  | nil => exact absurd rfl hne
  | cons m ms ih =>
    intro l
    rw [List.forall_mem_cons] at h hseveral
    have hm := h.1.operand hseveral.1 l
    by_cases hms : ms = []
    · rw [hms, readIntersection, hm, List.flatMap_singleton]
    · rw [readIntersection_cons hms, hm, ih hms h.2 hseveral.2, List.flatMap_cons,
        List.append_assoc]

theorem readsMerged_union (hlen : 1 < ms.length) (h : ∀ m ∈ ms, ReadsMerged m) :
    ReadsMerged (.union ms) where
  whole hc := by
    rw [isCompound, decide_eq_false_iff_not] at hc
    exact absurd hlen hc
  factors hu := by
    rw [isProperUnion, decide_eq_false_iff_not] at hu
    exact absurd hlen hu
  alternatives l hl := by
    rw [mergedAlternatives_union]
    exact bar_readUnion (ne_nil_of_several hlen) h l hl

theorem readsMerged_intersection (hlen : 1 < ms.length) (h : ∀ m ∈ ms, ReadsMerged m)
    (hseveral : ∀ m ∈ ms, m.HasSeveralMembers) : ReadsMerged (.intersection ms) := by
  have hamp : ∀ l, (readBehind (.intersection ms) l).amp =
      ⟨l.alternatives, l.factors ++ (intersection ms).mergedFactors⟩ := by
    intro l
    rw [mergedFactors_intersection]
    exact amp_readIntersection (ne_nil_of_several hlen) h hseveral l
  have hmerge := merge_intersection_of_several hlen
    fun m hm => (merged_ne_nil m (hseveral m hm)).2
  refine ⟨fun hc => ?_, fun _ => hamp, fun l hl => ?_⟩
  · rw [isCompound, decide_eq_false_iff_not] at hc
    exact absurd hlen hc
  · rw [bar_of_amp hl (hamp l), ← merge_eq_intersectionOf, mergedAlternatives, hmerge]
    rfl

theorem readsMerged (t : TypeTerm) (h : t.HasSeveralMembers) : ReadsMerged t := by
  induction t using child_induction with
  | step t ih =>
    obtain ⟨htop, hchildren⟩ := hasSeveralMembers_iff.1 h
    have ih : ∀ u ∈ t.children, ReadsMerged u := fun u hu => ih u hu (hchildren u hu)
    cases t with
    -- Arrays and objects have no operator outside of brackets.
    | array t =>
      refine readsMerged_of_whole rfl rfl fun l => ?_
      exact (ih t (List.mem_singleton_self t)).item l
    | object fs =>
      have hfields : readFields fs = mergeFields fs := by
        rw [readFields_eq, mergeFields_eq]
        refine List.map_congr_left fun f hf => ?_
        rw [readBack, (ih f.type (List.mem_map_of_mem hf)).close]
      refine readsMerged_of_whole rfl rfl fun l => ?_
      rw [readBehind, hfields, merge]
    | union ms => exact readsMerged_union (htop ms (.inl rfl)) ih
    | intersection ms => exact readsMerged_intersection (htop ms (.inr rfl)) ih hchildren
    | _ => exact readsMerged_of_whole rfl rfl fun l => rfl

/-- A type of unions and intersections of several members is read back as it
is, merged. -/
theorem readBack_eq_merge (h : t.HasSeveralMembers) : t.readBack = t.merge :=
  (readsMerged t h).close

/-! ### Merged types -/

theorem isMerged_iff : t.IsMerged ↔ Merged t ∧ ∀ u ∈ t.children, u.IsMerged :=
  forall_subterm?_iff

theorem isMerged_of_leaf (hchildren : t.children = []) (htop : Merged t) : t.IsMerged := by
  refine isMerged_iff.2 ⟨htop, fun u hu => ?_⟩
  rw [hchildren] at hu
  exact absurd hu List.not_mem_nil

theorem IsMerged.mem_alternatives (h : t.IsMerged) (hu : u ∈ t.alternatives) : u.IsMerged := by
  cases t with
  | union ms => exact (isMerged_iff.1 h).2 u hu
  | _ => exact List.mem_singleton.1 hu ▸ h

theorem IsMerged.mem_factors (h : t.IsMerged) (hu : u ∈ t.factors) : u.IsMerged := by
  cases t with
  | intersection ms => exact (isMerged_iff.1 h).2 u hu
  | _ => exact List.mem_singleton.1 hu ▸ h

theorem isMerged_unionOf {ts : List TypeTerm} (h : ∀ t ∈ ts, t.IsMerged ∧ t.alternatives = [t]) :
    (unionOf ts).IsMerged := by
  have htop : Merged (unionOf ts) :=
    merged_unionOf fun t ht => ⟨(isMerged_iff.1 (h t ht).1).1, (h t ht).2⟩
  by_cases hlen : ts.length = 1
  · obtain ⟨t, rfl⟩ := List.length_eq_one_iff.1 hlen
    exact (h t (List.mem_singleton_self t)).1
  · rw [unionOf_of_length_ne_one hlen] at htop ⊢
    exact isMerged_iff.2 ⟨htop, fun t ht => (h t ht).1⟩

theorem isMerged_intersectionOf {ts : List TypeTerm}
    (h : ∀ t ∈ ts, t.IsMerged ∧ t.factors = [t]) : (intersectionOf ts).IsMerged := by
  have htop : Merged (intersectionOf ts) :=
    merged_intersectionOf fun t ht => ⟨(isMerged_iff.1 (h t ht).1).1, (h t ht).2⟩
  by_cases hlen : ts.length = 1
  · obtain ⟨t, rfl⟩ := List.length_eq_one_iff.1 hlen
    exact (h t (List.mem_singleton_self t)).1
  · rw [intersectionOf_of_length_ne_one hlen] at htop ⊢
    exact isMerged_iff.2 ⟨htop, fun t ht => (h t ht).1⟩

/-- Merging leaves nothing to merge. -/
theorem isMerged_merge (t : TypeTerm) : t.merge.IsMerged := by
  induction t using child_induction with
  | step t ih =>
    cases t with
    | array t =>
      refine isMerged_iff.2 ⟨.other rfl rfl, fun u hu => ?_⟩
      rw [List.mem_singleton.1 hu]
      exact ih t (List.mem_singleton_self t)
    | object fs =>
      refine isMerged_iff.2 ⟨.other rfl rfl, fun u hu => ?_⟩
      rw [merge, mergeFields_eq, children, List.map_map] at hu
      obtain ⟨f, hf, rfl⟩ := List.mem_map.1 hu
      exact ih f.type (List.mem_map_of_mem hf)
    | union ms =>
      rw [merge_union]
      refine isMerged_unionOf fun u hu => ?_
      obtain ⟨m, hm, hu⟩ := List.mem_flatMap.1 hu
      exact ⟨(ih m hm).mem_alternatives hu, ((merged_merge m).mem_alternatives hu).2⟩
    | intersection ms =>
      rw [merge_intersection]
      refine isMerged_intersectionOf fun u hu => ?_
      obtain ⟨m, hm, hu⟩ := List.mem_flatMap.1 hu
      exact ⟨(ih m hm).mem_factors hu, ((merged_merge m).mem_factors hu).2⟩
    | _ => exact isMerged_of_leaf rfl (.other rfl rfl)

theorem not_mem_children_self (t : TypeTerm) : t ∉ t.children :=
  fun h => Nat.lt_irrefl _ (sizeOf_lt_of_mem_children h)

/-- A type in which nothing is left to merge is merged as it is. -/
theorem merge_eq_self (t : TypeTerm) (h : t.IsMerged) : t.merge = t := by
  induction t using child_induction with
  | step t ih =>
    obtain ⟨htop, hchildren⟩ := isMerged_iff.1 h
    have ih : ∀ u ∈ t.children, u.merge = u := fun u hu => ih u hu (hchildren u hu)
    cases t with
    | array t => rw [merge, ih t (List.mem_singleton_self t)]
    | object fs =>
      have hfields : mergeFields fs = fs.map id := by
        rw [mergeFields_eq]
        refine List.map_congr_left fun f hf => ?_
        rw [ih f.type (List.mem_map_of_mem hf)]
        rfl
      rw [merge, hfields, List.map_id]
    | union ms =>
      cases htop with
      | union hlen _ hflat =>
        have hms : ms.flatMap mergedAlternatives = ms.flatMap fun m => [m] :=
          List.flatMap_congr fun m hm => by rw [mergedAlternatives, ih m hm, hflat m hm]
        rw [merge_union, hms, List.flatMap_singleton', unionOf_of_length_ne_one hlen]
      | other hu _ =>
        -- A union is no member of itself.
        have hself : union ms ∈ (union ms).alternatives := hu ▸ List.mem_singleton_self _
        exact absurd hself (not_mem_children_self (.union ms))
    | intersection ms =>
      cases htop with
      | intersection hlen _ hflat =>
        have hms : ms.flatMap mergedFactors = ms.flatMap fun m => [m] :=
          List.flatMap_congr fun m hm => by rw [mergedFactors, ih m hm, hflat m hm]
        rw [merge_intersection, hms, List.flatMap_singleton', intersectionOf_of_length_ne_one hlen]
      | other _ hi =>
        have hself : intersection ms ∈ (intersection ms).factors := hi ▸ List.mem_singleton_self _
        exact absurd hself (not_mem_children_self (.intersection ms))
    | _ => rfl

/-- **The text of a type tells the type.** If the type can be written and its
unions and intersections have several members, its text is read to the end, at
every depth of nesting, and what is read is the type merged, in which nothing
is left to merge. So types with the same text merge to the same type, and are
the same if they are merged. -/
theorem read_text_eq_merge {a : Alphabet} {t : TypeTerm} (hw : Writable a t)
    (hs : t.HasSeveralMembers) :
    (∀ depth, Reader.read a (t.text depth) = some t.merge) ∧ t.merge.IsMerged ∧
      ∀ u, Writable a u → u.HasSeveralMembers → ∀ depth depth', t.text depth = u.text depth' →
        t.merge = u.merge ∧ (t.IsMerged → u.IsMerged → t = u) := by
  have hread : ∀ {u}, Writable a u → u.HasSeveralMembers → ∀ depth,
      Reader.read a (u.text depth) = some u.merge := by
    intro u hw hs depth
    rw [read_text hw depth, readBack_eq_merge hs]
  refine ⟨hread hw hs, isMerged_merge t, fun u hwu hsu depth depth' htext => ?_⟩
  have hmerge : t.merge = u.merge := by
    have h := hread hw hs depth
    rw [htext, hread hwu hsu depth', Option.some.injEq] at h
    exact h.symm
  refine ⟨hmerge, fun ht hu => ?_⟩
  rw [← merge_eq_self t ht, hmerge, merge_eq_self u hu]

/-- An object type with a key between quotes, which holds an array of a union
in a union. -/
def quotedKeyed : TypeTerm :=
  .object [⟨Identifier.propertyKey "a-b", true,
    .array (.union [.union [.string, .named "IA"], .literal (Json.string "x|y").compact])⟩]

/-- The array keeps its parentheses, and the unions become one. -/
theorem read_text_quotedKeyed :
    Writable .ascii quotedKeyed ∧ quotedKeyed.HasSeveralMembers ∧
      quotedKeyed.text 0 = "\x7b\n  \"a-b\"?: (string | IA | \"x|y\")[];\n\x7d" ∧
      Reader.read .ascii (quotedKeyed.text 0) =
        some (.object [⟨"\"a-b\"", true,
          .array (.union [.string, .named "IA", .literal "\"x|y\""])⟩]) := by
  have hw : Writable .ascii quotedKeyed := by
    refine .object (fun f hf => ?_) fun f hf => ?_
    · rw [List.mem_singleton.1 hf]
      exact ⟨"a-b", rfl⟩
    · rw [List.mem_singleton.1 hf]
      refine .array (.union (List.cons_ne_nil _ _) fun m hm => ?_)
      obtain rfl | rfl := List.mem_pair.1 hm
      · refine .union (List.cons_ne_nil _ _) fun m hm => ?_
        obtain rfl | rfl := List.mem_pair.1 hm
        · exact .string
        · exact .named ⟨rfl, by decide⟩
      · exact .literal rfl
  have hleaf : ∀ t : TypeTerm, t.children = [] → (∀ ms, ¬ (t = .union ms ∨ t = .intersection ms)) →
      t.HasSeveralMembers := fun t hchildren ht =>
    hasSeveralMembers_iff.2 ⟨fun ms h => absurd h (ht ms), by rw [hchildren]; nofun⟩
  have hunion : ∀ ms : List TypeTerm, 1 < ms.length → (∀ m ∈ ms, m.HasSeveralMembers) →
      (union ms).HasSeveralMembers := by
    intro ms hlen h
    refine hasSeveralMembers_iff.2 ⟨fun ns hns => ?_, h⟩
    rcases hns with hns | hns
    · exact union.inj hns ▸ hlen
    · cases hns
  have hs : quotedKeyed.HasSeveralMembers := by
    refine hasSeveralMembers_iff.2 ⟨nofun, fun u hu => ?_⟩
    obtain rfl := List.mem_singleton.1 hu
    refine hasSeveralMembers_iff.2 ⟨nofun, fun u hu => ?_⟩
    obtain rfl := List.mem_singleton.1 hu
    refine hunion _ (by decide) fun m hm => ?_
    obtain rfl | rfl := List.mem_pair.1 hm
    · refine hunion _ (by decide) fun m hm => ?_
      obtain rfl | rfl := List.mem_pair.1 hm
      · exact hleaf _ rfl nofun
      · exact hleaf _ rfl nofun
    · exact hleaf _ rfl nofun
  exact ⟨hw, hs, by cbv, ((read_text_eq_merge hw hs).1 0).trans (by cbv)⟩

end SchemaTypes.TypeTerm
