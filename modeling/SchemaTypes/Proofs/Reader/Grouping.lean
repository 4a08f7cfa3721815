/-
# What the text of a type is read back as

The parentheses in the text of a type are put by its outermost constructors
alone. `readBehind` is what the reader makes of the text in place of an
operand: where an array item or an operand of `&` stands without parentheses,
only what its text ends with goes to `[]` or `&`. A type is grouped if no
such item has an operator outside of brackets, and no such operand a `|`;
`looseness` tells these operators. A grouped type is read back as it is, up
to merging.

Key definitions: `TypeTerm.readBehind`, `TypeTerm.looseness`,
`TypeTerm.isGrouped`.
Key theorems: `TypeTerm.merge_readBack_of_isGrouped`.
-/
import SchemaTypes.Proofs.Reader.Parser

namespace SchemaTypes

open Reader (Level Operand)

/-- An operand in parentheses if it needs them. -/
def Reader.grouped (needed : Bool) (f : Level → Operand) (l : Level) : Operand :=
  if needed then ⟨l, (f {}).close⟩ else f l

namespace TypeTerm

mutual

/-- What the text of a type is read as in place of an operand. -/
def readBehind : TypeTerm → Level → Operand
  | .array t, l => (Reader.grouped t.isCompound (readBehind t) l).item
  | .object fs, l => ⟨l, .object (readFields fs)⟩
  | .union ms, l => readUnion ms l
  | .intersection ms, l => readIntersection ms l
  | t, l => ⟨l, t⟩

/-- What the members of a union are read as. -/
def readUnion : List TypeTerm → Level → Operand
  | [], l => ⟨l, .union []⟩
  | [t], l => readBehind t l
  | t :: ts, l => readUnion ts (readBehind t l).bar

/-- What the members of an intersection are read as. -/
def readIntersection : List TypeTerm → Level → Operand
  | [], l => ⟨l, .intersection []⟩
  | [t], l => Reader.grouped t.isProperUnion (readBehind t) l
  | t :: ts, l => readIntersection ts (Reader.grouped t.isProperUnion (readBehind t) l).amp

/-- What fields are read as. -/
def readFields : List (FieldOf TypeTerm) → List (FieldOf TypeTerm)
  | [] => []
  | ⟨key, isOptional, t⟩ :: fs => ⟨key, isOptional, (readBehind t {}).close⟩ :: readFields fs

end

/-- What the text of a type is read as by itself. -/
def readBack (t : TypeTerm) : TypeTerm :=
  (readBehind t {}).close

mutual

/-- The loosest operator outside of all brackets in the text of a type: 2 for
`|`, 1 for `&`, and 0 if there is none. -/
def looseness : TypeTerm → Nat
  | .array t => if t.isCompound then 0 else looseness t
  | .union ms => max (if 1 < ms.length then 2 else 0) (memberLooseness ms)
  | .intersection ms => max (if 1 < ms.length then 1 else 0) (operandLooseness ms)
  | _ => 0

/-- The loosest operator in the members of a union. -/
def memberLooseness : List TypeTerm → Nat
  | [] => 0
  | t :: ts => max (looseness t) (memberLooseness ts)

/-- The loosest operator in the members of an intersection. -/
def operandLooseness : List TypeTerm → Nat
  | [] => 0
  | t :: ts => max (if t.isProperUnion then 0 else looseness t) (operandLooseness ts)

end

/-- An item or an operand right inside of the type is in parentheses if it
has an operator that does not bind tighter. -/
def isGroupedAtTop : TypeTerm → Bool
  | .array t => t.isCompound || t.looseness = 0
  | .intersection ms => ms.length ≤ 1 || ms.all fun t => t.isProperUnion || t.looseness < 2
  | _ => true

mutual

/-- Every array item and every operand of `&` that needs parentheses has
them, at every depth. -/
def isGrouped : TypeTerm → Bool
  | .array t => isGroupedAtTop (.array t) && isGrouped t
  | .object fs => areGroupedFields fs
  | .union ms => areGrouped ms
  | .intersection ms => isGroupedAtTop (.intersection ms) && areGrouped ms
  | _ => true

/-- Each of the types is grouped. -/
def areGrouped : List TypeTerm → Bool
  | [] => true
  | t :: ts => isGrouped t && areGrouped ts

/-- The type of each of the fields is grouped. -/
def areGroupedFields : List (FieldOf TypeTerm) → Bool
  | [] => true
  | ⟨_, _, t⟩ :: fs => isGrouped t && areGroupedFields fs

end

theorem areGrouped_eq (ts : List TypeTerm) : areGrouped ts = ts.all isGrouped := by
  induction ts with
  | nil => rfl
  | cons t ts ih => rw [areGrouped, ih, List.all_cons]

theorem areGroupedFields_eq (fs : List Field) :
    areGroupedFields fs = (fs.map FieldOf.type).all isGrouped := by
  induction fs with
  | nil => rfl
  | cons f fs ih => rw [areGroupedFields, ih, List.map_cons, List.all_cons]

/-- A type is grouped if it is at its top and its children are. -/
theorem isGrouped_eq (t : TypeTerm) : t.isGrouped = (t.isGroupedAtTop && t.children.all isGrouped) := by
  cases t with
  | array t => rw [isGrouped, children, List.all_cons, List.all_nil, Bool.and_true]
  | object fs => rw [isGrouped, areGroupedFields_eq, children]; rfl
  | union ms => rw [isGrouped, areGrouped_eq, children]; rfl
  | intersection ms => rw [isGrouped, areGrouped_eq, children]
  | _ => rfl

theorem readFields_eq (fs : List Field) :
    readFields fs = fs.map fun f => ⟨f.key, f.isOptional, f.type.readBack⟩ := by
  induction fs with
  | nil => rfl
  | cons f fs ih => rw [readFields, ih, List.map_cons, readBack]

theorem readUnion_cons {ts : List TypeTerm} (h : ts ≠ []) (t : TypeTerm) (l : Level) :
    readUnion (t :: ts) l = readUnion ts (readBehind t l).bar := by
  cases ts with
  | nil => exact absurd rfl h
  | cons u us => rw [readUnion]; exact List.cons_ne_nil u us

theorem readIntersection_cons {ts : List TypeTerm} (h : ts ≠ []) (t : TypeTerm) (l : Level) :
    readIntersection (t :: ts) l =
      readIntersection ts (Reader.grouped t.isProperUnion (readBehind t) l).amp := by
  cases ts with
  | nil => exact absurd rfl h
  | cons u us => rw [readIntersection]; exact List.cons_ne_nil u us

/-! ### Grouped types are read back -/

/-- In place of an operand the reader takes for the type, up to merging, what
has no operator looser than the given one. -/
structure ReadsBack (k : Nat) (f : Level → Operand) (t : TypeTerm) : Prop where
  whole : k = 0 → ∀ l, (f l).before = l ∧ (f l).type.merge = t.merge
  factors : k ≤ 1 → ∀ l, (f l).before.alternatives = l.alternatives ∧
    ((f l).before.factors ++ [(f l).type]).flatMap mergedFactors =
      l.factors.flatMap mergedFactors ++ t.mergedFactors
  alternatives : ∀ l, l.factors = [] →
    (f l).bar.alternatives.flatMap mergedAlternatives =
      l.alternatives.flatMap mergedAlternatives ++ t.mergedAlternatives

variable {k : Nat} {f : Level → Operand} {t : TypeTerm}

theorem readsBack_of_alternatives (hk : 2 ≤ k)
    (h : ∀ l, l.factors = [] → (f l).bar.alternatives.flatMap mergedAlternatives =
      l.alternatives.flatMap mergedAlternatives ++ t.mergedAlternatives) : ReadsBack k f t where
  whole h0 := by omega
  factors h1 := by omega
  alternatives := h

theorem readsBack_of_factors (hk : 1 ≤ k)
    (h : ∀ l, (f l).before.alternatives = l.alternatives ∧
      ((f l).before.factors ++ [(f l).type]).flatMap mergedFactors =
        l.factors.flatMap mergedFactors ++ t.mergedFactors) : ReadsBack k f t where
  whole h0 := by omega
  factors _ := h
  alternatives l hl := by
    obtain ⟨halternatives, hfactors⟩ := h l
    rw [hl, List.flatMap_nil, List.nil_append, ← mergedFactors_intersectionOf,
      ← merge_eq_iff_factors, merge_eq_iff_alternatives] at hfactors
    rw [Operand.bar, halternatives, List.flatMap_append, List.flatMap_singleton, hfactors]

theorem readsBack_of_whole (h : ∀ l, (f l).before = l ∧ (f l).type.merge = t.merge) :
    ReadsBack k f t := by
  have hfactors : ∀ l, (f l).before.alternatives = l.alternatives ∧
      ((f l).before.factors ++ [(f l).type]).flatMap mergedFactors =
        l.factors.flatMap mergedFactors ++ t.mergedFactors := by
    intro l
    obtain ⟨hbefore, htype⟩ := h l
    rw [merge_eq_iff_factors] at htype
    rw [hbefore, List.flatMap_append, List.flatMap_singleton, htype]
    exact ⟨rfl, rfl⟩
  exact ⟨fun _ => h, fun _ => hfactors, (readsBack_of_factors (Nat.le_refl 1) hfactors).alternatives⟩

theorem ReadsBack.close (h : ReadsBack k f t) : (f {}).close.merge = t.merge := by
  rw [merge_eq_iff_alternatives, Operand.close, mergedAlternatives_unionOf, h.alternatives {} rfl,
    List.flatMap_nil, List.nil_append]

theorem ReadsBack.congr {u : TypeTerm} (h : ReadsBack k f t) (hu : t.merge = u.merge) :
    ReadsBack k f u where
  whole h0 := hu ▸ h.whole h0
  factors := by
    rw [← merge_eq_iff_factors.1 hu]
    exact h.factors
  alternatives := by
    rw [← merge_eq_iff_alternatives.1 hu]
    exact h.alternatives

/-- In parentheses every operator is allowed. -/
theorem ReadsBack.grouped (h : ReadsBack k f t) (needed : Bool) :
    ReadsBack (if needed then 0 else k) (Reader.grouped needed f) t := by
  cases needed with
  | true => exact readsBack_of_whole fun l => ⟨rfl, h.close⟩
  | false => exact h

theorem ReadsBack.item (h : ReadsBack 0 f t) : ReadsBack 0 (fun l => (f l).item) (.array t) := by
  refine readsBack_of_whole fun l => ?_
  obtain ⟨hbefore, htype⟩ := h.whole rfl l
  exact ⟨hbefore, by rw [Operand.item, merge, merge, htype]⟩

theorem readUnion_alternatives {ms : List TypeTerm} (hne : ms ≠ [])
    (h : ∀ m ∈ ms, ∃ k, ReadsBack k (readBehind m) m) :
    ∀ l : Level, l.factors = [] → (readUnion ms l).bar.alternatives.flatMap mergedAlternatives =
      l.alternatives.flatMap mergedAlternatives ++ ms.flatMap mergedAlternatives := by
  induction ms with
  | nil => exact absurd rfl hne
  | cons m ms ih =>
    intro l hl
    obtain ⟨k, hm⟩ := h m List.mem_cons_self
    have hm := hm.alternatives l hl
    by_cases hms : ms = []
    · rw [hms, readUnion, hm, List.flatMap_singleton]
    · have hbar : (readBehind m l).bar.factors = [] := rfl
      rw [readUnion_cons hms, ih hms (fun m' hm' => h m' (List.mem_cons_of_mem m hm')) _ hbar, hm,
        List.flatMap_cons, List.append_assoc]

theorem readIntersection_factors {ms : List TypeTerm} (hne : ms ≠ [])
    (h : ∀ m ∈ ms, ∃ k ≤ 1, ReadsBack k (Reader.grouped m.isProperUnion (readBehind m)) m) :
    ∀ l : Level, (readIntersection ms l).before.alternatives = l.alternatives ∧
      ((readIntersection ms l).before.factors ++ [(readIntersection ms l).type]).flatMap
          mergedFactors =
        l.factors.flatMap mergedFactors ++ ms.flatMap mergedFactors := by
  induction ms with
  | nil => exact absurd rfl hne
  | cons m ms ih =>
    intro l
    obtain ⟨k, hk, hm⟩ := h m List.mem_cons_self
    obtain ⟨halternatives, hfactors⟩ := hm.factors hk l
    by_cases hms : ms = []
    · rw [hms, readIntersection, List.flatMap_singleton]
      exact ⟨halternatives, hfactors⟩
    · rw [readIntersection_cons hms]
      obtain ⟨halternatives', hfactors'⟩ := ih hms
        (fun m' hm' => h m' (List.mem_cons_of_mem m hm'))
        (Reader.grouped m.isProperUnion (readBehind m) l).amp
      refine ⟨halternatives'.trans halternatives, ?_⟩
      rw [hfactors', Operand.amp, hfactors, List.flatMap_cons, List.append_assoc]

theorem readsBack_array (h : ReadsBack t.looseness (readBehind t) t)
    (htop : (array t).isGroupedAtTop = true) :
    ReadsBack (array t).looseness (readBehind (array t)) (array t) := by
  have hzero : (if t.isCompound then 0 else t.looseness) = 0 := by
    cases hc : t.isCompound with
    | true => rfl
    | false => simpa [isGroupedAtTop, hc] using htop
  have hitem := h.grouped t.isCompound
  rw [hzero] at hitem
  rw [looseness, hzero]
  exact hitem.item

theorem readsBack_object {fs : List Field}
    (h : ∀ f ∈ fs, ReadsBack f.type.looseness (readBehind f.type) f.type) :
    ReadsBack (object fs).looseness (readBehind (object fs)) (object fs) := by
  refine readsBack_of_whole fun l => ⟨rfl, ?_⟩
  rw [readBehind, readFields_eq, merge, merge, mergeFields_eq, mergeFields_eq, List.map_map]
  refine congrArg TypeTerm.object (List.map_congr_left fun f hf => ?_)
  rw [Function.comp_apply, readBack, (h f hf).close]

theorem readsBack_union {ms : List TypeTerm}
    (h : ∀ m ∈ ms, ReadsBack m.looseness (readBehind m) m) :
    ReadsBack (union ms).looseness (readBehind (union ms)) (union ms) := by
  match ms with
  | [] => exact readsBack_of_whole fun l => ⟨rfl, rfl⟩
  | [m] =>
    have hlooseness : (union [m]).looseness = m.looseness := by
      simp [looseness, memberLooseness]
    have hmerge : m.merge = (union [m]).merge := by
      rw [merge_union, List.flatMap_singleton, ← merge_eq_unionOf]
    rw [hlooseness]
    exact (h m (List.mem_singleton_self m)).congr hmerge
  | m :: m' :: ms =>
    have hlooseness : 2 ≤ (union (m :: m' :: ms)).looseness := by
      rw [looseness, if_pos (by simp)]
      exact Nat.le_max_left 2 _
    refine readsBack_of_alternatives hlooseness fun l hl => ?_
    rw [mergedAlternatives_union]
    exact readUnion_alternatives (List.cons_ne_nil _ _) (fun n hn => ⟨_, h n hn⟩) l hl

theorem readsBack_intersection {ms : List TypeTerm}
    (h : ∀ m ∈ ms, ReadsBack m.looseness (readBehind m) m)
    (htop : (intersection ms).isGroupedAtTop = true) :
    ReadsBack (intersection ms).looseness (readBehind (intersection ms)) (intersection ms) := by
  have hoperand : ∀ m ∈ ms, ReadsBack (if m.isProperUnion then 0 else m.looseness)
      (Reader.grouped m.isProperUnion (readBehind m)) m := fun m hm => (h m hm).grouped _
  match ms with
  | [] => exact readsBack_of_whole fun l => ⟨rfl, rfl⟩
  | [m] =>
    have hlooseness : (intersection [m]).looseness =
        if m.isProperUnion then 0 else m.looseness := by
      simp [looseness, operandLooseness]
    have hmerge : m.merge = (intersection [m]).merge := by
      rw [merge_intersection, List.flatMap_singleton, ← merge_eq_intersectionOf]
    rw [hlooseness]
    exact (hoperand m (List.mem_singleton_self m)).congr hmerge
  | m :: m' :: ms =>
    have htight : ∀ n ∈ m :: m' :: ms, (if n.isProperUnion then 0 else n.looseness) ≤ 1 := by
      intro n hn
      simp only [isGroupedAtTop, List.length_cons, Bool.or_eq_true, decide_eq_true_eq,
        List.all_eq_true] at htop
      have htop := htop.resolve_left (by omega) n hn
      cases hc : n.isProperUnion with
      | true => exact Nat.zero_le 1
      | false =>
        rw [hc] at htop
        exact Nat.le_of_lt_succ (htop.resolve_left Bool.false_ne_true)
    have hlooseness : 1 ≤ (intersection (m :: m' :: ms)).looseness := by
      rw [looseness, if_pos (by simp)]
      exact Nat.le_max_left 1 _
    refine readsBack_of_factors hlooseness fun l => ?_
    rw [mergedFactors_intersection]
    exact readIntersection_factors (List.cons_ne_nil _ _)
      (fun n hn => ⟨_, htight n hn, hoperand n hn⟩) l

/-- A grouped type is read for what it is. -/
theorem readsBack_of_isGrouped (t : TypeTerm) (h : t.isGrouped = true) :
    ReadsBack t.looseness (readBehind t) t := by
  induction t using child_induction with
  | step t ih =>
    rw [isGrouped_eq, Bool.and_eq_true, List.all_eq_true] at h
    obtain ⟨htop, hchildren⟩ := h
    have ih : ∀ u ∈ t.children, ReadsBack u.looseness (readBehind u) u := fun u hu =>
      ih u hu (hchildren u hu)
    cases t with
    | array t => exact readsBack_array (ih t (List.mem_singleton_self t)) htop
    | object fs => exact readsBack_object fun f hf => ih f.type (List.mem_map_of_mem hf)
    | union ms => exact readsBack_union ih
    | intersection ms => exact readsBack_intersection ih htop
    | _ => exact readsBack_of_whole fun l => ⟨rfl, rfl⟩

/-- A grouped type is read back as it is, up to merging. -/
theorem merge_readBack_of_isGrouped {t : TypeTerm} (h : t.isGrouped = true) :
    t.readBack.merge = t.merge :=
  (readsBack_of_isGrouped t h).close

end TypeTerm
end SchemaTypes
