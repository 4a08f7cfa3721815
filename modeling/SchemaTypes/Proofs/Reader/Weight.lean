/-
# Missing parentheses change what is read

Each type has a weight that merging keeps: one for a leaf, twice the item for
an array, the sum for a union, and for an intersection the number that is one
less than the product of the members' weights, each one more. Of `A | B[]`
and `(A | B)[]`, of `A & B[]` and `(A & B)[]`, and of `A | B & C` and
`(A | B) & C`, the first has the lower weight. So reading the text of a type
back never raises the weight, and lowers it as soon as one pair of
parentheses is missing: a type is read back as it is, up to merging, exactly
if it is grouped.

To carry this through a text from left to right, an operand has a cost: the
weight that closing its brackets would give, and one more. The bounds on the
cost say how much of it the operands in front already take.

Key definitions: `Reader.weight`, `Reader.Level.cost`, `Reader.Bounds`.
Key theorems: `TypeTerm.bounded_of_hasMembers`, `TypeTerm.merge_readBack_iff`.
-/
import Mathlib.Algebra.BigOperators.Group.List.Basic
import Mathlib.Tactic.Linarith
import Mathlib.Tactic.Ring
import SchemaTypes.Proofs.Reader.Grouping
import SchemaTypes.Proofs.TypeTerm.Interpretation

namespace SchemaTypes

namespace Reader

/-- The weight of a type, computed from the weights of its parts. -/
def weight : Interpretation ℕ where
  any := 1
  number := 1
  string := 1
  boolean := 1
  record := 1
  literal _ := 1
  named _ := 1
  array n := 2 * n
  object fs := 1 + (fs.map fun f => f.2.2).sum
  union := List.sum
  intersection := List.foldr (fun m n => m + n + m * n) 0

theorem one_add_weight_intersection (ns : List ℕ) :
    1 + weight.intersection ns = (ns.map (1 + ·)).prod := by
  induction ns with
  | nil => rfl
  | cons n ns ih =>
    rw [List.map_cons, List.prod_cons, ← ih]
    change 1 + (n + weight.intersection ns + n * weight.intersection ns) = _
    ring

theorem flat_weight : weight.Flat where
  union_singleton n := List.sum_singleton
  union_flatten nss := List.sum_flatten
  intersection_singleton n := by
    change n + 0 + n * 0 = n
    ring
  intersection_flatten nss := by
    refine Nat.add_left_cancel (n := 1) ?_
    rw [one_add_weight_intersection, one_add_weight_intersection, List.map_flatten, List.prod_flatten,
      List.map_map, List.map_map]
    exact congrArg List.prod (List.map_congr_left fun ns _ => (one_add_weight_intersection ns).symm)

/-- The weight of the complete operands of `|`. -/
def Level.sum (l : Level) : ℕ :=
  (l.alternatives.map weight.meaning).sum

/-- By how much the operands of `&` multiply what the next one adds. -/
def Level.product (l : Level) : ℕ :=
  (l.factors.map fun t => 1 + weight.meaning t).prod

/-- One more than the weight up to the next bracket with an operand of weight
`w` last. -/
def Level.cost (l : Level) (w : ℕ) : ℕ :=
  l.sum + l.product * (1 + w)

/-- One more than the weight up to the next bracket. -/
def Operand.cost (x : Operand) : ℕ :=
  x.before.cost (weight.meaning x.type)

namespace Level

variable (l : Level)

theorem cost_empty (w : ℕ) : cost {} w = 1 + w := by
  change 0 + 1 * (1 + w) = 1 + w
  ring

theorem product_pos : 0 < l.product := by
  unfold product
  induction l.factors with
  | nil => exact Nat.one_pos
  | cons t ts ih =>
    rw [List.map_cons, List.prod_cons]
    exact Nat.mul_pos (by omega) ih

theorem sum_lt_cost (w : ℕ) : l.sum < l.cost w := by
  have := Nat.mul_pos l.product_pos (show 0 < 1 + w by omega)
  unfold cost
  omega

theorem cost_le_cost {v w : ℕ} (h : v ≤ w) : l.cost v ≤ l.cost w :=
  Nat.add_le_add_left (Nat.mul_le_mul_left _ (Nat.add_le_add_left h 1)) _

theorem cost_lt_cost {v w : ℕ} (h : v < w) : l.cost v < l.cost w :=
  Nat.add_lt_add_left (Nat.mul_lt_mul_of_pos_left (Nat.add_lt_add_left h 1) l.product_pos) _

theorem cost_add (v w : ℕ) : l.cost (v + w) = l.cost v + l.product * w := by
  unfold cost
  ring

/-- Doubling the last operand doubles what it adds, and not what stands in
front of it. -/
theorem cost_double (w : ℕ) : l.cost (2 * w) + l.cost 0 = 2 * l.cost w := by
  unfold cost
  ring

/-- One more operand of `&` multiplies what the last one adds, and not what
`|` has completed. -/
theorem cost_amp (v w : ℕ) : l.cost (v + w + v * w) + l.sum * w = l.cost v * (1 + w) := by
  unfold cost
  ring

end Level

namespace Operand

variable (x : Operand)

theorem sum_amp : x.amp.sum = x.before.sum := rfl

theorem product_amp : x.amp.product = x.before.product * (1 + weight.meaning x.type) := by
  rw [Level.product, amp, List.map_append, List.prod_append, List.map_singleton, List.prod_singleton,
    Level.product]

/-- An operand that weighs something multiplies what follows `&`. -/
theorem product_lt_product_amp (h : 0 < weight.meaning x.type) :
    x.before.product < x.amp.product := by
  have hlt : x.before.product * 1 < x.before.product * (1 + weight.meaning x.type) :=
    Nat.mul_lt_mul_of_pos_left (by omega) x.before.product_pos
  rw [product_amp]
  omega

theorem cost_amp (w : ℕ) : x.amp.cost w =
    x.before.cost (weight.meaning x.type + w + weight.meaning x.type * w) := by
  rw [Level.cost, Level.cost, sum_amp, product_amp]
  ring

theorem product_bar : x.bar.product = 1 := rfl

theorem cost_bar (w : ℕ) : x.bar.cost w = x.cost + w := by
  have hproduct : 1 + weight.meaning (TypeTerm.intersectionOf (x.before.factors ++ [x.type])) =
      x.before.product * (1 + weight.meaning x.type) := by
    rw [Interpretation.meaning_intersectionOf flat_weight, one_add_weight_intersection, List.map_map,
      ← product_amp]
    rfl
  rw [Level.cost, product_bar, Level.sum, bar, List.map_append, List.sum_append, List.map_singleton,
    List.sum_singleton, cost, Level.cost, ← hproduct, Level.sum]
  omega

theorem weight_close : weight.meaning x.close + 1 = x.cost := by
  have hbar := x.cost_bar 0
  rw [Level.cost, product_bar] at hbar
  rw [close, Interpretation.meaning_unionOf flat_weight]
  exact hbar

end Operand

/-! ### Bounds on what is read -/

/-- The one number is at most the other one, and less in the given case. -/
def Below (strictly : Prop) (m n : ℕ) : Prop :=
  m ≤ n ∧ (strictly → m < n)

/-- In place of an operand the reader takes something for a type of weight `w`
and looseness `k`. The operands in front cost no less than before, and more if
the text has operators; in all it costs no more than the type would, and less
in the bad case, or if a `|` cuts off operands of `&` in front. -/
structure Bounds (w k : ℕ) (bad : Prop) (f : Level → Operand) : Prop where
  pos : ∀ l, 0 < weight.meaning (f l).type
  sum : ∀ l, Below (2 ≤ k) l.sum (f l).before.sum
  start : ∀ l, Below (1 ≤ k) (l.cost 0) ((f l).before.cost 0)
  cost : ∀ l, Below (bad ∨ 2 ≤ k ∧ 1 < l.product) (f l).cost (l.cost w)

variable {w w' k k' : ℕ} {bad bad' : Prop} {f g : Level → Operand}

theorem Bounds.weaken (h : Bounds w k bad f) (hk : min k' 2 ≤ k) (hbad : bad' → bad) :
    Bounds w k' bad' f where
  pos := h.pos
  sum l := ⟨(h.sum l).1, fun hk' => (h.sum l).2 (by omega)⟩
  start l := ⟨(h.start l).1, fun hk' => (h.start l).2 (by omega)⟩
  cost l := ⟨(h.cost l).1, fun h' => (h.cost l).2 (h'.imp hbad fun hk' => ⟨by omega, hk'.2⟩)⟩

/-- What stands in front costs less than with the operand. -/
theorem Bounds.start_lt_cost (h : Bounds w k bad f) (l : Level) : l.cost 0 < (f l).cost :=
  Nat.lt_of_le_of_lt (h.start l).1 ((f l).before.cost_lt_cost (h.pos l))

/-- What is read whole, without an operator outside of brackets. -/
theorem bounds_whole {t : TypeTerm} (hpos : 0 < weight.meaning t)
    (h : Below bad (weight.meaning t) w) : Bounds w 0 bad fun l => ⟨l, t⟩ where
  pos _ := hpos
  sum l := ⟨Nat.le_refl _, fun hk => by omega⟩
  start l := ⟨Nat.le_refl _, fun hk => by omega⟩
  cost l := ⟨l.cost_le_cost h.1, fun hbad => l.cost_lt_cost (h.2 (hbad.resolve_right (by omega)))⟩

theorem Bounds.close (h : Bounds w k bad f) : Below bad (weight.meaning (f {}).close) w := by
  have hclose := (f {}).weight_close
  have hcost := h.cost {}
  rw [Level.cost_empty] at hcost
  constructor
  · have := hcost.1
    omega
  · intro hbad
    have := hcost.2 (.inl hbad)
    omega

theorem Bounds.close_pos (h : Bounds w k bad f) : 0 < weight.meaning (f {}).close := by
  have hclose := (f {}).weight_close
  have hstart := h.start_lt_cost {}
  rw [Level.cost_empty] at hstart
  omega

theorem Bounds.grouped (h : Bounds w k bad f) (needed : Bool) :
    Bounds w (if needed then 0 else k) bad (Reader.grouped needed f) := by
  cases needed with
  | true => exact bounds_whole h.close_pos h.close
  | false => exact h

/-- `[]` doubles what it goes to; where that is not all of the item, the
operands in front of it are not doubled. -/
theorem Bounds.item (h : Bounds w k bad f) :
    Bounds (2 * w) k (bad ∨ 1 ≤ k) fun l => (f l).item where
  pos l := Nat.mul_pos Nat.two_pos (h.pos l)
  sum := h.sum
  start := h.start
  cost l := by
    have hstart := h.start l
    have hcost := h.cost l
    have hread : (f l).item.cost + (f l).before.cost 0 = 2 * (f l).cost :=
      (f l).before.cost_double _
    have hwritten : l.cost (2 * w) + l.cost 0 = 2 * l.cost w := l.cost_double w
    constructor
    · have := hstart.1
      have := hcost.1
      omega
    · rintro ((hbad | hk) | hk)
      · have := hstart.1
        have := hcost.2 (.inl hbad)
        omega
      · have := hstart.2 hk
        have := hcost.1
        omega
      · have := hstart.1
        have := hcost.2 (.inr hk)
        omega

/-- `|` completes what is in front of it: the operands of `&` there do not
reach beyond it. -/
theorem Bounds.bar (h : Bounds w k bad f) (h' : Bounds w' k' bad' g) (hw' : 0 < w') :
    Bounds (w + w') 2 (bad ∨ bad') fun l => g (f l).bar := by
  refine ⟨fun l => h'.pos _, fun l => ?_, fun l => ?_, fun l => ?_⟩
  · have hlt : l.sum < (g (f l).bar).before.sum :=
      calc l.sum < l.cost 0 := l.sum_lt_cost 0
        _ ≤ (f l).bar.sum := by
          have hbar := (f l).cost_bar 0
          rw [Level.cost, Operand.product_bar] at hbar
          have := h.start_lt_cost l
          omega
        _ ≤ (g (f l).bar).before.sum := (h'.sum _).1
    exact ⟨Nat.le_of_lt hlt, fun _ => hlt⟩
  · have hlt : l.cost 0 < (g (f l).bar).before.cost 0 :=
      calc l.cost 0 < (f l).cost := h.start_lt_cost l
        _ = (f l).bar.cost 0 := ((f l).cost_bar 0).symm
        _ ≤ (g (f l).bar).before.cost 0 := (h'.start _).1
    exact ⟨Nat.le_of_lt hlt, fun _ => hlt⟩
  · have hcost := h.cost l
    have hcost' := h'.cost (f l).bar
    rw [Operand.cost_bar] at hcost'
    have hproduct : 1 * w' ≤ l.product * w' := Nat.mul_le_mul_right w' l.product_pos
    rw [Level.cost_add]
    constructor
    · have := hcost.1
      have := hcost'.1
      omega
    · rintro ((hbad | hbad) | ⟨-, hcut⟩)
      · have := hcost.2 (.inl hbad)
        have := hcost'.1
        omega
      · have := hcost.1
        have := hcost'.2 (.inl hbad)
        omega
      · have := hcost.1
        have := hcost'.1
        have : 1 * w' < l.product * w' := Nat.mul_lt_mul_of_pos_right hcut hw'
        omega

/-- `&` goes to all that stands in front of it, unless a `|` stands there, and
to what follows up to a `|`. -/
theorem Bounds.amp (h : Bounds w k bad f) (h' : Bounds w' k' bad' g) (hw' : 0 < w') :
    Bounds (w + w' + w * w') (max 1 (max k k')) ((bad ∨ bad') ∨ 2 ≤ max k k')
      fun l => g (f l).amp := by
  refine ⟨fun l => h'.pos _, fun l => ?_, fun l => ?_, fun l => ?_⟩
  · have hsum := h.sum l
    have hsum' := h'.sum (f l).amp
    rw [Operand.sum_amp] at hsum'
    constructor
    · exact Nat.le_trans hsum.1 hsum'.1
    · intro hk
      by_cases hk2 : 2 ≤ k
      · exact Nat.lt_of_lt_of_le (hsum.2 hk2) hsum'.1
      · exact Nat.lt_of_le_of_lt hsum.1 (hsum'.2 (by omega))
  · have hlt : l.cost 0 < (g (f l).amp).before.cost 0 :=
      calc l.cost 0 < (f l).cost := h.start_lt_cost l
        _ = (f l).amp.cost 0 := by rw [Operand.cost_amp, Nat.mul_zero, Nat.add_zero, Operand.cost]
        _ ≤ (g (f l).amp).before.cost 0 := (h'.start _).1
    exact ⟨Nat.le_of_lt hlt, fun _ => hlt⟩
  · have hsum := h.sum l
    have hcost := h.cost l
    have hcost' := h'.cost (f l).amp
    have hamp : 1 < (f l).amp.product :=
      Nat.lt_of_le_of_lt (f l).before.product_pos ((f l).product_lt_product_amp (h.pos l))
    have hread : (f l).amp.cost w' + (f l).before.sum * w' = (f l).cost * (1 + w') := by
      rw [Operand.cost_amp]
      exact (f l).before.cost_amp _ w'
    have hwritten : l.cost (w + w' + w * w') + l.sum * w' = l.cost w * (1 + w') := l.cost_amp w w'
    have hcut : l.sum * w' ≤ (f l).before.sum * w' := Nat.mul_le_mul_right w' hsum.1
    have hle : (f l).cost * (1 + w') ≤ l.cost w * (1 + w') :=
      Nat.mul_le_mul_right (1 + w') hcost.1
    constructor
    · have := hcost'.1
      omega
    · intro hbad
      have hcases : bad ∨ bad' ∨ 2 ≤ k ∨ 2 ≤ k' := by
        obtain ((hbad | hbad) | hk) | ⟨hk, -⟩ := hbad
        · exact .inl hbad
        · exact .inr (.inl hbad)
        · exact .inr (.inr (by omega))
        · exact .inr (.inr (by omega))
      obtain hbad | hbad | hk | hk := hcases
      · have : (f l).cost * (1 + w') < l.cost w * (1 + w') :=
          Nat.mul_lt_mul_of_pos_right (hcost.2 (.inl hbad)) (by omega)
        have := hcost'.1
        omega
      · have := hcost'.2 (.inl hbad)
        omega
      · have : l.sum * w' < (f l).before.sum * w' := Nat.mul_lt_mul_of_pos_right (hsum.2 hk) hw'
        have := hcost'.1
        omega
      · have := hcost'.2 (.inr ⟨hk, hamp⟩)
        omega

end Reader

namespace TypeTerm

open Reader

/-- The bounds hold of what is read for a type of some weight, which is not
nothing. -/
def Bounded (t : TypeTerm) : Prop :=
  0 < weight.meaning t ∧ Bounds (weight.meaning t) t.looseness (t.isGrouped = false) (readBehind t)

theorem weight_union (ms : List TypeTerm) :
    weight.meaning (union ms) = (ms.map weight.meaning).sum := by
  rw [Interpretation.meaning, Interpretation.memberMeanings_eq]
  rfl

theorem weight_intersection_cons (m : TypeTerm) (ms : List TypeTerm) :
    weight.meaning (intersection (m :: ms)) = weight.meaning m + weight.meaning (intersection ms) +
      weight.meaning m * weight.meaning (intersection ms) :=
  rfl

theorem weight_object (fs : List Field) :
    weight.meaning (object fs) = 1 + (fs.map fun f => weight.meaning f.type).sum := by
  rw [Interpretation.meaning, Interpretation.fieldMeanings_eq]
  change 1 + _ = _
  rw [List.map_map]
  rfl

theorem bounded_leaf {t : TypeTerm} (hweight : weight.meaning t = 1) (hgrouped : t.isGrouped = true)
    (hlooseness : t.looseness = 0) (hread : ∀ l, readBehind t l = ⟨l, t⟩) : Bounded t := by
  refine ⟨by omega, ?_⟩
  rw [hlooseness, funext hread]
  exact bounds_whole (by omega) ⟨Nat.le_refl _, by simp [hgrouped]⟩

theorem bounded_array {t : TypeTerm} (h : Bounded t) : Bounded (.array t) := by
  have hweight : weight.meaning (array t) = 2 * weight.meaning t := rfl
  refine ⟨by have := h.1; omega, ?_⟩
  rw [hweight, looseness]
  refine (h.2.grouped t.isCompound).item.weaken (Nat.min_le_left _ _) fun hbad => ?_
  rw [isGrouped, Bool.and_eq_false_iff] at hbad
  refine hbad.symm.imp_right fun htop => ?_
  simp only [isGroupedAtTop, Bool.or_eq_false_iff, decide_eq_false_iff_not] at htop
  rw [if_neg (by simp [htop.1])]
  omega

theorem weight_readFields {fs : List Field} (h : ∀ f ∈ fs, Bounded f.type) :
    Below (areGroupedFields fs = false) (weight.meaning (object (readFields fs)))
      (weight.meaning (object fs)) := by
  rw [weight_object, weight_object]
  induction fs with
  | nil => exact ⟨Nat.le_refl _, fun h => by cases h⟩
  | cons f fs ih =>
    have ih := ih fun g hg => h g (List.mem_cons_of_mem f hg)
    have hf : Below (f.type.isGrouped = false) (weight.meaning f.type.readBack)
        (weight.meaning f.type) := (h f List.mem_cons_self).2.close
    rw [readFields, areGroupedFields, List.map_cons, List.sum_cons, List.map_cons, List.sum_cons,
      Bool.and_eq_false_iff]
    change Below _ (1 + (weight.meaning f.type.readBack + _)) _
    constructor
    · have := hf.1
      have := ih.1
      omega
    · rintro (hbad | hbad)
      · have := hf.2 hbad
        have := ih.1
        omega
      · have := hf.1
        have := ih.2 hbad
        omega

theorem bounded_object {fs : List Field} (h : ∀ f ∈ fs, Bounded f.type) : Bounded (.object fs) := by
  have hpos : ∀ gs : List Field, 0 < weight.meaning (object gs) := by
    intro gs
    rw [weight_object]
    omega
  refine ⟨hpos fs, ?_⟩
  exact bounds_whole (hpos (readFields fs)) (weight_readFields h)

theorem bounded_union {ms : List TypeTerm} (hne : ms ≠ []) (h : ∀ m ∈ ms, Bounded m) :
    Bounded (.union ms) := by
  induction ms with
  | nil => exact absurd rfl hne
  | cons m ms ih =>
    obtain ⟨hpos, hm⟩ := h m List.mem_cons_self
    by_cases hms : ms = []
    · have hweight : weight.meaning (union [m]) = weight.meaning m := by
        rw [weight_union, List.map_singleton, List.sum_singleton]
      subst hms
      refine ⟨hweight ▸ hpos, hweight ▸ hm.weaken ?_ ?_⟩
      · simp [looseness, memberLooseness]
      · simp [isGrouped, areGrouped]
    · obtain ⟨hpos', hms'⟩ := ih hms fun n hn => h n (List.mem_cons_of_mem m hn)
      have hweight : weight.meaning (union (m :: ms)) =
          weight.meaning m + weight.meaning (union ms) := by
        rw [weight_union, weight_union, List.map_cons, List.sum_cons]
      have hread : readBehind (union (m :: ms)) = fun l =>
          readBehind (union ms) (readBehind m l).bar :=
        funext fun l => readUnion_cons hms m l
      refine ⟨by omega, ?_⟩
      rw [hweight, hread]
      refine (hm.bar hms' hpos').weaken (Nat.min_le_right _ _) fun hbad => ?_
      rwa [isGrouped, areGrouped, Bool.and_eq_false_iff] at hbad

theorem operandLooseness_le {ms : List TypeTerm} {n : ℕ} :
    operandLooseness ms ≤ n ↔ ∀ m ∈ ms, (if m.isProperUnion then 0 else m.looseness) ≤ n := by
  induction ms with
  | nil => simp [operandLooseness]
  | cons m ms ih => rw [operandLooseness, Nat.max_le, ih, List.forall_mem_cons]

/-- The bad case of an intersection is that a member is not grouped, or that
there are several and one of them has a `|` outside of brackets. -/
theorem bounds_intersection {ms : List TypeTerm} (hne : ms ≠ []) (h : ∀ m ∈ ms, Bounded m) :
    0 < weight.meaning (intersection ms) ∧
      Bounds (weight.meaning (intersection ms)) (intersection ms).looseness
        (areGrouped ms = false ∨ 1 < ms.length ∧ 2 ≤ operandLooseness ms)
        (readBehind (intersection ms)) := by
  induction ms with
  | nil => exact absurd rfl hne
  | cons m ms ih =>
    obtain ⟨hpos, hm⟩ := h m List.mem_cons_self
    have hm := hm.grouped m.isProperUnion
    by_cases hms : ms = []
    · have hweight : weight.meaning (intersection [m]) = weight.meaning m := by
        rw [weight_intersection_cons]
        rfl
      subst hms
      refine ⟨hweight ▸ hpos, hweight ▸ hm.weaken ?_ ?_⟩
      · simp [looseness, operandLooseness]
      · simp [areGrouped]
    · obtain ⟨hpos', hms'⟩ := ih hms fun n hn => h n (List.mem_cons_of_mem m hn)
      have hread : readBehind (intersection (m :: ms)) = fun l =>
          readBehind (intersection ms) (Reader.grouped m.isProperUnion (readBehind m) l).amp :=
        funext fun l => readIntersection_cons hms m l
      have hlen := List.length_pos_of_ne_nil hms
      refine ⟨by rw [weight_intersection_cons]; omega, ?_⟩
      rw [weight_intersection_cons, hread]
      refine (hm.amp hms' hpos').weaken ?_ ?_
      · simp only [looseness, operandLooseness, List.length_cons]
        rw [if_pos (by omega)]
        omega
      · rw [areGrouped, Bool.and_eq_false_iff, operandLooseness, looseness]
        rintro ((hbad | hbad) | ⟨-, hbar⟩)
        · exact .inl (.inl hbad)
        · exact .inl (.inr (.inl hbad))
        · exact .inr (by omega)

theorem bounded_intersection {ms : List TypeTerm} (hne : ms ≠ []) (h : ∀ m ∈ ms, Bounded m) :
    Bounded (.intersection ms) := by
  obtain ⟨hpos, hms⟩ := bounds_intersection hne h
  refine ⟨hpos, hms.weaken (Nat.min_le_left _ _) fun hbad => ?_⟩
  rw [isGrouped, Bool.and_eq_false_iff] at hbad
  refine hbad.symm.imp_right fun htop => ?_
  simp only [isGroupedAtTop, Bool.or_eq_false_iff, decide_eq_false_iff_not, List.all_eq_false,
    Bool.not_eq_true] at htop
  obtain ⟨hlen, m, hm, hproper, hbar⟩ := htop
  refine ⟨by omega, ?_⟩
  by_contra hloose
  have := operandLooseness_le.1 (Nat.le_of_lt_succ (Nat.lt_of_not_le hloose)) m hm
  rw [hproper, if_neg Bool.false_ne_true] at this
  omega

/-- What the text of a type is read as costs no more than the type, and less
if the type is not grouped. -/
theorem bounded_of_hasMembers (t : TypeTerm) (h : HasMembers t) : Bounded t := by
  induction t using child_induction with
  | step t ih =>
    have ih : ∀ u ∈ t.children, Bounded u := fun u hu => ih u hu (h.child hu)
    have htop := h [] t (subterm?_nil t)
    cases t with
    | array t => exact bounded_array (ih t (List.mem_singleton_self t))
    | object fs => exact bounded_object fun f hf => ih f.type (List.mem_map_of_mem hf)
    | union ms => exact bounded_union (fun hnil => htop.1 (congrArg union hnil)) ih
    | intersection ms =>
      exact bounded_intersection (fun hnil => htop.2 (congrArg intersection hnil)) ih
    | _ => exact bounded_leaf rfl rfl rfl fun _ => rfl

/-- A type in which every union and intersection has members is read back as
it is, up to merging, exactly if it is grouped. -/
theorem merge_readBack_iff {t : TypeTerm} (h : HasMembers t) :
    t.readBack.merge = t.merge ↔ t.isGrouped = true := by
  refine ⟨fun hmerge => ?_, merge_readBack_of_isGrouped⟩
  by_contra hgrouped
  have hlt : weight.meaning t.readBack < weight.meaning t :=
    (bounded_of_hasMembers t h).2.close.2 (Bool.not_eq_true _ ▸ hgrouped)
  have heq : weight.meaning t.readBack = weight.meaning t := by
    rw [← Interpretation.meaning_merge flat_weight, hmerge, Interpretation.meaning_merge flat_weight]
  omega

end TypeTerm
end SchemaTypes
