/-
# What a command line sets

A command line fills slots: the input, each option that takes a value and each
switch once, and it counts how often more log output is asked for. Filling a
slot that is filled already, or with a value that it does not admit, fails.

Assignments to different slots do not disturb each other, two to the same
slot fail in either order, and counting takes no notice of when it is done. So
two assignments may change places (`Scan.take?_comm`), and with them all of a
list: what comes of a list of assignments depends on which they are and not on
their order (`Scan.takeAll_perm`).

Key definitions: `Assignment`, `Slot`, `Scan.put`, `Scan.take?`,
`Scan.takeAll`.
Key theorems: `Scan.isFilled_put`, `Scan.put_comm`, `Scan.takeAll_perm`,
`Scan.switch_takeAll`, `Scan.namePrefix_takeAll`, `Scan.verbosity_takeAll`.
-/
import Mathlib.Data.List.Induction
import SchemaTypes.CommandLine.Scan

namespace SchemaTypes.CommandLine

/-- One thing that a command line sets. -/
inductive Assignment where
  | operand (word : String)
  | value (o : ValueOption) (value : String)
  | switch (s : Switch)
  | verbose
deriving DecidableEq

/-- What may be set once. -/
inductive Slot where
  | operand
  | value (o : ValueOption)
  | switch (s : Switch)
deriving DecidableEq

namespace Assignment

/-- The slot that is filled. The log output may be raised any number of
times. -/
def slot? : Assignment → Option Slot
  | operand _ => some .operand
  | value o _ => some (.value o)
  | switch s => some (.switch s)
  | verbose => none

/-- The slot takes the value. -/
def isAdmitted : Assignment → Bool
  | operand word => (Scan.path word).isOk
  | value .output x => (Scan.path x).isOk
  | value .format x => (Scan.formatNamed x).isOk
  | value .config x => (Scan.path x).isOk
  | _ => true

end Assignment

namespace Scan

/-- The slot is filled. -/
def isFilled (t : Scan) : Slot → Bool
  | .operand => t.hasOperand
  | .value .output => t.output.isSome
  | .value .format => t.format.isSome
  | .value .config => t.config.isSome
  | .value .namePrefix => t.namePrefix.isSome
  | .switch .inlineRefs => t.inlineRefs
  | .switch .noExport => t.noExport
  | .switch .typedAliases => t.typedAliases

/-- The scan after an assignment. -/
def put (t : Scan) : Assignment → Scan
  | .operand word => { t with input := some word, hasOperand := true }
  | .value .output x => { t with output := some x }
  | .value .format x => { t with format := (formatNamed x).toOption }
  | .value .config x => { t with config := some x }
  | .value .namePrefix x => { t with namePrefix := some x }
  | .switch .inlineRefs => { t with inlineRefs := true }
  | .switch .noExport => { t with noExport := true }
  | .switch .typedAliases => { t with typedAliases := true }
  | .verbose => { t with verbosity := min 255 (t.verbosity + 1) }

/-- Makes an assignment, if its value is admitted and its slot is free. -/
def take? (t : Scan) (a : Assignment) : Option Scan :=
  if a.isAdmitted && a.slot?.all (!t.isFilled ·) then some (t.put a) else none

/-- Makes assignments one after another. -/
def takeAll (x : Option Scan) (as : List Assignment) : Option Scan :=
  as.foldl (fun x a => x.bind (·.take? a)) x

variable {t t' : Scan} {a b : Assignment} {as bs : List Assignment}

theorem takeAll_append (x : Option Scan) (as bs : List Assignment) :
    takeAll x (as ++ bs) = takeAll (takeAll x as) bs :=
  List.foldl_append

theorem takeAll_none (as : List Assignment) : takeAll none as = none := by
  induction as with
  | nil => rfl
  | cons a as ih => exact ih

/-! ### Two assignments -/

/-- An assignment fills its own slot and no other. -/
theorem isFilled_put (h : a.isAdmitted = true) (p : Slot) :
    (t.put a).isFilled p = (t.isFilled p || a.slot? = some p) := by
  rcases a with word | ⟨o, x⟩ | s | _
  · rcases p with _ | ⟨_ | _ | _ | _⟩ | ⟨_ | _ | _⟩ <;> simp [put, isFilled, Assignment.slot?]
  · cases o
    case format =>
      have hsome : (formatNamed x).toOption.isSome = true := by
        rw [Assignment.isAdmitted] at h
        cases hx : formatNamed x with
        | error e => simp [hx, Except.isOk, Except.toBool] at h
        | ok f => rfl
      rcases p with _ | ⟨_ | _ | _ | _⟩ | ⟨_ | _ | _⟩ <;>
        simp [put, isFilled, Assignment.slot?, hsome]
    all_goals
      rcases p with _ | ⟨_ | _ | _ | _⟩ | ⟨_ | _ | _⟩ <;> simp [put, isFilled, Assignment.slot?]
  · cases s <;> rcases p with _ | ⟨_ | _ | _ | _⟩ | ⟨_ | _ | _⟩ <;>
      simp [put, isFilled, Assignment.slot?]
  · simp [put, isFilled, Assignment.slot?]

/-- Assignments to different slots may change places. -/
theorem put_comm (h : ∀ p, a.slot? = some p → b.slot? ≠ some p) :
    (t.put a).put b = (t.put b).put a := by
  rcases a with word | ⟨o, x⟩ | s | _
  · rcases b with word' | ⟨o', x'⟩ | s' | _
    · exact absurd rfl (h .operand rfl)
    · cases o' <;> rfl
    · cases s' <;> rfl
    · rfl
  · rcases b with word' | ⟨o', x'⟩ | s' | _
    · cases o <;> rfl
    · have hne : o ≠ o' := fun he => h (.value o) rfl (he ▸ rfl)
      cases o <;> cases o' <;> first | rfl | exact absurd rfl hne
    · cases o <;> cases s' <;> rfl
    · cases o <;> rfl
  · rcases b with word' | ⟨o', x'⟩ | s' | _
    · cases s <;> rfl
    · cases s <;> cases o' <;> rfl
    · cases s <;> cases s' <;> rfl
    · cases s <;> rfl
  · rcases b with word' | ⟨o', x'⟩ | s' | _
    · rfl
    · cases o' <;> rfl
    · cases s' <;> rfl
    · rfl

theorem take?_eq_some_iff :
    t.take? a = some t' ↔
      (a.isAdmitted = true ∧ ∀ p, a.slot? = some p → t.isFilled p = false) ∧ t.put a = t' := by
  have hfree : a.slot?.all (!t.isFilled ·) = true ↔
      ∀ p, a.slot? = some p → t.isFilled p = false := by
    cases a.slot? <;> simp
  rw [take?, ← hfree, ← Bool.and_eq_true]
  split
  · rename_i h
    simp [h]
  · rename_i h
    simp [h]

/-- If two assignments can be made, they can be made the other way round, with
the same outcome: the first leaves the slot of the second as it was, so their
slots differ. -/
theorem take?_swap {u : Scan} (hu : t.take? a = some u) (h : u.take? b = some t') :
    ∃ u', t.take? b = some u' ∧ u'.take? a = some t' := by
  obtain ⟨⟨ha, hafree⟩, rfl⟩ := take?_eq_some_iff.1 hu
  obtain ⟨⟨hb, hbfree⟩, rfl⟩ := take?_eq_some_iff.1 h
  have hslots : ∀ p, b.slot? = some p → t.isFilled p = false ∧ a.slot? ≠ some p := by
    intro p hp
    have hp := hbfree p hp
    rw [isFilled_put ha, Bool.or_eq_false_iff, decide_eq_false_iff_not] at hp
    exact hp
  refine ⟨t.put b, take?_eq_some_iff.2 ⟨⟨hb, fun p hp => (hslots p hp).1⟩, rfl⟩, ?_⟩
  refine take?_eq_some_iff.2 ⟨⟨ha, fun p hp => ?_⟩, put_comm fun p hp => (hslots p hp).2⟩
  rw [isFilled_put hb, hafree p hp, Bool.false_or, decide_eq_false_iff_not]
  exact fun hbp => (hslots p hbp).2 hp

/-- Two assignments may change places. -/
theorem take?_comm (t : Scan) (a b : Assignment) :
    (t.take? a).bind (·.take? b) = (t.take? b).bind (·.take? a) := by
  refine Option.ext fun t' => ?_
  rw [Option.bind_eq_some_iff, Option.bind_eq_some_iff]
  constructor
  · rintro ⟨u, hu, h⟩
    exact take?_swap hu h
  · rintro ⟨u, hu, h⟩
    exact take?_swap hu h

/-! ### Lists of assignments -/

/-- What comes of assignments does not depend on their order. -/
theorem takeAll_perm (h : as.Perm bs) (x : Option Scan) : takeAll x as = takeAll x bs := by
  refine h.foldl_eq' (fun a _ b _ x => ?_) x
  cases x with
  | none => rfl
  | some t => exact take?_comm t a b

/-- What holds of an empty scan and is kept by each assignment holds after a
list of assignments. -/
theorem takeAll_induction {P : List Assignment → Scan → Prop} (hnil : P [] {})
    (hstep : ∀ as a t t', P as t → t.take? a = some t' → P (as ++ [a]) t')
    (h : takeAll (some {}) as = some t) : P as t := by
  induction as using List.reverseRecOn generalizing t with
  | nil =>
    cases h
    exact hnil
  | append_singleton as a ih =>
    rw [takeAll_append] at h
    obtain ⟨u, hu, ha⟩ := Option.bind_eq_some_iff.1 h
    exact hstep as a u t (ih hu) ha

/-- A slot is filled exactly if something was assigned to it. -/
theorem isFilled_takeAll (h : takeAll (some {}) as = some t) (p : Slot) :
    t.isFilled p = true ↔ ∃ a ∈ as, a.slot? = some p := by
  refine takeAll_induction (P := fun as t => t.isFilled p = true ↔ ∃ a ∈ as, a.slot? = some p)
    ?_ (fun as a t t' ih ha => ?_) h
  · rcases p with _ | ⟨_ | _ | _ | _⟩ | ⟨_ | _ | _⟩ <;> simp [isFilled]
  · obtain ⟨⟨hadmitted, -⟩, rfl⟩ := take?_eq_some_iff.1 ha
    rw [isFilled_put hadmitted, Bool.or_eq_true, ih, decide_eq_true_eq]
    simp [or_and_right, exists_or]

/-- A switch is on exactly if it was set. -/
theorem switch_takeAll (h : takeAll (some {}) as = some t) (s : Switch) :
    t.isFilled (.switch s) = decide (.switch s ∈ as) := by
  rw [Bool.eq_iff_iff, decide_eq_true_iff, isFilled_takeAll h]
  constructor
  · rintro ⟨a, ha, hslot⟩
    cases a with
    | switch s' =>
      cases hslot
      exact ha
    | operand _ => cases hslot
    | value _ _ => cases hslot
    | verbose => cases hslot
  · intro hs
    exact ⟨_, hs, rfl⟩

/-- The prefix is the one that was assigned. -/
theorem namePrefix_takeAll (h : takeAll (some {}) as = some t) (x : String) :
    t.namePrefix = some x ↔ .value .namePrefix x ∈ as := by
  refine takeAll_induction (P := fun as t => t.namePrefix = some x ↔ .value .namePrefix x ∈ as)
    (by simp) (fun as a t t' ih ha => ?_) h
  obtain ⟨⟨-, hfree⟩, rfl⟩ := take?_eq_some_iff.1 ha
  rw [List.mem_append, List.mem_singleton, ← ih]
  by_cases hslot : a.slot? = some (.value .namePrefix)
  · -- The slot was free, so what is there is what has just come.
    have hnone : t.namePrefix = none := by simpa [isFilled] using hfree _ hslot
    obtain ⟨y, rfl⟩ : ∃ y, a = .value .namePrefix y := by
      cases a with
      | value o y => cases hslot; exact ⟨y, rfl⟩
      | operand _ => cases hslot
      | switch _ => cases hslot
      | verbose => cases hslot
    simp [put, hnone, eq_comm]
  · have hkept : (t.put a).namePrefix = t.namePrefix := by
      rcases a with _ | ⟨_ | _ | _ | _, _⟩ | ⟨_ | _ | _⟩ | _ <;> first | rfl | exact absurd rfl hslot
    have hne : Assignment.value .namePrefix x ≠ a := fun he => hslot (he ▸ rfl)
    simp [hkept, hne]

/-- The log output is raised as often as that is asked for, up to 255 times. -/
theorem verbosity_takeAll (h : takeAll (some {}) as = some t) :
    t.verbosity = min (as.count .verbose) 255 := by
  refine takeAll_induction (P := fun as t => t.verbosity = min (as.count .verbose) 255) rfl
    (fun as a t t' ih ha => ?_) h
  obtain ⟨-, rfl⟩ := take?_eq_some_iff.1 ha
  rw [List.count_append, List.count_singleton]
  by_cases hverbose : a = .verbose
  · subst hverbose
    simp only [put, ih, beq_self_eq_true, if_true]
    omega
  · have hkept : (t.put a).verbosity = t.verbosity := by
      rcases a with _ | ⟨_ | _ | _ | _, _⟩ | ⟨_ | _ | _⟩ | _ <;>
        first | rfl | exact absurd rfl hverbose
    rw [hkept, ih, beq_false_of_ne hverbose]
    simp

end Scan
end SchemaTypes.CommandLine
