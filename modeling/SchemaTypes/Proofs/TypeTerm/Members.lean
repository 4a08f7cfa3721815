/-
# Types in which every union and intersection has members

A union without members is written `never` and an intersection without
members `unknown`. Neither word matters to a type that has no such union or
intersection anywhere in it: `textWith` writes a type with two other words in
their places, and such a type is written in the same way whatever these are.

Key definitions: `TypeTerm.EmptyWords`, `TypeTerm.textWith`.
Key theorems: `TypeTerm.textWith_standard`,
`TypeTerm.HasMembers.textWith_eq_text`.
-/
import SchemaTypes.Proofs.TypeTerm.Position
import SchemaTypes.TypeTerm

namespace SchemaTypes.TypeTerm

/-- How a union and an intersection without members are written. -/
structure EmptyWords where
  union : String
  intersection : String

/-- The words of TypeScript. -/
def EmptyWords.standard : EmptyWords where
  union := "never"
  intersection := "unknown"

mutual

/-- The text of a type at a depth of nesting, with the words for unions and
intersections without members. -/
def textWith (words : EmptyWords) (depth : Nat) : TypeTerm → String
  | .any => "any"
  | .number => "number"
  | .string => "string"
  | .boolean => "boolean"
  | .record => "Record<string, any>"
  | .literal t => t
  | .named n => n
  | .array t => parenthesized t.isCompound (textWith words depth t) ++ "[]"
  | .object fs => braced depth (fieldLinesWith words (depth + 1) fs)
  | .union ms => if ms.isEmpty then words.union else " | ".intercalate (textsWith words depth ms)
  | .intersection ms =>
    if ms.isEmpty then words.intersection
    else " & ".intercalate (operandTextsWith words depth ms)

/-- The texts of the members of a union. -/
def textsWith (words : EmptyWords) (depth : Nat) : List TypeTerm → List String
  | [] => []
  | t :: ts => textWith words depth t :: textsWith words depth ts

/-- The texts of the members of an intersection. -/
def operandTextsWith (words : EmptyWords) (depth : Nat) : List TypeTerm → List String
  | [] => []
  | t :: ts =>
    parenthesized t.isProperUnion (textWith words depth t) :: operandTextsWith words depth ts

/-- The lines of fields that stand at a depth of nesting. -/
def fieldLinesWith (words : EmptyWords) (depth : Nat) : List (FieldOf TypeTerm) → List String
  | [] => []
  | ⟨key, isOptional, t⟩ :: fs =>
    (indent depth ++ key ++ (if isOptional then "?: " else ": ") ++ textWith words depth t ++ ";")
      :: fieldLinesWith words depth fs

end

variable {words words' : EmptyWords} {depth : Nat}

/-! ### List by list -/

theorem textsWith_congr {ts : List TypeTerm}
    (h : ∀ t ∈ ts, t.textWith words depth = t.textWith words' depth) :
    textsWith words depth ts = textsWith words' depth ts := by
  induction ts with
  | nil => rfl
  | cons t ts ih =>
    rw [List.forall_mem_cons] at h
    rw [textsWith, textsWith, h.1, ih h.2]

theorem operandTextsWith_congr {ts : List TypeTerm}
    (h : ∀ t ∈ ts, t.textWith words depth = t.textWith words' depth) :
    operandTextsWith words depth ts = operandTextsWith words' depth ts := by
  induction ts with
  | nil => rfl
  | cons t ts ih =>
    rw [List.forall_mem_cons] at h
    rw [operandTextsWith, operandTextsWith, h.1, ih h.2]

theorem fieldLinesWith_congr {fs : List Field}
    (h : ∀ f ∈ fs, f.type.textWith words depth = f.type.textWith words' depth) :
    fieldLinesWith words depth fs = fieldLinesWith words' depth fs := by
  induction fs with
  | nil => rfl
  | cons f fs ih =>
    obtain ⟨key, isOptional, t⟩ := f
    rw [List.forall_mem_cons] at h
    rw [fieldLinesWith, fieldLinesWith, h.1, ih h.2]

/-! ### The words of TypeScript -/

mutual

/-- The words of TypeScript give the text of a type. -/
theorem textWith_standard (depth : Nat) : ∀ t : TypeTerm, t.textWith .standard depth = t.text depth
  | .any | .number | .string | .boolean | .record | .literal _ | .named _ => rfl
  | .array t => by rw [textWith, text, textWith_standard depth t]
  | .object fs => by rw [textWith, text, fieldLinesWith_standard (depth + 1) fs]
  | .union ms => by
    rw [textWith, text, textsWith_standard depth ms]
    rfl
  | .intersection ms => by
    rw [textWith, text, operandTextsWith_standard depth ms]
    rfl

theorem textsWith_standard (depth : Nat) :
    ∀ ts : List TypeTerm, textsWith .standard depth ts = texts depth ts
  | [] => rfl
  | t :: ts => by rw [textsWith, texts, textWith_standard depth t, textsWith_standard depth ts]

theorem operandTextsWith_standard (depth : Nat) :
    ∀ ts : List TypeTerm, operandTextsWith .standard depth ts = operandTexts depth ts
  | [] => rfl
  | t :: ts => by
    rw [operandTextsWith, operandTexts, textWith_standard depth t,
      operandTextsWith_standard depth ts]

theorem fieldLinesWith_standard (depth : Nat) :
    ∀ fs : List (FieldOf TypeTerm), fieldLinesWith .standard depth fs = fieldLines depth fs
  | [] => rfl
  | ⟨_, _, t⟩ :: fs => by
    rw [fieldLinesWith, fieldLines, textWith_standard depth t, fieldLinesWith_standard depth fs]

end

/-! ### Types with members -/

theorem hasMembers_iff {t : TypeTerm} :
    t.HasMembers ↔ (t ≠ .union [] ∧ t ≠ .intersection []) ∧ ∀ u ∈ t.children, u.HasMembers :=
  forall_subterm?_iff

/-- The words for unions and intersections without members do not matter to a
type that has none. -/
theorem HasMembers.textWith_congr {t : TypeTerm} (h : t.HasMembers) (words words' : EmptyWords) :
    ∀ depth, t.textWith words depth = t.textWith words' depth := by
  induction t using child_induction with
  | step t ih =>
    obtain ⟨⟨hunion, hintersection⟩, hchildren⟩ := hasMembers_iff.1 h
    have ih : ∀ u ∈ t.children, ∀ depth, u.textWith words depth = u.textWith words' depth :=
      fun u hu => ih u hu (hchildren u hu)
    intro depth
    cases t with
    | array t => rw [textWith, textWith, ih t (List.mem_singleton_self t)]
    | object fs =>
      have hfields : ∀ f ∈ fs, f.type.textWith words (depth + 1) =
          f.type.textWith words' (depth + 1) :=
        fun f hf => ih f.type (List.mem_map_of_mem hf) (depth + 1)
      rw [textWith, textWith, fieldLinesWith_congr hfields]
    | union ms =>
      have hne : ¬ ms.isEmpty = true := fun he => hunion (by rw [List.isEmpty_iff.1 he])
      have hms : ∀ m ∈ ms, m.textWith words depth = m.textWith words' depth :=
        fun m hm => ih m hm depth
      rw [textWith, textWith, if_neg hne, if_neg hne, textsWith_congr hms]
    | intersection ms =>
      have hne : ¬ ms.isEmpty = true := fun he => hintersection (by rw [List.isEmpty_iff.1 he])
      have hms : ∀ m ∈ ms, m.textWith words depth = m.textWith words' depth :=
        fun m hm => ih m hm depth
      rw [textWith, textWith, if_neg hne, if_neg hne, operandTextsWith_congr hms]
    | _ => rfl

/-- **A type with members is written without the words for an empty union or
intersection**: any other words give its text as well. -/
theorem HasMembers.textWith_eq_text {t : TypeTerm} (h : t.HasMembers) (words : EmptyWords)
    (depth : Nat) : t.textWith words depth = t.text depth := by
  rw [h.textWith_congr words .standard, textWith_standard]

end SchemaTypes.TypeTerm
