/-
# An object key tells the name of its property

A property name is its own key if it is a bare name: a letter or an underscore
of ASCII, then letters, digits and underscores of ASCII up to its very end. Any
other name is written between quotes. A key that begins with a quote is never a
bare name, so it can be told how a key is to be read, and reading it gives the
name: two properties with the same key are the same.

Key definitions: `Identifier.BareName`, `Identifier.Quotes`,
`Identifier.keyName?`.
Key theorems: `Identifier.isBare_iff`, `Identifier.propertyKey_cases`,
`Identifier.keyName?_propertyKey`, `Identifier.propertyKey_injective`.
-/
import Mathlib
import SchemaTypes.Identifier
import SchemaTypes.Proofs.Json.Quoted

namespace SchemaTypes.Identifier

/-- A letter of ASCII or an underscore. -/
def BareStart (c : Char) : Prop :=
  ('A' ≤ c ∧ c ≤ 'Z') ∨ ('a' ≤ c ∧ c ≤ 'z') ∨ c = '_'

/-- A letter of ASCII, a digit of ASCII or an underscore. -/
def BarePart (c : Char) : Prop :=
  BareStart c ∨ ('0' ≤ c ∧ c ≤ '9')

/-- A letter or an underscore and then, to the end of the name, letters, digits
and underscores. -/
def BareName (name : String) : Prop :=
  ∃ c cs, name.toList = c :: cs ∧ BareStart c ∧ ∀ d ∈ cs, BarePart d

/-- The key is a text between quotes that is read as the name and has no
control character in it as it is. -/
structure Quotes (key name : String) : Prop where
  parsed : Json.parse key = .ok (.string name)
  delimited : ∃ cs, key.toList = '"' :: cs ++ ['"']
  printable : ∀ c ∈ key.toList, 0x20 ≤ c.toNat

/-- The property name that is read from a key. -/
def keyName? (key : String) : Option String :=
  if key.toList.head? = some '"' then
    match Json.parse key with
    | .ok (.string name) => some name
    | _ => none
  else if isBare key then some key
  else none

variable {name key : String} {c : Char}

/-! ### Bare names -/

theorem bareStart_iff : (c.isAlpha || c = '_') = true ↔ BareStart c := by
  simp only [Char.isAlpha, Char.isUpper, Char.isLower, BareStart, Char.le_def, Bool.or_eq_true,
    Bool.and_eq_true, decide_eq_true_eq, or_assoc, ge_iff_le]

theorem isWordChar_iff : isWordChar c = true ↔ BarePart c := by
  have hdigit : c.isDigit = true ↔ '0' ≤ c ∧ c ≤ '9' := by
    simp only [Char.isDigit, Char.le_def, Bool.and_eq_true, decide_eq_true_eq, ge_iff_le]
  rw [isWordChar, BarePart, ← bareStart_iff, ← hdigit, Char.isAlphanum]
  simp only [Bool.or_eq_true, or_right_comm]

/-- A name is kept as its key exactly if it is bare. -/
theorem isBare_iff : isBare name = true ↔ BareName name := by
  rw [isBare, BareName]
  cases name.toList with
  | nil => simp
  | cons c cs =>
    rw [Bool.and_eq_true, bareStart_iff, List.all_eq_true]
    simp only [isWordChar_iff, List.cons.injEq]
    constructor
    · rintro ⟨hc, hcs⟩
      exact ⟨c, cs, ⟨rfl, rfl⟩, hc, hcs⟩
    · rintro ⟨_, _, ⟨rfl, rfl⟩, hc, hcs⟩
      exact ⟨hc, hcs⟩

/-! ### Keys -/

theorem quotes_quote (name : String) : Quotes (Text.quote name) name where
  parsed := Json.parse_quote name
  delimited := ⟨name.toList.flatMap Text.escape, by rw [Text.quote, String.toList_ofList]⟩
  printable := fun _ hc => Text.le_of_mem_quote hc

/-- A key is the name itself if the name is bare, and the quoted name if not. -/
theorem propertyKey_cases (name : String) :
    (BareName name ∧ propertyKey name = name) ∨
      (¬ BareName name ∧ Quotes (propertyKey name) name) := by
  rw [← isBare_iff, propertyKey]
  by_cases hbare : isBare name = true
  · rw [if_pos hbare]
    exact .inl ⟨hbare, rfl⟩
  · rw [if_neg hbare]
    exact .inr ⟨hbare, quotes_quote name⟩

theorem keyName?_of_bareName (h : BareName name) : keyName? name = some name := by
  have hquote : ¬ name.toList.head? = some '"' := by
    obtain ⟨c, cs, hname, hc, -⟩ := h
    rw [hname, List.head?_cons, Option.some.injEq]
    rintro rfl
    exact absurd (bareStart_iff.2 hc) (by decide)
  rw [keyName?, if_neg hquote, if_pos (isBare_iff.2 h)]

theorem keyName?_of_quotes (h : Quotes key name) : keyName? key = some name := by
  obtain ⟨cs, hcs⟩ := h.delimited
  have hquote : key.toList.head? = some '"' := by
    rw [hcs]
    rfl
  rw [keyName?, if_pos hquote, h.parsed]

/-- **A key is read back as the name of its property.** -/
theorem keyName?_propertyKey (name : String) : keyName? (propertyKey name) = some name := by
  obtain ⟨hbare, hkey⟩ | ⟨-, hkey⟩ := propertyKey_cases name
  · rw [hkey]
    exact keyName?_of_bareName hbare
  · exact keyName?_of_quotes hkey

/-- No two names have the same key. -/
theorem propertyKey_injective : Function.Injective propertyKey := by
  intro name name' h
  have hname := keyName?_propertyKey name
  rw [h, keyName?_propertyKey, Option.some.injEq] at hname
  exact hname.symm

end SchemaTypes.Identifier
