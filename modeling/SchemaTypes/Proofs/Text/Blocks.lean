/-
# Blocks between blank lines

A blank line is two line feeds in a row. A text is solid if it has no blank
line and no line feed at its ends. Texts on one line are solid, solid texts
are when they are put behind each other, and lines that are solid and not
empty are when they are joined by line feeds.

`blocks` splits a text at every blank line, from the left. If solid texts are
joined by blank lines, they are the blocks (`blocks_intercalate`).

Key definitions: `blocks`, `OnOneLine`, `Solid`, `IsBlock`.
Key theorems: `Solid.append`, `Solid.lineFeed`, `intercalate_induction`,
`blocks_intercalate`.
-/
import Mathlib.Data.List.Chain

namespace SchemaTypes.Text

/-- The pieces of a text between blank lines. -/
def splitBlank : List Char → List (List Char)
  | c :: d :: cs =>
    if c = '\n' ∧ d = '\n' then [] :: splitBlank cs
    else (splitBlank (d :: cs)).modifyHead (c :: ·)
  | cs => [cs]

/-- The blocks of a text between blank lines. -/
def blocks (text : String) : List String :=
  (splitBlank text.toList).map String.ofList

/-- The text has no line feed in it. -/
def OnOneLine (s : String) : Prop :=
  '\n' ∉ s.toList

/-- The text has no blank line in it and no line feed at its ends. -/
structure Solid (s : String) : Prop where
  apart : s.toList.IsChain fun a b => ¬ (a = '\n' ∧ b = '\n')
  head : s.toList.head? ≠ some '\n'
  last : s.toList.getLast? ≠ some '\n'

/-- The text is solid and not empty. -/
structure IsBlock (s : String) : Prop extends Solid s where
  nonempty : s ≠ ""

variable {s t sep : String} {l : List String}

/-! ### Texts put together -/

theorem OnOneLine.append (h : OnOneLine s) (h' : OnOneLine t) : OnOneLine (s ++ t) := by
  unfold OnOneLine at *
  simp [h, h']

theorem OnOneLine.solid (h : OnOneLine s) : Solid s where
  apart := by
    refine List.isChain_iff_getElem.2 fun i hi hline => h ?_
    rw [← hline.1]
    exact List.getElem_mem _
  head hs := h (List.mem_of_head? hs)
  last hs := h (List.mem_of_getLast? hs)

/-- There is no blank line in a solid text. -/
theorem Solid.not_infix (h : Solid s) : ¬ ['\n', '\n'] <:+: s.toList := by
  intro hs
  have hpair := h.apart.infix hs
  rw [List.isChain_cons_cons] at hpair
  exact hpair.1 ⟨rfl, rfl⟩

/-- Solid texts behind each other are solid. -/
theorem Solid.append (h : Solid s) (h' : Solid t) : Solid (s ++ t) where
  apart := by
    rw [String.toList_append, List.isChain_append]
    refine ⟨h.apart, h'.apart, fun a ha b hb hline => h.last ?_⟩
    rw [← hline.1]
    exact ha
  head := by
    rw [String.toList_append, List.head?_append]
    cases hs : s.toList.head? with
    | none => exact h'.head
    | some c =>
      rw [Option.some_or, ← hs]
      exact h.head
  last := by
    rw [String.toList_append, List.getLast?_append]
    cases ht : t.toList.getLast? with
    | none => exact h.last
    | some c =>
      rw [Option.some_or, ← ht]
      exact h'.last

theorem IsBlock.append (h : IsBlock s) (h' : Solid t) : IsBlock (s ++ t) where
  toSolid := h.toSolid.append h'
  nonempty hst := h.nonempty (String.append_eq_empty_iff.1 hst).1

theorem Solid.append_isBlock (h : Solid s) (h' : IsBlock t) : IsBlock (s ++ t) where
  toSolid := h.append h'.toSolid
  nonempty hst := h'.nonempty (String.append_eq_empty_iff.1 hst).2

/-- Blocks joined by a line feed are a block. -/
theorem IsBlock.lineFeed (h : IsBlock s) (h' : IsBlock t) : IsBlock (s ++ "\n" ++ t) := by
  have htext : (s ++ "\n" ++ t).toList = s.toList ++ '\n' :: t.toList := by
    rw [String.toList_append, String.toList_append, List.append_assoc]
    rfl
  have hs : s.toList ≠ [] := fun hs => h.nonempty (String.toList_eq_nil_iff.1 hs)
  have ht : t.toList ≠ [] := fun ht => h'.nonempty (String.toList_eq_nil_iff.1 ht)
  refine ⟨⟨?_, ?_, ?_⟩, fun hst => h'.nonempty (String.append_eq_empty_iff.1 hst).2⟩
  · rw [htext, List.isChain_append, List.isChain_cons]
    refine ⟨h.apart, ⟨fun b hb hline => h'.head ?_, h'.apart⟩, fun a ha _ _ hline => h.last ?_⟩
    · rw [← hline.2]
      exact hb
    · rw [← hline.1]
      exact ha
  · rw [htext, List.head?_append_of_ne_nil _ hs]
    exact h.head
  · rw [htext, List.getLast?_append, List.getLast?_cons_of_ne_nil ht]
    cases hlast : t.toList.getLast? with
    | none => exact absurd (List.getLast?_eq_none_iff.1 hlast) ht
    | some c =>
      rw [Option.some_or, ← hlast]
      exact h'.last

/-- What holds of texts joined in pairs, if it holds of the texts, holds of any
number of them joined. -/
theorem intercalate_induction {motive : String → Prop} (hne : l ≠ [])
    (join : ∀ s t, motive s → motive t → motive (s ++ sep ++ t)) (h : ∀ s ∈ l, motive s) :
    motive (sep.intercalate l) := by
  induction l with
  | nil => exact absurd rfl hne
  | cons s l ih =>
    rw [List.forall_mem_cons] at h
    cases l with
    | nil =>
      rw [String.intercalate_singleton]
      exact h.1
    | cons t l =>
      rw [String.intercalate_cons_cons]
      exact join _ _ h.1 (ih (List.cons_ne_nil t l) h.2)

theorem solid_intercalate (hsep : Solid sep) (h : ∀ s ∈ l, Solid s) : Solid (sep.intercalate l) := by
  by_cases hne : l = []
  · rw [hne, String.intercalate_nil]
    exact OnOneLine.solid (by simp [OnOneLine])
  · exact intercalate_induction hne (fun _ _ hs ht => (hs.append hsep).append ht) h

/-- Lines that are blocks are one block together. -/
theorem isBlock_lines (hne : l ≠ []) (h : ∀ s ∈ l, IsBlock s) : IsBlock ("\n".intercalate l) :=
  intercalate_induction hne (fun _ _ hs ht => hs.lineFeed ht) h

/-! ### Splitting -/

/-- A piece ends where the first blank line stands. -/
theorem splitBlank_append {cs : List Char} (hapart : cs.IsChain fun a b => ¬ (a = '\n' ∧ b = '\n'))
    (hlast : cs.getLast? ≠ some '\n') (rest : List Char) :
    splitBlank (cs ++ '\n' :: '\n' :: rest) = cs :: splitBlank rest := by
  induction cs with
  | nil => rw [List.nil_append, splitBlank, if_pos ⟨rfl, rfl⟩]
  | cons c cs ih =>
    cases cs with
    | nil =>
      have hc : ¬ (c = '\n' ∧ '\n' = '\n') := fun hline => hlast (by rw [hline.1]; rfl)
      rw [List.singleton_append, splitBlank, if_neg hc, splitBlank, if_pos ⟨rfl, rfl⟩]
      rfl
    | cons d cs =>
      rw [List.isChain_cons_cons] at hapart
      rw [List.getLast?_cons_cons] at hlast
      rw [List.cons_append, List.cons_append, splitBlank, if_neg hapart.1, ← List.cons_append,
        ih hapart.2 hlast]
      rfl

theorem splitBlank_of_solid {cs : List Char} (hapart : cs.IsChain fun a b => ¬ (a = '\n' ∧ b = '\n')) :
    splitBlank cs = [cs] := by
  induction cs with
  | nil => rfl
  | cons c cs ih =>
    cases cs with
    | nil => rfl
    | cons d cs =>
      rw [List.isChain_cons_cons] at hapart
      rw [splitBlank, if_neg hapart.1, ih hapart.2]
      rfl

/-- **Solid texts joined by blank lines are the blocks of what they make.** -/
theorem blocks_intercalate (hne : l ≠ []) (h : ∀ s ∈ l, Solid s) :
    blocks ("\n\n".intercalate l) = l := by
  unfold blocks
  induction l with
  | nil => exact absurd rfl hne
  | cons s l ih =>
    rw [List.forall_mem_cons] at h
    cases l with
    | nil =>
      rw [String.intercalate_singleton, splitBlank_of_solid h.1.apart, List.map_singleton,
        String.ofList_toList]
    | cons t l =>
      have htext : ("\n\n".intercalate (s :: t :: l)).toList =
          s.toList ++ '\n' :: '\n' :: ("\n\n".intercalate (t :: l)).toList := by
        rw [String.intercalate_cons_cons, String.toList_append, String.toList_append,
          List.append_assoc]
        rfl
      rw [htext, splitBlank_append h.1.apart h.1.last, List.map_cons, String.ofList_toList,
        ih (List.cons_ne_nil t l) h.2]

end SchemaTypes.Text
