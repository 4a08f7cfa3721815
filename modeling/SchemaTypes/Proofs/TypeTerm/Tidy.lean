/-
# The text of a type has no blank line

The labels of a type are the texts that it brings into its own text: a
literal, a declared name, the keys of its fields. A type is tidy if all the
labels in it, at any depth, stand on one line. Then its text is solid at
every depth of nesting: line feeds only stand around the lines of an object
type, and each of these lines ends in a semicolon.

Key definitions: `TypeTerm.labels`, `TypeTerm.Tidy`.
Key theorems: `isBlock_braced`, `TypeTerm.solid_text`.
-/
import SchemaTypes.Proofs.Text.OneLine
import SchemaTypes.Proofs.TypeTerm.Position
import SchemaTypes.TypeTerm

namespace SchemaTypes

open Text (OnOneLine Solid IsBlock)

/-! ### Lines between braces -/

theorem onOneLine_indent (depth : Nat) : OnOneLine (indent depth) := by
  refine Text.onOneLine_ofList fun hline => ?_
  have := List.eq_of_mem_replicate hline
  revert this
  decide

theorem Text.OnOneLine.isBlock {s : String} (h : OnOneLine s) (hne : s ≠ "") : IsBlock s :=
  ⟨h.solid, hne⟩

/-- Lines that are blocks are a block between braces. -/
theorem isBlock_braced (depth : Nat) {lines : List String} (h : ∀ l ∈ lines, IsBlock l) :
    IsBlock (braced depth lines) := by
  unfold braced
  by_cases hne : lines = []
  · rw [hne, List.isEmpty_nil, if_pos rfl]
    exact OnOneLine.isBlock (by decide) (by decide)
  · have hopen : IsBlock "\x7b" := OnOneLine.isBlock (by decide) (by decide)
    have hlines : IsBlock ("\n".intercalate lines) := Text.isBlock_lines hne h
    have hclose : IsBlock (indent depth ++ "\x7d") :=
      (onOneLine_indent depth).solid.append_isBlock (OnOneLine.isBlock (by decide) (by decide))
    have hbraces := (hopen.lineFeed hlines).lineFeed hclose
    rw [if_neg (by simpa using hne)]
    rw [← String.append_assoc] at hbraces
    exact hbraces

theorem solid_parenthesized {s : String} (needed : Bool) (h : Solid s) :
    Solid (parenthesized needed s) := by
  unfold parenthesized
  cases needed with
  | false => exact h
  | true =>
    have hopen : Solid "(" := OnOneLine.solid (by decide)
    have hclose : Solid ")" := OnOneLine.solid (by decide)
    exact (hopen.append h).append hclose

namespace TypeTerm

/-- The texts that a type brings into its own text. -/
def labels : TypeTerm → List String
  | .literal t => [t]
  | .named n => [n]
  | .object fs => fs.map FieldOf.key
  | _ => []

/-- The labels in the type stand on one line each. -/
inductive Tidy : TypeTerm → Prop
  | intro {t : TypeTerm} (hlabels : ∀ x ∈ t.labels, OnOneLine x)
      (hchildren : ∀ u ∈ t.children, Tidy u) : Tidy t

theorem Tidy.of_children {t : TypeTerm} (h : t.labels = []) (hchildren : ∀ u ∈ t.children, Tidy u) :
    Tidy t := by
  refine .intro (fun x hx => ?_) hchildren
  rw [h] at hx
  cases hx

/-- A type without children is tidy if its labels stand on one line each. -/
theorem Tidy.of_labels {t : TypeTerm} (h : t.children = []) (hlabels : ∀ x ∈ t.labels, OnOneLine x) :
    Tidy t := by
  refine .intro hlabels fun u hu => ?_
  rw [h] at hu
  cases hu

/-- A type without labels and children is tidy. -/
theorem Tidy.of_nil {t : TypeTerm} (h : t.labels = []) (h' : t.children = []) : Tidy t := by
  refine .of_children h fun u hu => ?_
  rw [h'] at hu
  cases hu

theorem texts_eq (depth : Nat) (ts : List TypeTerm) : texts depth ts = ts.map (text depth) := by
  induction ts with
  | nil => rfl
  | cons t ts ih => rw [texts, ih, List.map_cons]

theorem operandTexts_eq (depth : Nat) (ts : List TypeTerm) :
    operandTexts depth ts = ts.map fun t => parenthesized t.isProperUnion (text depth t) := by
  induction ts with
  | nil => rfl
  | cons t ts ih => rw [operandTexts, ih, List.map_cons]

/-- The line of a field ends in a semicolon and is a block if its type is
solid. -/
theorem isBlock_fieldLines {fs : List Field} {depth : Nat} (hkey : ∀ f ∈ fs, OnOneLine f.key)
    (h : ∀ f ∈ fs, Solid (f.type.text depth)) : ∀ l ∈ fieldLines depth fs, IsBlock l := by
  induction fs with
  | nil => exact nofun
  | cons f fs ih =>
    obtain ⟨key, isOptional, t⟩ := f
    rw [List.forall_mem_cons] at hkey h
    rw [fieldLines, List.forall_mem_cons]
    refine ⟨?_, ih hkey.2 h.2⟩
    have hcolon : OnOneLine (if isOptional then "?: " else ": ") := by
      cases isOptional <;> decide
    have hhead := ((onOneLine_indent depth).append hkey.1).append hcolon
    have hend : IsBlock ";" := OnOneLine.isBlock (by decide) (by decide)
    exact (hhead.solid.append h.1).append_isBlock hend

/-- **The text of a tidy type is solid**, at every depth of nesting. -/
theorem solid_text {t : TypeTerm} (h : t.Tidy) (depth : Nat) : Solid (t.text depth) := by
  induction h generalizing depth with
  | @intro t hlabels _ ih =>
    cases t with
    | literal x => exact (hlabels x (List.mem_singleton_self x)).solid
    | named x => exact (hlabels x (List.mem_singleton_self x)).solid
    | array u =>
      have hitem := solid_parenthesized u.isCompound (ih u (List.mem_singleton_self u) depth)
      have hbrackets : Solid "[]" := OnOneLine.solid (by decide)
      rw [text]
      exact hitem.append hbrackets
    | object fs =>
      have hkey : ∀ f ∈ fs, OnOneLine f.key := fun f hf => hlabels f.key (List.mem_map_of_mem hf)
      have htype : ∀ f ∈ fs, Solid (f.type.text (depth + 1)) := fun f hf =>
        ih f.type (List.mem_map_of_mem hf) (depth + 1)
      rw [text]
      exact (isBlock_braced depth (isBlock_fieldLines hkey htype)).toSolid
    | union ms =>
      rw [text, texts_eq]
      split
      · exact OnOneLine.solid (by decide)
      · refine Text.solid_intercalate (OnOneLine.solid (by decide)) fun s hs => ?_
        obtain ⟨m, hm, rfl⟩ := List.mem_map.1 hs
        exact ih m hm depth
    | intersection ms =>
      rw [text, operandTexts_eq]
      split
      · exact OnOneLine.solid (by decide)
      · refine Text.solid_intercalate (OnOneLine.solid (by decide)) fun s hs => ?_
        obtain ⟨m, hm, rfl⟩ := List.mem_map.1 hs
        exact solid_parenthesized m.isProperUnion (ih m hm depth)
    | _ =>
      rw [text]
      exact OnOneLine.solid (by decide)

end TypeTerm
end SchemaTypes
