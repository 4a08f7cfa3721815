/-
# A type at a depth

The text of a type starts behind something on the line, so its first line has
no blanks in front of it; each further line starts with two blanks for each
level of depth. A text hangs if a greater depth is only more blanks behind its
line feeds (`Hangs`). The text of a type does so exactly if the type is tidy:
a line feed in a label is no new line of the layout, and gets no blanks.

That a text does not hang has to come through to the whole text that it is a
part of. Blanks are never taken away, so a text that does not hang is too
short, and no other part makes up for it: this is why `Hangs` bounds the
length as well.

Key definitions: `Text.hang`, `Hangs`.
Key theorems: `Hangs.append`, `TypeTerm.hangs_text`, `TypeTerm.text_eq_hang_iff`.
-/
import SchemaTypes.Proofs.TypeTerm.Tidy

namespace SchemaTypes

open Text (OnOneLine)

namespace Text

/-- The text with a number of blanks behind each line feed. -/
def hang (blanks : Nat) (s : String) : String :=
  String.ofList (s.toList.flatMap fun c =>
    if c = '\n' then '\n' :: List.replicate blanks ' ' else [c])

variable {s : String} {blanks : Nat}

theorem hang_append (blanks : Nat) (s t : String) :
    hang blanks (s ++ t) = hang blanks s ++ hang blanks t := by
  rw [hang, String.toList_append, List.flatMap_append, String.ofList_append]
  rfl

theorem length_hang (blanks : Nat) (s : String) :
    (hang blanks s).length = s.length + s.toList.count '\n' * blanks := by
  rw [hang, String.length_ofList, ← String.length_toList]
  induction s.toList with
  | nil => simp
  | cons c cs ih =>
    rw [List.flatMap_cons, List.length_append, ih, List.length_cons]
    by_cases hc : c = '\n'
    · have hblanks : (List.replicate blanks ' ').length = blanks := List.length_replicate
      rw [if_pos hc, hc, List.count_cons_self, List.length_cons, hblanks, Nat.succ_mul]
      omega
    · rw [if_neg hc, List.count_cons_of_ne hc, List.length_singleton]
      omega

/-- A text stays as it is if there are no line feeds or no blanks. -/
theorem hang_eq_self (h : '\n' ∈ s.toList → blanks = 0) : hang blanks s = s := by
  have hchars : ∀ c ∈ s.toList,
      (if c = '\n' then '\n' :: List.replicate blanks ' ' else [c]) = [c] := by
    intro c hc
    by_cases hline : c = '\n'
    · rw [if_pos hline, h (hline ▸ hc), hline, List.replicate_zero]
    · exact if_neg hline
  rw [hang, List.flatMap_congr hchars, List.flatMap_singleton', String.ofList_toList]

theorem hang_of_onOneLine (h : OnOneLine s) (blanks : Nat) : hang blanks s = s :=
  hang_eq_self fun hline => absurd hline h

theorem hang_zero (s : String) : hang 0 s = s :=
  hang_eq_self fun _ => rfl

/-- A text keeps its length exactly if there is nothing to put into it. -/
theorem length_hang_eq_iff : (hang blanks s).length = s.length ↔ blanks = 0 ∨ OnOneLine s := by
  rw [length_hang, OnOneLine, ← List.count_eq_zero]
  constructor
  · intro h
    have hzero : s.toList.count '\n' * blanks = 0 := by omega
    exact (Nat.mul_eq_zero.1 hzero).symm
  · rintro (h | h)
    · rw [h, Nat.mul_zero, Nat.add_zero]
    · rw [h, Nat.zero_mul, Nat.add_zero]

end Text

/-! ### Texts that are written at a depth -/

theorem indent_add (d e : Nat) : indent (d + e) = indent d ++ indent e := by
  rw [indent, indent, indent, ← String.ofList_append, List.replicate_append_replicate, Nat.mul_add]

theorem hang_lineFeed (d : Nat) : Text.hang (2 * d) "\n" = "\n" ++ indent d := by
  apply String.toList_inj.1
  simp [Text.hang, indent]

/-- A text at a depth is that of a lower depth with the blanks of the
difference behind each line feed, exactly if the condition holds or there is
no difference. In no case is it longer. -/
structure Hangs (f : Nat → String) (P : Prop) : Prop where
  length_le : ∀ d e, (f (d + e)).length ≤ (Text.hang (2 * d) (f e)).length
  eq_iff : ∀ d e, f (d + e) = Text.hang (2 * d) (f e) ↔ d = 0 ∨ P

variable {f g : Nat → String} {P Q : Prop} {s : String}

theorem Hangs.congr (h : Hangs f P) (hPQ : P ↔ Q) : Hangs f Q := by
  obtain rfl := propext hPQ
  exact h

/-- A text that is the same at every depth hangs if it is on one line. -/
theorem hangs_const (s : String) : Hangs (fun _ => s) (OnOneLine s) where
  length_le d _ := by
    rw [Text.length_hang]
    exact Nat.le_add_right _ _
  eq_iff d _ := by
    constructor
    · intro h
      have hlength := congrArg String.length h
      rcases Text.length_hang_eq_iff.1 hlength.symm with hd | hs
      · exact .inl (by omega)
      · exact .inr hs
    · rintro (rfl | hs)
      · exact (Text.hang_zero s).symm
      · exact (Text.hang_of_onOneLine hs _).symm

theorem hangs_of_onOneLine (h : OnOneLine s) : Hangs (fun _ => s) True :=
  (hangs_const s).congr (iff_true_intro h)

/-- A new line starts with the blanks of its depth. -/
theorem hangs_newLine : Hangs (fun d => "\n" ++ indent d) True := by
  have hline : ∀ d e, "\n" ++ indent (d + e) = Text.hang (2 * d) ("\n" ++ indent e) := by
    intro d e
    rw [Text.hang_append, Text.hang_of_onOneLine (onOneLine_indent e), hang_lineFeed, indent_add,
      String.append_assoc]
  exact ⟨fun d e => (congrArg String.length (hline d e)).le, fun d e =>
    iff_of_true (hline d e) (.inr trivial)⟩

/-- A text that is put together hangs exactly if both parts do. -/
theorem Hangs.append (hf : Hangs f P) (hg : Hangs g Q) : Hangs (fun d => f d ++ g d) (P ∧ Q) where
  length_le d e := by
    rw [Text.hang_append, String.length_append, String.length_append]
    exact Nat.add_le_add (hf.length_le d e) (hg.length_le d e)
  eq_iff d e := by
    have hf' := hf.length_le d e
    have hg' := hg.length_le d e
    rw [Text.hang_append]
    constructor
    · intro h
      have hlength := congrArg String.length h
      rw [String.length_append, String.length_append] at hlength
      have hlists := congrArg String.toList h
      rw [String.toList_append, String.toList_append] at hlists
      obtain ⟨hleft, hright⟩ := List.append_inj hlists (by
        rw [String.length_toList, String.length_toList]
        omega)
      rcases (hf.eq_iff d e).1 (String.toList_inj.1 hleft) with hd | hP
      · exact .inl hd
      · exact ((hg.eq_iff d e).1 (String.toList_inj.1 hright)).imp_right fun hQ => ⟨hP, hQ⟩
    · intro h
      rw [(hf.eq_iff d e).2 (h.imp_right And.left), (hg.eq_iff d e).2 (h.imp_right And.right)]

/-- What stands a level further in hangs under the same condition. -/
theorem Hangs.inner (h : Hangs f P) : Hangs (fun d => f (d + 1)) P where
  length_le d e := h.length_le d (e + 1)
  eq_iff d e := h.eq_iff d (e + 1)

/-- Texts with a separator between them hang exactly if each of them does. -/
theorem hangs_intercalate {α : Type} {sep : String} {text : Nat → α → String} {P : α → Prop}
    (hsep : OnOneLine sep) {as : List α} (h : ∀ a ∈ as, Hangs (fun d => text d a) (P a)) :
    Hangs (fun d => sep.intercalate (as.map (text d))) (∀ a ∈ as, P a) := by
  induction as with
  | nil => exact (hangs_of_onOneLine (s := "") (by decide)).congr (iff_of_true trivial nofun)
  | cons a as ih =>
    rw [List.forall_mem_cons] at h
    cases as with
    | nil =>
      simp only [List.map_singleton, String.intercalate_singleton]
      exact h.1.congr List.forall_mem_singleton.symm
    | cons b as =>
      simp only [List.map_cons, String.intercalate_cons_cons]
      exact ((h.1.append (hangs_of_onOneLine hsep)).append (ih h.2)).congr (by
        rw [and_true, List.forall_mem_cons (a := a)])

theorem Hangs.parenthesized (h : Hangs f P) (needed : Bool) :
    Hangs (fun d => SchemaTypes.parenthesized needed (f d)) P := by
  cases needed with
  | false => exact h
  | true =>
    have hopen : Hangs (fun _ => "(") True := hangs_of_onOneLine (by decide)
    have hclose : Hangs (fun _ => ")") True := hangs_of_onOneLine (by decide)
    exact ((hopen.append h).append hclose).congr (by rw [true_and, and_true])

/-- The lines between braces start with a line feed, and so does the closing
brace. -/
theorem braced_of_ne_nil (d : Nat) {lines : List String} (h : lines ≠ []) :
    braced d lines =
      "\x7b" ++ ("\n" ++ "\n".intercalate lines) ++ ("\n" ++ indent d) ++ "\x7d" := by
  have hopen : ("\x7b\n" : String) = "\x7b" ++ "\n" := rfl
  rw [braced, if_neg (by simpa using h), hopen]
  simp only [String.append_assoc]

namespace TypeTerm

/-! ### Tidy types, by constructor -/

theorem tidy_iff {t : TypeTerm} :
    t.Tidy ↔ (∀ x ∈ t.labels, OnOneLine x) ∧ ∀ u ∈ t.children, u.Tidy :=
  ⟨fun h => by cases h with | intro hlabels hchildren => exact ⟨hlabels, hchildren⟩,
    fun h => .intro h.1 h.2⟩

theorem tidy_literal_iff {x : String} : (literal x).Tidy ↔ OnOneLine x :=
  tidy_iff.trans ((and_iff_left nofun).trans List.forall_mem_singleton)

theorem tidy_named_iff {x : String} : (named x).Tidy ↔ OnOneLine x :=
  tidy_iff.trans ((and_iff_left nofun).trans List.forall_mem_singleton)

theorem tidy_array_iff {t : TypeTerm} : (array t).Tidy ↔ t.Tidy :=
  tidy_iff.trans ((and_iff_right nofun).trans List.forall_mem_singleton)

theorem tidy_union_iff {ms : List TypeTerm} : (union ms).Tidy ↔ ∀ m ∈ ms, m.Tidy :=
  tidy_iff.trans (and_iff_right nofun)

theorem tidy_intersection_iff {ms : List TypeTerm} :
    (intersection ms).Tidy ↔ ∀ m ∈ ms, m.Tidy :=
  tidy_iff.trans (and_iff_right nofun)

theorem tidy_object_iff {fs : List Field} :
    (object fs).Tidy ↔ ∀ f ∈ fs, OnOneLine f.key ∧ f.type.Tidy := by
  rw [tidy_iff, labels, children, List.forall_mem_map, List.forall_mem_map]
  exact forall₂_and.symm

/-! ### The text of a type -/

/-- The line of a field, with the line feed in front of it. -/
theorem hangs_fieldLine {f : Field} (h : Hangs (fun d => f.type.text d) f.type.Tidy) :
    Hangs (fun d => "\n" ++ "\n".intercalate (fieldLines d [f]))
      (OnOneLine f.key ∧ f.type.Tidy) := by
  obtain ⟨key, isOptional, t⟩ := f
  have hcolon : Hangs (fun _ => if isOptional then "?: " else ": ") True :=
    hangs_of_onOneLine (by cases isOptional <;> decide)
  have hend : Hangs (fun _ => ";") True := hangs_of_onOneLine (by decide)
  have hline := (((hangs_newLine.append (hangs_const key)).append hcolon).append h).append hend
  simp only [true_and, and_true, String.append_assoc] at hline
  simp only [fieldLines, String.intercalate_singleton, String.append_assoc]
  exact hline

/-- The lines of fields, each with the line feed in front of it. -/
theorem hangs_fieldLines {f : Field} {fs : List Field}
    (h : ∀ f' ∈ f :: fs, Hangs (fun d => f'.type.text d) f'.type.Tidy) :
    Hangs (fun d => "\n" ++ "\n".intercalate (fieldLines d (f :: fs)))
      (∀ f' ∈ f :: fs, OnOneLine f'.key ∧ f'.type.Tidy) := by
  induction fs generalizing f with
  | nil => exact (hangs_fieldLine (h f (List.mem_singleton_self f))).congr (by simp)
  | cons f' fs ih =>
    rw [List.forall_mem_cons] at h
    have hlines : ∀ d, "\n" ++ "\n".intercalate (fieldLines d (f :: f' :: fs)) =
        "\n" ++ "\n".intercalate (fieldLines d [f]) ++
          ("\n" ++ "\n".intercalate (fieldLines d (f' :: fs))) := by
      intro d
      obtain ⟨key, isOptional, t⟩ := f
      obtain ⟨key', isOptional', t'⟩ := f'
      simp only [fieldLines, String.intercalate_cons_cons, String.intercalate_singleton,
        String.append_assoc]
    simp only [hlines]
    exact ((hangs_fieldLine h.1).append (ih h.2)).congr (by rw [List.forall_mem_cons (a := f)])

theorem fieldLines_ne_nil (d : Nat) (f : Field) (fs : List Field) :
    fieldLines d (f :: fs) ≠ [] := by
  obtain ⟨key, isOptional, t⟩ := f
  rw [fieldLines]
  exact List.cons_ne_nil _ _

/-- **The text of a type hangs** exactly if the type is tidy. -/
theorem hangs_text (t : TypeTerm) : Hangs (fun d => t.text d) t.Tidy := by
  induction t using child_induction with
  | step t ih =>
    cases t with
    | literal x => exact (hangs_const x).congr tidy_literal_iff.symm
    | named x => exact (hangs_const x).congr tidy_named_iff.symm
    | array u =>
      have hitem := (ih u (List.mem_singleton_self u)).parenthesized u.isCompound
      have hbrackets : Hangs (fun _ => "[]") True := hangs_of_onOneLine (by decide)
      simp only [text]
      exact (hitem.append hbrackets).congr (by rw [and_true, tidy_array_iff])
    | object fs =>
      rw [tidy_object_iff]
      cases fs with
      | nil =>
        have hbraces : Hangs (fun _ => "\x7b\x7d") True := hangs_of_onOneLine (by decide)
        exact hbraces.congr (iff_of_true trivial nofun)
      | cons f fs =>
        have hopen : Hangs (fun _ => "\x7b") True := hangs_of_onOneLine (by decide)
        have hclose : Hangs (fun _ => "\x7d") True := hangs_of_onOneLine (by decide)
        have hlines := (hangs_fieldLines fun f' hf => ih f'.type (List.mem_map_of_mem hf)).inner
        have hbraces := ((hopen.append hlines).append hangs_newLine).append hclose
        simp only [text, braced_of_ne_nil _ (fieldLines_ne_nil _ f fs)]
        exact hbraces.congr (by rw [true_and, and_true, and_true])
    | union ms =>
      rw [tidy_union_iff]
      cases ms with
      | nil =>
        have hword : Hangs (fun _ => "never") True := hangs_of_onOneLine (by decide)
        exact hword.congr (iff_of_true trivial nofun)
      | cons m ms =>
        simp only [text, texts_eq, List.isEmpty_cons, Bool.false_eq_true, if_false]
        exact hangs_intercalate (by decide) ih
    | intersection ms =>
      rw [tidy_intersection_iff]
      cases ms with
      | nil =>
        have hword : Hangs (fun _ => "unknown") True := hangs_of_onOneLine (by decide)
        exact hword.congr (iff_of_true trivial nofun)
      | cons m ms =>
        simp only [text, operandTexts_eq, List.isEmpty_cons, Bool.false_eq_true, if_false]
        exact hangs_intercalate (by decide) fun u hu => (ih u hu).parenthesized u.isProperUnion
    | _ => exact (hangs_of_onOneLine (by decide)).congr (iff_of_true trivial (.of_nil rfl rfl))

/-- **Depth is blanks behind line feeds.** At any depth but the outermost, the
text of a type is the outermost one with two blanks for each level behind each
line feed, exactly if the labels in it stand on one line each. The text of
fields between braces is that without them, with a line for each brace; and
the text without braces is the outermost one with these blanks in front of
each line, under the same condition. -/
theorem text_eq_hang_iff :
    (∀ (t : TypeTerm) (d : Nat), t.text d = Text.hang (2 * d) (t.text 0) ↔ d = 0 ∨ t.Tidy) ∧
      ∀ (f : Field) (fs : List Field) (d : Nat),
        objectText (f :: fs) d true =
            "\x7b\n" ++ objectText (f :: fs) d false ++ "\n" ++ indent d ++ "\x7d" ∧
          (objectText (f :: fs) d false =
              indent d ++ Text.hang (2 * d) (objectText (f :: fs) 0 false) ↔
            d = 0 ∨ (object (f :: fs)).Tidy) := by
  constructor
  · intro t d
    exact (hangs_text t).eq_iff d 0
  · intro f fs d
    have hne := fieldLines_ne_nil
    have hbare : ∀ d, objectText (f :: fs) d false =
        "\n".intercalate (fieldLines (d + 1) (f :: fs)) := by
      intro d
      simp [objectText, hne]
    constructor
    · have hopen : ("\x7b\n" : String) = "\x7b" ++ "\n" := rfl
      rw [hbare, objectText, Bool.true_or, if_pos rfl, braced_of_ne_nil _ (hne _ f fs), hopen]
      simp only [String.append_assoc]
    · have hlines := (hangs_fieldLines fun f' (_ : f' ∈ f :: fs) =>
        hangs_text f'.type).inner.eq_iff d 0
      simp only [Nat.add_zero, ← hbare, Text.hang_append, hang_lineFeed] at hlines
      rw [String.append_assoc, String.append_right_inj] at hlines
      rw [hlines, tidy_object_iff]

end TypeTerm
end SchemaTypes
