/-
# What is written on one line

Keys, literals and member names stand on one line, whatever characters the
names and values of a document hold: a line feed between quotes is escaped,
the numeral of a number has none, and a member name has only letters, digits
and underscores. A declared name stands on one line if the prefix and the
reference do.

Key theorems: `onOneLine_quote`, `Json.onOneLine_compact`,
`Identifier.onOneLine_propertyKey`, `Identifier.onOneLine_member`,
`Reference.onOneLine_declaredName`.
-/
import SchemaTypes.Declaration.Emit
import SchemaTypes.Proofs.Json.Quoted
import SchemaTypes.Proofs.Reader.Atom
import SchemaTypes.Proofs.Schema.Definition
import SchemaTypes.Proofs.Text.Blocks

namespace SchemaTypes

open Text (OnOneLine)

namespace Text

variable {cs : List Char} {p : Char → Bool} {sep : String} {l : List String}

instance (s : String) : Decidable (OnOneLine s) :=
  inferInstanceAs (Decidable ('\n' ∉ s.toList))

theorem onOneLine_ofList (h : '\n' ∉ cs) : OnOneLine (String.ofList cs) := by
  rw [OnOneLine, String.toList_ofList]
  exact h

/-- There is no line feed among characters of a kind that it is not of. -/
theorem lineFeed_not_mem (hp : p '\n' = false) (h : ∀ c ∈ cs, p c = true) : '\n' ∉ cs := by
  intro hline
  have := h _ hline
  rw [hp] at this
  cases this

theorem onOneLine_intercalate (hsep : OnOneLine sep) (h : ∀ s ∈ l, OnOneLine s) :
    OnOneLine (sep.intercalate l) := by
  by_cases hne : l = []
  · rw [hne, String.intercalate_nil]
    decide
  · exact intercalate_induction hne (fun _ _ hs ht => (hs.append hsep).append ht) h

/-! ### Quoted text -/

/-- A line feed is a control character, so none stands between quotes. -/
theorem onOneLine_quote (s : String) : OnOneLine (quote s) :=
  fun hline => absurd (le_of_mem_quote hline) (by decide)

end Text

namespace Json

theorem onOneLine_number (n : Number) : OnOneLine n.text := by
  obtain ⟨cs, hcs, hn⟩ := Reader.isNumeralText_number n
  have hline : '\n' ∉ cs := Text.lineFeed_not_mem (by decide) hcs.isChunkChar
  rcases hn with hn | hn
  · rw [hn]
    exact Text.onOneLine_ofList hline
  · rw [hn]
    refine Text.onOneLine_ofList ?_
    simp [hline]

/-- **A value is written on one line.** -/
theorem onOneLine_compact (v : Json) : OnOneLine v.compact := by
  cases v with
  | null => decide
  | bool b => cases b <;> decide
  | number n => exact onOneLine_number n
  | string s => exact Text.onOneLine_quote s
  | array vs =>
    have hitems : ∀ s ∈ vs.map compact, OnOneLine s := by
      intro s hs
      obtain ⟨v, hv, rfl⟩ := List.mem_map.1 hs
      have := Schema.sizeOf_lt_of_mem_items hv
      exact onOneLine_compact v
    rw [compact, compactItems_eq]
    have hlist : OnOneLine (",".intercalate (vs.map compact)) :=
      Text.onOneLine_intercalate (by decide) hitems
    exact (OnOneLine.append (by decide) hlist).append (by decide)
  | object ms =>
    have hmembers : ∀ s ∈ ms.map fun m => Text.quote m.1 ++ ":" ++ m.2.compact, OnOneLine s := by
      intro s hs
      obtain ⟨m, hm, rfl⟩ := List.mem_map.1 hs
      have := Schema.sizeOf_lt_of_mem_members hm
      have hkey : OnOneLine (Text.quote m.1 ++ ":") := (Text.onOneLine_quote m.1).append (by decide)
      exact hkey.append (onOneLine_compact m.2)
    rw [compact, compactMembers_eq]
    have hlist := Text.onOneLine_intercalate (by decide : OnOneLine ",") hmembers
    exact (OnOneLine.append (by decide) hlist).append (by decide)
termination_by sizeOf v
decreasing_by all_goals assumption

end Json

namespace Identifier

variable {cs : List Char}

/-- A property key is written on one line. -/
theorem onOneLine_propertyKey (name : String) : OnOneLine (propertyKey name) := by
  unfold propertyKey
  by_cases hbare : isBare name = true
  · rw [if_pos hbare]
    unfold isBare at hbare
    unfold OnOneLine
    cases hname : name.toList with
    | nil => exact List.not_mem_nil
    | cons c cs =>
      rw [hname, Bool.and_eq_true, List.all_eq_true] at hbare
      refine Text.lineFeed_not_mem (p := isWordChar) (by decide) ?_
      refine List.forall_mem_cons.2 ⟨?_, hbare.2⟩
      rw [isWordChar, Char.isAlphanum, Bool.or_right_comm, hbare.1, Bool.true_or]
  · rw [if_neg hbare]
    exact Text.onOneLine_quote name

theorem isWordChar_of_mem_separate (inRun : Bool) :
    ∀ c ∈ separate inRun cs, isWordChar c = true := by
  induction cs generalizing inRun with
  | nil => exact nofun
  | cons c cs ih =>
    unfold separate
    split
    · rename_i hc
      exact List.forall_mem_cons.2 ⟨hc, ih false⟩
    · split
      · exact ih true
      · exact List.forall_mem_cons.2 ⟨by decide, ih true⟩

theorem isWordChar_of_mem_splitWords (h : ∀ c ∈ cs, isWordChar c = true) :
    ∀ c ∈ splitWords cs, isWordChar c = true := by
  induction cs using splitWords.induct with
  | case1 a b cs hboundary ih =>
    rw [splitWords, if_pos hboundary]
    simp only [List.forall_mem_cons] at h ⊢
    exact ⟨h.1, by decide, h.2.1, ih h.2.2⟩
  | case2 a b cs hboundary ih =>
    rw [splitWords, if_neg hboundary]
    rw [List.forall_mem_cons] at h ⊢
    exact ⟨h.1, ih h.2⟩
  | case3 cs hcs =>
    rw [splitWords]
    · exact h
    · exact hcs

/-- No other character than a line feed becomes one in capitals. -/
theorem toUpper_ne_lineFeed {c : Char} (h : c ≠ '\n') : c.toUpper ≠ '\n' := by
  intro hup
  have halpha := Char.isAlpha_toUpper_eq_isAlpha c
  rw [hup] at halpha
  have hlower : ¬ c.isLower = true := by
    intro hlower
    have hc : c.isAlpha = true := by
      rw [Char.isAlpha, hlower, Bool.or_true]
    rw [hc] at halpha
    revert halpha
    decide
  rw [Char.toUpper_eq_of_not_isLower hlower] at hup
  exact h hup

/-- A member name is written on one line. -/
theorem onOneLine_member (raw : String) : OnOneLine (member raw) := by
  unfold member
  extract_lets words
  have hwords : ∀ c ∈ words, isWordChar c = true :=
    isWordChar_of_mem_splitWords (isWordChar_of_mem_separate false)
  refine Text.onOneLine_ofList ?_
  rw [List.mem_append, not_or]
  constructor
  · cases words with
    | nil => decide
    | cons c cs =>
      rw [lead]
      split_ifs
      · decide
      · decide
  · intro hline
    obtain ⟨c, hc, hup⟩ := List.mem_map.1 hline
    refine toUpper_ne_lineFeed ?_ hup
    rintro rfl
    have := hwords _ hc
    revert this
    decide

end Identifier

/-- The parts of an enum member are written on one line. -/
theorem EnumMember.onOneLine_ofJson (v : Json) :
    OnOneLine (EnumMember.ofJson v).name ∧ OnOneLine (EnumMember.ofJson v).value := by
  cases v with
  | number n => exact ⟨Identifier.onOneLine_member _, Json.onOneLine_number n⟩
  | _ => exact ⟨Identifier.onOneLine_member _, Text.onOneLine_quote _⟩

namespace Reference

/-- What is left behind a beginning is the end of the characters. -/
theorem suffix_of_dropStart? {start cs rest : List Char} (h : dropStart? start cs = some rest) :
    rest <:+ cs := by
  induction start generalizing cs with
  | nil =>
    cases h
    exact List.suffix_refl _
  | cons s start ih =>
    cases cs with
    | nil => cases h
    | cons c cs =>
      rw [dropStart?] at h
      split at h
      · exact (ih h).trans (List.suffix_cons c cs)
      · cases h

theorem onOneLine_target {r : String} (h : OnOneLine r) : OnOneLine (target r) := by
  unfold target
  cases hrest : dropStart? path.toList r.toList with
  | none => exact h
  | some cs =>
    refine Text.onOneLine_ofList fun hline => h ?_
    exact (suffix_of_dropStart? hrest).subset hline

/-- A declared name is written on one line if the prefix and the reference
are. -/
theorem onOneLine_declaredName {r namePrefix : String} (hp : OnOneLine namePrefix)
    (hr : OnOneLine r) : OnOneLine (declaredName r namePrefix) :=
  hp.append (onOneLine_target hr)

end Reference
end SchemaTypes
