/-
# Which texts share a member name

Four kinds of edits change a text and keep the name that it gives to an enum
member: a run of characters outside words is written as an underscore, an
underscore is set where a word begins inside camel case, letters change their
case where no word begins before or after, and an underscore is set in front
of an empty text or a digit. A text is a respelling of another if such edits,
made or undone, lead from the one to the other.

Respellings are all there is: two values have the same name exactly if their
trimmed texts are respellings of each other (`Identifier.member_eq_iff`). Each
edit keeps the name, since splitting at word boundaries looks at two
neighbours only (`splitWords_cons`). The other way round, edits lead from any
text to its words, and words with the same name differ in the case of letters
and in an underscore in front.

Key definitions: `Identifier.Edit`, `Identifier.Respelled`,
`Identifier.words`.
Key theorems: `Identifier.name_eq_of_edit`, `Identifier.respelled_words`,
`Identifier.member_eq_iff`.
-/
import Mathlib
import SchemaTypes.Identifier

namespace SchemaTypes.Identifier

variable {a b c : Char} {cs xs ys run : List Char} {inRun : Bool}

/-- No word begins inside the text: no capital follows a lowercase letter or a
digit. -/
def Unbroken (cs : List Char) : Prop :=
  cs.IsChain fun a b => isBoundary a b = false

/-- A change of a text that keeps its member name. -/
inductive Edit : List Char → List Char → Prop
  /-- A whole run of characters outside words is written as an underscore. -/
  | separator {xs run ys : List Char} (hne : run ≠ [])
      (hrun : ∀ c ∈ run, isWordChar c = false) (hxs : ∀ c ∈ xs.getLast?, isWordChar c = true)
      (hys : ∀ c ∈ ys.head?, isWordChar c = true) : Edit (xs ++ (run ++ ys)) (xs ++ '_' :: ys)
  /-- An underscore is set where a word begins. -/
  | boundary {xs ys : List Char} {a b : Char} (h : isBoundary a b = true) :
      Edit (xs ++ a :: b :: ys) (xs ++ a :: '_' :: b :: ys)
  /-- Letters change their case, and no word begins either way. -/
  | letters {xs ys : List Char} (h : xs.map Char.toUpper = ys.map Char.toUpper)
      (hxs : Unbroken xs) (hys : Unbroken ys) : Edit xs ys
  /-- An underscore is set in front of an empty text or of a digit. -/
  | start {xs : List Char} (h : lead xs = ['_']) : Edit xs ('_' :: xs)

/-- Edits, made or undone, lead from one text to the other. -/
def Respelled : List Char → List Char → Prop :=
  Relation.EqvGen Edit

/-- The text with its words set apart by underscores. -/
def words (cs : List Char) : List Char :=
  splitWords (separate false cs)

/-- The name of a member by its words. -/
def nameOf (cs : List Char) : List Char :=
  lead (words cs) ++ (words cs).map Char.toUpper

theorem member_eq_nameOf (raw : String) :
    member raw = String.ofList (nameOf (Text.trim raw.toList)) := rfl

/-! ### Characters -/

theorem isDigit_of_isAlpha (h : c.isAlpha = true) : c.isDigit = false := by
  by_contra hdigit
  simp only [Char.isAlpha, Char.isUpper, Char.isLower, Char.isDigit, Bool.not_eq_false,
    Bool.or_eq_true, Bool.and_eq_true, decide_eq_true_eq, UInt32.le_iff_toNat_le, ge_iff_le]
    at h hdigit
  have hupper : 'A'.val.toNat = 65 := rfl
  have hlower : 'a'.val.toNat = 97 := rfl
  have hdigits : '9'.val.toNat = 57 := rfl
  omega

theorem isDigit_toUpper (c : Char) : c.toUpper.isDigit = c.isDigit := by
  by_cases h : c.isLower = true
  · have ha : c.isAlpha = true := by rw [Char.isAlpha, h, Bool.or_true]
    have hu : c.toUpper.isAlpha = true := by rw [Char.isAlpha_toUpper_eq_isAlpha, ha]
    rw [isDigit_of_isAlpha ha, isDigit_of_isAlpha hu]
  · rw [Char.toUpper_eq_of_not_isLower h]

theorem toUpper_eq_underscore_iff (c : Char) : c.toUpper = '_' ↔ c = '_' := by
  constructor
  · intro h
    by_cases hl : c.isLower = true
    · have ha := Char.isAlpha_toUpper_eq_isAlpha c
      rw [h, Char.isAlpha, Char.isAlpha, hl, Bool.or_true] at ha
      cases ha
    · rwa [Char.toUpper_eq_of_not_isLower hl] at h
  · rintro rfl
    rfl

/-- The case of a letter does not matter to what belongs to words. -/
theorem isWordChar_toUpper (c : Char) : isWordChar c.toUpper = isWordChar c := by
  rw [isWordChar, isWordChar, Char.isAlphanum, Char.isAlphanum, Char.isAlpha_toUpper_eq_isAlpha,
    isDigit_toUpper, decide_eq_decide.2 (toUpper_eq_underscore_iff c)]

@[simp] theorem isBoundary_underscore_left (b : Char) : isBoundary '_' b = false := rfl

@[simp] theorem isBoundary_underscore_right (a : Char) : isBoundary a '_' = false := by
  rw [isBoundary, show '_'.isUpper = false from rfl, Bool.and_false]

theorem isWordChar_of_isDigit (h : c.isDigit = true) : isWordChar c = true := by
  rw [isWordChar, Char.isAlphanum, h, Bool.or_true, Bool.true_or]

theorem isWordChar_of_isAlpha (h : c.isAlpha = true) : isWordChar c = true := by
  rw [isWordChar, Char.isAlphanum, h, Bool.true_or, Bool.true_or]

/-- Both sides of a word boundary belong to words. -/
theorem isWordChar_of_isBoundary (h : isBoundary a b = true) :
    isWordChar a = true ∧ isWordChar b = true := by
  rw [isBoundary, Bool.and_eq_true, Bool.or_eq_true] at h
  obtain ⟨ha, hb⟩ := h
  constructor
  · rcases ha with ha | ha
    · exact isWordChar_of_isAlpha (by rw [Char.isAlpha, ha, Bool.or_true])
    · exact isWordChar_of_isDigit ha
  · exact isWordChar_of_isAlpha (by rw [Char.isAlpha, hb, Bool.true_or])

/-! ### Splitting at word boundaries -/

/-- The underscore between a character and the text behind it. -/
def gap (a : Char) : List Char → List Char
  | b :: _ => if isBoundary a b then ['_'] else []
  | [] => []

/-- No word begins behind an underscore. -/
@[simp] theorem gap_underscore (cs : List Char) : gap '_' cs = [] := by
  cases cs <;> rfl

theorem splitWords_cons_of_isUpper (h : b.isUpper = true) (cs : List Char) :
    splitWords (b :: cs) = b :: splitWords cs := by
  have hlower : b.isLower = false := Bool.not_eq_true _ ▸ Char.not_isLower_of_isUpper h
  have hdigit : b.isDigit = false := isDigit_of_isAlpha (by rw [Char.isAlpha, h, Bool.true_or])
  cases cs with
  | nil => rfl
  | cons c cs =>
    rw [splitWords, isBoundary, hlower, hdigit]
    rfl

/-- Whether an underscore is set behind a character depends on the next one
alone. -/
theorem splitWords_cons (a : Char) (cs : List Char) :
    splitWords (a :: cs) = a :: (gap a cs ++ splitWords cs) := by
  cases cs with
  | nil => rfl
  | cons b cs =>
    rw [splitWords, gap]
    by_cases h : isBoundary a b = true
    · have hb : b.isUpper = true := by
        rw [isBoundary, Bool.and_eq_true] at h
        exact h.2
      rw [if_pos h, if_pos h, splitWords_cons_of_isUpper hb]
      rfl
    · rw [if_neg h, if_neg h]
      rfl

theorem gap_append_cons (x a : Char) (xs ys zs : List Char) :
    gap x (xs ++ a :: ys) = gap x (xs ++ a :: zs) := by
  cases xs <;> rfl

/-- An underscore may be set at a boundary beforehand. -/
theorem splitWords_boundary (h : isBoundary a b = true) (xs ys : List Char) :
    splitWords (xs ++ a :: b :: ys) = splitWords (xs ++ a :: '_' :: b :: ys) := by
  induction xs with
  | nil =>
    rw [List.nil_append, List.nil_append, splitWords_cons a, splitWords_cons a,
      splitWords_cons '_', gap, if_pos h]
    simp [gap]
  | cons x xs ih =>
    rw [List.cons_append, List.cons_append, splitWords_cons, splitWords_cons, ih,
      gap_append_cons x a xs (b :: ys) ('_' :: b :: ys)]

theorem splitWords_of_unbroken (h : Unbroken cs) : splitWords cs = cs := by
  induction cs with
  | nil => rfl
  | cons a cs ih =>
    obtain ⟨ha, hcs⟩ := List.isChain_cons.1 h
    have hgap : gap a cs = [] := by
      cases cs with
      | nil => rfl
      | cons b cs => rw [gap, ha b rfl, if_neg Bool.false_ne_true]
    rw [splitWords_cons, hgap, List.nil_append, ih hcs]

theorem head?_splitWords (cs : List Char) : (splitWords cs).head? = cs.head? := by
  cases cs with
  | nil => rfl
  | cons a cs => rw [splitWords_cons, List.head?_cons, List.head?_cons]

/-- Between words that are set apart no word begins. -/
theorem unbroken_splitWords (cs : List Char) : Unbroken (splitWords cs) := by
  induction cs with
  | nil => exact List.isChain_nil
  | cons a cs ih =>
    have hunderscore : Unbroken ('_' :: splitWords cs) := List.isChain_cons.2 ⟨fun _ _ => rfl, ih⟩
    rw [splitWords_cons]
    cases cs with
    | nil => exact List.isChain_singleton a
    | cons b cs =>
      rw [gap]
      split
      · exact List.isChain_cons_cons.2 ⟨isBoundary_underscore_right a, hunderscore⟩
      · rename_i h
        refine List.isChain_cons.2 ⟨fun d hd => ?_, ih⟩
        rw [List.nil_append, head?_splitWords] at hd
        cases hd
        exact Bool.not_eq_true _ ▸ h

/-! ### Setting words apart -/

theorem separate_cons_of_isWordChar (h : isWordChar c = true) (inRun : Bool) (cs : List Char) :
    separate inRun (c :: cs) = c :: separate false cs := by
  rw [separate, if_pos h]

theorem separate_run (hrun : ∀ c ∈ run, isWordChar c = false) (ys : List Char) :
    separate true (run ++ ys) = separate true ys := by
  induction run with
  | nil => rfl
  | cons c run ih =>
    rw [List.forall_mem_cons] at hrun
    rw [List.cons_append, separate, hrun.1, if_neg Bool.false_ne_true, if_pos rfl, ih hrun.2]

theorem separate_of_head (h : ∀ c ∈ cs.head?, isWordChar c = true) (inRun : Bool) :
    separate inRun cs = separate false cs := by
  cases cs with
  | nil => rfl
  | cons c cs => rw [separate_cons_of_isWordChar (h c rfl), separate_cons_of_isWordChar (h c rfl)]

/-- A whole run becomes one underscore. -/
theorem separate_run_append (hne : run ≠ []) (hrun : ∀ c ∈ run, isWordChar c = false)
    (hys : ∀ c ∈ ys.head?, isWordChar c = true) :
    separate false (run ++ ys) = '_' :: separate false ys := by
  cases run with
  | nil => exact absurd rfl hne
  | cons c run =>
    rw [List.forall_mem_cons] at hrun
    rw [List.cons_append, separate, hrun.1, if_neg Bool.false_ne_true, if_neg Bool.false_ne_true,
      separate_run hrun.2, separate_of_head hys]

/-- The text ends inside of a run. -/
def endsInRun (inRun : Bool) : List Char → Bool
  | [] => inRun
  | c :: cs => endsInRun (!isWordChar c) cs

theorem separate_append (inRun : Bool) (xs ys : List Char) :
    separate inRun (xs ++ ys) = separate inRun xs ++ separate (endsInRun inRun xs) ys := by
  induction xs generalizing inRun with
  | nil => rfl
  | cons c xs ih =>
    rw [List.cons_append, separate, separate, endsInRun, ih, ih]
    cases isWordChar c with
    | true => rfl
    | false => cases inRun <;> rfl

theorem endsInRun_append_singleton (inRun : Bool) (xs : List Char) (c : Char) :
    endsInRun inRun (xs ++ [c]) = !isWordChar c := by
  induction xs generalizing inRun with
  | nil => rfl
  | cons x xs ih => exact ih _

theorem endsInRun_of_last (h : ∀ c ∈ xs.getLast?, isWordChar c = true) :
    endsInRun false xs = false := by
  rcases List.eq_nil_or_concat xs with rfl | ⟨xs, c, rfl⟩
  · rfl
  · rw [List.concat_eq_append] at h ⊢
    rw [endsInRun_append_singleton, h c (by simp)]
    rfl

theorem separate_map_toUpper (inRun : Bool) (cs : List Char) :
    separate inRun (cs.map Char.toUpper) = (separate inRun cs).map Char.toUpper := by
  induction cs generalizing inRun with
  | nil => rfl
  | cons c cs ih =>
    rw [List.map_cons, separate, separate, isWordChar_toUpper, ih, ih]
    cases isWordChar c with
    | true => rfl
    | false => cases inRun <;> rfl

theorem unbroken_separate (h : Unbroken cs) (inRun : Bool) : Unbroken (separate inRun cs) := by
  induction cs generalizing inRun with
  | nil => exact List.isChain_nil
  | cons c cs ih =>
    obtain ⟨hc, hcs⟩ := List.isChain_cons.1 h
    have hunderscore : Unbroken ('_' :: separate true cs) :=
      List.isChain_cons.2 ⟨fun _ _ => rfl, ih hcs true⟩
    rw [separate]
    by_cases hw : isWordChar c = true
    · rw [if_pos hw]
      refine List.isChain_cons.2 ⟨fun d hd => ?_, ih hcs false⟩
      cases cs with
      | nil => cases hd
      | cons d' cs =>
        rw [separate] at hd
        split at hd
        · cases hd
          exact hc _ rfl
        · cases hd
          exact isBoundary_underscore_right c
    · rw [if_neg hw]
      cases inRun with
      | true => exact ih hcs true
      | false => exact hunderscore

/-! ### Edits keep the name -/

theorem lead_eq_of_map_toUpper (h : xs.map Char.toUpper = ys.map Char.toUpper) :
    lead xs = lead ys := by
  cases xs with
  | nil => rw [List.map_eq_nil_iff.1 h.symm]
  | cons x xs =>
    cases ys with
    | nil => cases h
    | cons y ys =>
      rw [List.map_cons, List.map_cons, List.cons.injEq] at h
      rw [lead, lead, ← isDigit_toUpper x, h.1, isDigit_toUpper]

theorem words_cons_of_isWordChar (h : isWordChar c = true) (cs : List Char) :
    words (c :: cs) = c :: (gap c (separate false cs) ++ words cs) := by
  rw [words, separate_cons_of_isWordChar h, splitWords_cons, words]

theorem words_underscore (cs : List Char) : words ('_' :: cs) = '_' :: words cs := by
  rw [words_cons_of_isWordChar rfl, gap_underscore, List.nil_append]

theorem lead_words (h : lead xs = ['_']) : lead (words xs) = ['_'] := by
  cases xs with
  | nil => rfl
  | cons c cs =>
    by_cases hc : c.isDigit = true
    · rw [words_cons_of_isWordChar (isWordChar_of_isDigit hc), lead, if_pos hc]
    · rw [lead, if_neg hc] at h
      cases h

/-- Each edit keeps the name. -/
theorem name_eq_of_edit (h : Edit xs ys) : nameOf xs = nameOf ys := by
  have hwords : ∀ {xs ys}, words xs = words ys → nameOf xs = nameOf ys := by
    intro xs ys hw
    rw [nameOf, nameOf, hw]
  cases h with
  | @separator xs run ys hne hrun hxs hys =>
    refine hwords (congrArg splitWords ?_)
    rw [separate_append false xs, separate_append false xs, endsInRun_of_last hxs,
      separate_run_append hne hrun hys, separate_cons_of_isWordChar rfl]
  | @boundary xs ys a b h =>
    obtain ⟨ha, hb⟩ := isWordChar_of_isBoundary h
    refine hwords ?_
    rw [words, words, separate_append, separate_append, separate_cons_of_isWordChar ha,
      separate_cons_of_isWordChar ha, separate_cons_of_isWordChar hb,
      separate_cons_of_isWordChar (c := '_') rfl, separate_cons_of_isWordChar hb]
    exact splitWords_boundary h _ _
  | letters h hxs hys =>
    have hseparate : (separate false xs).map Char.toUpper = (separate false ys).map Char.toUpper := by
      rw [← separate_map_toUpper, h, separate_map_toUpper]
    rw [nameOf, nameOf, words, words, splitWords_of_unbroken (unbroken_separate hxs false),
      splitWords_of_unbroken (unbroken_separate hys false), hseparate,
      lead_eq_of_map_toUpper hseparate]
  | start h =>
    rw [nameOf, nameOf, words_underscore, lead_words h]
    rfl

theorem name_eq_of_respelled (h : Respelled xs ys) : nameOf xs = nameOf ys := by
  induction h with
  | rel xs ys h => exact name_eq_of_edit h
  | refl xs => rfl
  | symm xs ys _ ih => exact ih.symm
  | trans xs ys zs _ _ ih ih' => exact ih.trans ih'

/-! ### Edits lead to the words -/

/-- A text begins with a run, maybe of no characters. -/
theorem exists_run (cs : List Char) : ∃ run rest, cs = run ++ rest ∧
    (∀ c ∈ run, isWordChar c = false) ∧ ∀ c ∈ rest.head?, isWordChar c = true := by
  induction cs with
  | nil => exact ⟨[], [], rfl, nofun, nofun⟩
  | cons c cs ih =>
    by_cases hc : isWordChar c = true
    · refine ⟨[], c :: cs, rfl, nofun, fun d hd => ?_⟩
      cases hd
      exact hc
    · obtain ⟨run, rest, rfl, hrun, hrest⟩ := ih
      refine ⟨c :: run, rest, rfl, List.forall_mem_cons.2 ⟨?_, hrun⟩, hrest⟩
      exact Bool.not_eq_true _ ▸ hc

/-- The runs of a text can be written as underscores, one after another. -/
theorem respelled_separate (pre cs : List Char) (hpre : ∀ c ∈ pre.getLast?, isWordChar c = true) :
    Respelled (pre ++ cs) (pre ++ separate false cs) := by
  match cs with
  | [] => exact .refl _
  | c :: cs =>
    by_cases hc : isWordChar c = true
    · -- One more character of words goes to the text in front.
      have hlast : ∀ d ∈ (pre ++ [c]).getLast?, isWordChar d = true := by simpa using hc
      have hrest := respelled_separate (pre ++ [c]) cs hlast
      rw [separate_cons_of_isWordChar hc]
      simpa using hrest
    · -- The text in front ends in a word, so the run that starts here is a whole one.
      obtain ⟨run, rest, hcs, hrun, hrest⟩ := exists_run cs
      have hlength : rest.length ≤ cs.length := by
        rw [hcs, List.length_append]
        omega
      have hrun : ∀ d ∈ c :: run, isWordChar d = false :=
        List.forall_mem_cons.2 ⟨Bool.not_eq_true _ ▸ hc, hrun⟩
      have hlast : ∀ d ∈ (pre ++ ['_']).getLast?, isWordChar d = true := by
        simp [isWordChar]
      have hedit : Edit (pre ++ (c :: run ++ rest)) (pre ++ '_' :: rest) :=
        .separator (List.cons_ne_nil c run) hrun hpre hrest
      have hbehind : Respelled (pre ++ '_' :: rest) (pre ++ '_' :: separate false rest) := by
        simpa using respelled_separate (pre ++ ['_']) rest hlast
      rw [hcs, ← List.cons_append, separate_run_append (List.cons_ne_nil c run) hrun hrest]
      exact .trans _ _ _ (.rel _ _ hedit) hbehind
termination_by cs.length
decreasing_by
  · simp
  · simp only [List.length_cons]
    omega

/-- An underscore can be set at each boundary, one after another. -/
theorem respelled_splitWords (pre cs : List Char) : Respelled (pre ++ cs) (pre ++ splitWords cs) := by
  induction cs generalizing pre with
  | nil => exact .refl _
  | cons a cs ih =>
    rw [splitWords_cons]
    cases cs with
    | nil => exact .refl _
    | cons b cs =>
      rw [gap]
      split
      · rename_i h
        have hrest := ih (pre ++ [a, '_'])
        simp only [List.append_assoc, List.cons_append, List.nil_append] at hrest
        exact .trans _ _ _ (.rel _ _ (.boundary h)) hrest
      · have hrest := ih (pre ++ [a])
        simp only [List.append_assoc, List.cons_append, List.nil_append] at hrest
        exact hrest

/-- Every text is a respelling of its words. -/
theorem respelled_words (cs : List Char) : Respelled cs (words cs) :=
  .trans _ _ _ (respelled_separate [] cs nofun) (respelled_splitWords [] (separate false cs))

theorem lead_cases (cs : List Char) : lead cs = [] ∨ lead cs = ['_'] := by
  cases cs with
  | nil => exact .inr rfl
  | cons c cs =>
    rw [lead]
    split
    · exact .inr rfl
    · exact .inl rfl

/-- Texts in which no word begins are respellings of each other if one has an
underscore in front of what the other one starts with. -/
theorem respelled_of_start (hxs : Unbroken xs) (hys : Unbroken ys) (hlead : lead xs = ['_'])
    (h : '_' :: xs.map Char.toUpper = ys.map Char.toUpper) : Respelled xs ys := by
  have hstart : Unbroken ('_' :: xs) := List.isChain_cons.2 ⟨fun _ _ => rfl, hxs⟩
  exact .trans _ _ _ (.rel _ _ (.start hlead)) (.rel _ _ (.letters h hstart hys))

/-- Texts in which no word begins are respellings of each other if their names
are the same. -/
theorem respelled_of_unbroken (hxs : Unbroken xs) (hys : Unbroken ys)
    (h : lead xs ++ xs.map Char.toUpper = lead ys ++ ys.map Char.toUpper) : Respelled xs ys := by
  -- If both or neither get an underscore in front, only the case of letters differs.
  rcases lead_cases xs with hlead | hlead
  · rcases lead_cases ys with hlead' | hlead'
    · rw [hlead, hlead'] at h
      exact .rel _ _ (.letters h hxs hys)
    · rw [hlead, hlead'] at h
      exact .symm _ _ (respelled_of_start hys hxs hlead' h.symm)
  · rcases lead_cases ys with hlead' | hlead'
    · rw [hlead, hlead'] at h
      exact respelled_of_start hxs hys hlead h
    · rw [hlead, hlead'] at h
      exact .rel _ _ (.letters (List.append_cancel_left h) hxs hys)

/-- Texts are respellings of each other exactly if their names are the same. -/
theorem respelled_iff : Respelled xs ys ↔ nameOf xs = nameOf ys := by
  constructor
  · exact name_eq_of_respelled
  · intro h
    have hwords : Respelled (words xs) (words ys) :=
      respelled_of_unbroken (unbroken_splitWords _) (unbroken_splitWords _) h
    exact .trans _ _ _ (respelled_words xs) (.trans _ _ _ hwords (.symm _ _ (respelled_words ys)))

example : Respelled "user-name".toList "userName".toList :=
  respelled_iff.2 (by decide)

/-- **Values share a member name exactly if they are respellings.** -/
theorem member_eq_iff (x y : String) :
    member x = member y ↔ Respelled (Text.trim x.toList) (Text.trim y.toList) := by
  rw [member_eq_nameOf, member_eq_nameOf, String.ofList_inj, respelled_iff]

end SchemaTypes.Identifier
