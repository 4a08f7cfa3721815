/-
# A member name is one scan of its text

A member name is made in three passes: runs of characters outside words become
underscores, underscores are set at word boundaries by matches that do not
overlap, and letters are capitalised. One scan from left to right gives the
same: what a character gives to the name depends on itself and on the character
before it in the text, and on nothing else (`Identifier.piece`).

The passes could miss a boundary that the scan sees, or set an underscore that
it does not: a match takes up two characters, and a run that has become an
underscore brings its neighbours together. Neither happens. The second
character of a match is a capital, which begins no other match, and next to an
underscore there is no boundary on either side.

Key definitions: `Identifier.piece`, `Identifier.scan`,
`Identifier.CapitalName`.
Key theorems: `Identifier.scan_some`, `Identifier.nameOf_eq_scan`,
`Identifier.member_eq_scan`.
-/
import Mathlib
import SchemaTypes.Proofs.Identifier.Respelling

namespace SchemaTypes.Identifier

variable {c p : Char} {cs xs ys run : List Char} {before : Option Char}

/-- What a character gives to the name behind another one: a character of
words itself as a capital, with an underscore in front if a word begins there;
the first character of a run outside words an underscore, and the others of the
run nothing. -/
def piece (before : Option Char) (c : Char) : List Char :=
  if isWordChar c then
    if before.any (isBoundary · c) then ['_', c.toUpper] else [c.toUpper]
  else if before.any (!isWordChar ·) then [] else ['_']

/-- The pieces of the characters of a text, from left to right. -/
def scan (before : Option Char) : List Char → List Char
  | [] => []
  | c :: cs => piece before c ++ scan (some c) cs

/-- A capital of ASCII or an underscore. -/
def CapitalStart (c : Char) : Prop :=
  ('A' ≤ c ∧ c ≤ 'Z') ∨ c = '_'

/-- A capital or a digit of ASCII, or an underscore. -/
def CapitalPart (c : Char) : Prop :=
  CapitalStart c ∨ ('0' ≤ c ∧ c ≤ '9')

/-- A capital or an underscore and then, to the end of the name, capitals,
digits and underscores. -/
def CapitalName (name : String) : Prop :=
  ∃ c cs, name.toList = c :: cs ∧ CapitalStart c ∧ ∀ d ∈ cs, CapitalPart d

/-! ### The pieces of a text -/

theorem scan_append (before : Option Char) (xs ys : List Char) :
    scan before (xs ++ ys) = scan before xs ++ scan (xs.getLast?.or before) ys := by
  induction xs generalizing before with
  | nil => rfl
  | cons x xs ih =>
    have hlast : (x :: xs).getLast?.or before = xs.getLast?.or (some x) := by
      rw [List.getLast?_cons]
      cases xs.getLast? <;> rfl
    rw [List.cons_append, scan, scan, ih, hlast, List.append_assoc]

/-- Where no capital occurs, characters of words give themselves in capitals. -/
theorem scan_eq_map_toUpper (hword : ∀ c ∈ cs, isWordChar c = true)
    (hupper : ∀ c ∈ cs, c.isUpper = false) (before : Option Char) :
    scan before cs = cs.map Char.toUpper := by
  induction cs generalizing before with
  | nil => rfl
  | cons c cs ih =>
    rw [List.forall_mem_cons] at hword hupper
    have hnone : before.any (isBoundary · c) = false := by
      cases before with
      | none => rfl
      | some p => simp [isBoundary, hupper.1]
    have hpiece : piece before c = [c.toUpper] := by
      simp [piece, hword.1, hnone]
    rw [scan, hpiece, ih hword.2 hupper.2, List.map_cons, List.singleton_append]

/-- Inside of a run nothing more is given. -/
theorem scan_inside (hp : isWordChar p = false) (hrun : ∀ c ∈ run, isWordChar c = false) :
    scan (some p) run = [] := by
  induction run generalizing p with
  | nil => rfl
  | cons c run ih =>
    rw [List.forall_mem_cons] at hrun
    have hpiece : piece (some p) c = [] := by simp [piece, hp, hrun.1]
    rw [scan, hpiece, ih hrun.1 hrun.2, List.append_nil]

/-- A run behind a character of words gives one underscore. -/
theorem scan_run (hp : isWordChar p = true) (hne : run ≠ [])
    (hrun : ∀ c ∈ run, isWordChar c = false) : scan (some p) run = ['_'] := by
  cases run with
  | nil => exact absurd rfl hne
  | cons c run =>
    rw [List.forall_mem_cons] at hrun
    have hpiece : piece (some p) c = ['_'] := by simp [piece, hp, hrun.1]
    rw [scan, hpiece, scan_inside hrun.1 hrun.2, List.append_nil]

/-! ### The passes are the scan -/

/-- The character that stands in the separated text for one of the text. -/
def shown (c : Char) : Char :=
  if isWordChar c then c else '_'

/-- Whether a word begins behind a character can be seen in the separated text
as well. -/
theorem isBoundary_shown (p c : Char) : isBoundary (shown p) c = isBoundary p c := by
  unfold shown
  split
  · rfl
  · rename_i hp
    have hnot : isBoundary p c = false := by
      by_contra h
      exact hp (isWordChar_of_isBoundary (Bool.not_eq_false _ ▸ h)).1
    rw [hnot, isBoundary_underscore_left]

/-- The scan behind a character gives what the passes give, with the underscore
that the character has behind it. -/
theorem scan_some (p : Char) (cs : List Char) :
    scan (some p) cs =
      (gap (shown p) (separate (!isWordChar p) cs) ++
        splitWords (separate (!isWordChar p) cs)).map Char.toUpper := by
  induction cs generalizing p with
  | nil => rfl
  | cons c cs ih =>
    rw [scan, ih c]
    by_cases hc : isWordChar c = true
    · -- The character stays, and the next boundary is looked for behind it.
      have hshown : shown c = c := if_pos hc
      rw [separate_cons_of_isWordChar hc, splitWords_cons, gap, isBoundary_shown, hshown, hc]
      by_cases hb : isBoundary p c = true
      · simp [piece, hc, hb]
      · simp [piece, hc, hb]
    · have hshown : shown c = '_' := if_neg hc
      by_cases hp : isWordChar p = true
      · -- The run begins here, and neither side of its underscore is a boundary.
        have hseparate : separate (!isWordChar p) (c :: cs) = '_' :: separate true cs := by
          simp [separate, hc, hp]
        have hgap : gap (shown p) ('_' :: separate true cs) = [] := by
          simp [gap]
        rw [hseparate, hgap, splitWords_cons]
        simp [piece, hc, hp, hshown]
      · have hseparate : separate (!isWordChar p) (c :: cs) = separate true cs := by
          simp [separate, hc, hp]
        have hshownp : shown p = '_' := if_neg hp
        rw [hseparate, hshownp]
        simp [piece, hc, hp, hshown]

/-- A text starts as if an underscore stood in front of it. -/
theorem scan_none (cs : List Char) : scan none cs = scan (some '_') cs := by
  cases cs with
  | nil => rfl
  | cons c cs => simp [scan, piece, isWordChar]

theorem map_toUpper_words (cs : List Char) : (words cs).map Char.toUpper = scan none cs := by
  rw [scan_none, scan_some, show shown '_' = '_' from rfl, show (!isWordChar '_') = false from rfl,
    gap_underscore, List.nil_append, words]

/-- The words of a text are empty or begin with a digit exactly if the text is
or does. -/
theorem lead_words_eq (cs : List Char) : lead (words cs) = lead cs := by
  cases cs with
  | nil => rfl
  | cons c cs =>
    by_cases hc : isWordChar c = true
    · rw [words_cons_of_isWordChar hc, lead, lead]
    · have hdigit : c.isDigit = false := by
        by_contra h
        exact hc (isWordChar_of_isDigit (Bool.not_eq_false _ ▸ h))
      have hwords : words (c :: cs) = '_' :: splitWords (separate true cs) := by
        simp [words, separate, hc, splitWords_cons]
      rw [hwords, lead, lead, hdigit]
      rfl

/-- The name of a text is its scan, behind an underscore if the text is empty
or begins with a digit. -/
theorem nameOf_eq_scan (cs : List Char) : nameOf cs = lead cs ++ scan none cs := by
  rw [nameOf, lead_words_eq, map_toUpper_words]

/-! ### What the scan gives -/

theorem capitalStart_underscore : CapitalStart '_' :=
  .inr rfl

theorem capitalStart_of_isAlpha (h : c.isAlpha = true) : CapitalStart c.toUpper := by
  have hupper : c.toUpper.isUpper = true := by rw [Char.isUpper_toUpper_eq_isAlpha, h]
  left
  simpa [Char.isUpper, Char.le_def] using hupper

/-- A character of words that is no digit may begin a name in capitals. -/
theorem capitalStart_toUpper (hword : isWordChar c = true) (hdigit : c.isDigit = false) :
    CapitalStart c.toUpper := by
  rw [isWordChar, Char.isAlphanum, hdigit, Bool.or_false, Bool.or_eq_true] at hword
  rcases hword with halpha | hunderscore
  · exact capitalStart_of_isAlpha halpha
  · rw [of_decide_eq_true hunderscore]
    exact capitalStart_underscore

theorem capitalPart_toUpper (hword : isWordChar c = true) : CapitalPart c.toUpper := by
  by_cases hdigit : c.isDigit = true
  · right
    rw [← isDigit_toUpper] at hdigit
    simpa [Char.isDigit, Char.le_def] using hdigit
  · exact .inl (capitalStart_toUpper hword (Bool.not_eq_true _ ▸ hdigit))

theorem capitalPart_of_mem_piece {d : Char} (h : d ∈ piece before c) : CapitalPart d := by
  have hunderscore : CapitalPart '_' := .inl capitalStart_underscore
  unfold piece at h
  split at h
  · rename_i hword
    have hupper : CapitalPart c.toUpper := capitalPart_toUpper hword
    split at h
    · rcases List.mem_pair.1 h with rfl | rfl
      · exact hunderscore
      · exact hupper
    · rw [List.mem_singleton.1 h]
      exact hupper
  · split at h
    · cases h
    · rw [List.mem_singleton.1 h]
      exact hunderscore

/-- A scan gives capitals, digits and underscores only. -/
theorem capitalPart_of_mem_scan {d : Char} (h : d ∈ scan before cs) : CapitalPart d := by
  induction cs generalizing before with
  | nil => cases h
  | cons c cs ih =>
    rcases List.mem_append.1 h with h | h
    · exact capitalPart_of_mem_piece h
    · exact ih h

/-- A text gives a name in capitals: the first character of its scan is a digit
only where the text begins with one, and then an underscore stands in front. -/
theorem capitalName_nameOf (cs : List Char) : CapitalName (String.ofList (nameOf cs)) := by
  rw [CapitalName, String.toList_ofList, nameOf_eq_scan]
  cases cs with
  | nil => exact ⟨'_', [], rfl, capitalStart_underscore, nofun⟩
  | cons c cs =>
    by_cases hdigit : c.isDigit = true
    · have hlead : lead (c :: cs) = ['_'] := if_pos hdigit
      rw [hlead]
      exact ⟨'_', _, rfl, capitalStart_underscore, fun d hd => capitalPart_of_mem_scan hd⟩
    · have hlead : lead (c :: cs) = [] := if_neg hdigit
      have hrest : ∀ d ∈ scan (some c) cs, CapitalPart d := fun d hd => capitalPart_of_mem_scan hd
      rw [hlead, List.nil_append, scan]
      by_cases hword : isWordChar c = true
      · have hpiece : piece none c = [c.toUpper] := by simp [piece, hword]
        rw [hpiece]
        exact ⟨_, _, rfl, capitalStart_toUpper hword (Bool.not_eq_true _ ▸ hdigit), hrest⟩
      · have hpiece : piece none c = ['_'] := by simp [piece, hword]
        rw [hpiece]
        exact ⟨_, _, rfl, capitalStart_underscore, hrest⟩

/-- **A member name is one scan of the trimmed text.** Behind an underscore
that stands in front if the text is empty or begins with a digit, each
character gives its piece, from left to right. The name is a capital or an
underscore and then, to its end, capitals, digits and underscores. -/
theorem member_eq_scan (raw : String) :
    member raw =
        String.ofList (lead (Text.trim raw.toList) ++ scan none (Text.trim raw.toList)) ∧
      CapitalName (member raw) := by
  rw [member_eq_nameOf]
  exact ⟨by rw [nameOf_eq_scan], capitalName_nameOf _⟩

example : scan none "v2Beta-- aB".toList = "V2_BETA_A_B".toList := by decide

end SchemaTypes.Identifier
