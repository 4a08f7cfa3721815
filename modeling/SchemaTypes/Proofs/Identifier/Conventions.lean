/-
# Ways to spell the same words

The words of a name are set next to each other in camel case, with an
underscore between them, or with any run of characters outside words between
them. A member name is the same for all of these: the words in capitals, with
single underscores between them. This holds whichever way is taken at which
joint, and with any blanks around the text (`Identifier.nameOf_spelled`).

The scan of a text sees a joint from the character in front of it. A run and an
underscore show themselves. A capital shows that a word begins only behind a
small letter or a digit, so a word that is set between two others in camel case
has to have a second character: `aBC` is spelled `A_BC`.

Key definitions: `Identifier.SmallWord`, `Identifier.Joint`,
`Identifier.spelled`.
Key theorems: `Text.trim_append`, `Identifier.scan_join`,
`Identifier.nameOf_spelled`, `Identifier.member_conventions`.
-/
import Mathlib
import SchemaTypes.Proofs.Identifier.Scan

namespace SchemaTypes

namespace Text

variable {before cs after : List Char}

theorem trimStart_append (h : ∀ c ∈ before, isBlank c = true) (cs : List Char) :
    trimStart (before ++ cs) = trimStart cs :=
  List.dropWhile_append_of_pos h

theorem trimStart_eq_self (h : ∀ c ∈ cs.head?, isBlank c = false) : trimStart cs = cs := by
  cases cs with
  | nil => rfl
  | cons c cs => exact List.dropWhile_cons_of_neg (by simp [h c rfl])

/-- Blanks around a text that has none at its ends are trimmed off. -/
theorem trim_append (hbefore : ∀ c ∈ before, isBlank c = true)
    (hafter : ∀ c ∈ after, isBlank c = true) (hne : cs ≠ [])
    (hhead : ∀ c ∈ cs.head?, isBlank c = false) (hlast : ∀ c ∈ cs.getLast?, isBlank c = false) :
    trim (before ++ cs ++ after) = cs := by
  have hstart : ∀ c ∈ (cs ++ after).head?, isBlank c = false := by
    rwa [List.head?_append_of_ne_nil _ hne]
  have hend : ∀ c ∈ cs.reverse.head?, isBlank c = false := by
    rwa [List.head?_reverse]
  have hreverse : ∀ c ∈ after.reverse, isBlank c = true := fun c hc =>
    hafter c (List.mem_reverse.1 hc)
  calc trim (before ++ cs ++ after)
      = (trimStart (cs ++ after).reverse).reverse := by
        rw [trim, List.append_assoc, trimStart_append hbefore, trimStart_eq_self hstart]
    _ = (trimStart cs.reverse).reverse := by
        rw [List.reverse_append, trimStart_append hreverse]
    _ = cs := by rw [trimStart_eq_self hend, List.reverse_reverse]

end Text

namespace Identifier

/-- A small letter of ASCII or a digit of ASCII. -/
def isSmall (c : Char) : Bool :=
  c.isLower || c.isDigit

/-- A small letter and then, to the end of the word, small letters and
digits. -/
def SmallWord (w : List Char) : Prop :=
  ∃ c cs, w = c :: cs ∧ c.isLower = true ∧ ∀ d ∈ cs, isSmall d = true

/-- How a word is set behind another one. -/
inductive Joint where
  /-- Its first letter is a capital. -/
  | capital
  | underscore
  | run (cs : List Char)

/-- A word that begins with a capital. -/
def capitalized : List Char → List Char
  | [] => []
  | c :: cs => c.toUpper :: cs

namespace Joint

/-- The word and what sets it apart from the one in front. -/
def join : Joint → List Char → List Char
  | capital, w => capitalized w
  | underscore, w => '_' :: w
  | run cs, w => cs ++ w

/-- A run is one of characters outside words, and not empty. -/
def Separates : Joint → Prop
  | run cs => cs ≠ [] ∧ ∀ c ∈ cs, isWordChar c = false
  | _ => True

end Joint

/-- A word and the joined words behind it. -/
def spelled (w : List Char) (vs : List (Joint × List Char)) : List Char :=
  w ++ vs.flatMap fun v => v.1.join v.2

/-- The words in capitals, with single underscores between them. -/
def spelledOut (ws : List (List Char)) : List Char :=
  ['_'].intercalate (ws.map (List.map Char.toUpper))

variable {c p : Char} {w v run : List Char} {j : Joint} {vs : List (Joint × List Char)}

/-! ### Small letters and digits -/

theorem isWordChar_of_isSmall (h : isSmall c = true) : isWordChar c = true := by
  rw [isSmall, Bool.or_eq_true] at h
  rcases h with hlower | hdigit
  · exact isWordChar_of_isAlpha (by rw [Char.isAlpha, hlower, Bool.or_true])
  · exact isWordChar_of_isDigit hdigit

theorem isUpper_of_isSmall (h : isSmall c = true) : c.isUpper = false := by
  by_contra hupper
  rw [Bool.not_eq_false] at hupper
  have hlower : ¬ c.isLower = true := Char.not_isLower_of_isUpper hupper
  have hdigit : c.isDigit = false := isDigit_of_isAlpha (by rw [Char.isAlpha, hupper, Bool.true_or])
  simp [isSmall, hlower, hdigit] at h

/-- No character of words is blank. -/
theorem isBlank_of_isWordChar (h : isWordChar c = true) : Text.isBlank c = false := by
  have hrange : (48 ≤ c.toNat ∧ c.toNat ≤ 57) ∨ (65 ≤ c.toNat ∧ c.toNat ≤ 122) := by
    simp only [isWordChar, Char.isAlphanum, Char.isAlpha, Char.isUpper, Char.isLower, Char.isDigit,
      Bool.or_eq_true, Bool.and_eq_true, decide_eq_true_eq, UInt32.le_iff_toNat_le, ge_iff_le] at h
    have hval : c.toNat = c.val.toNat := rfl
    have h0 : '0'.val.toNat = 48 := rfl
    have h9 : '9'.val.toNat = 57 := rfl
    have hA : 'A'.val.toNat = 65 := rfl
    have hZ : 'Z'.val.toNat = 90 := rfl
    have ha : 'a'.val.toNat = 97 := rfl
    have hz : 'z'.val.toNat = 122 := rfl
    rcases h with h | rfl
    · omega
    · decide
  rw [Text.isBlank, Text.blankRanges, List.any_eq_false]
  simp only [List.mem_cons, List.not_mem_nil, or_false, Bool.and_eq_true, decide_eq_true_eq]
  rintro r hr ⟨hlow, hhigh⟩
  rcases hr with rfl | rfl | rfl | rfl | rfl | rfl | rfl | rfl | rfl | rfl <;>
    simp only at hlow hhigh <;> omega

namespace SmallWord

theorem isSmall_of_mem (h : SmallWord w) : ∀ c ∈ w, isSmall c = true := by
  obtain ⟨c, cs, rfl, hc, hcs⟩ := h
  exact List.forall_mem_cons.2 ⟨by rw [isSmall, hc, Bool.true_or], hcs⟩

theorem ne_nil (h : SmallWord w) : w ≠ [] := by
  obtain ⟨c, cs, rfl, -⟩ := h
  exact List.cons_ne_nil c cs

theorem isWordChar_of_mem (h : SmallWord w) : ∀ c ∈ w, isWordChar c = true := fun c hc =>
  isWordChar_of_isSmall (h.isSmall_of_mem c hc)

/-- A word ends in a small letter or a digit. -/
theorem exists_getLast? (h : SmallWord w) : ∃ c, w.getLast? = some c ∧ isSmall c = true := by
  obtain ⟨c, hc⟩ := Option.ne_none_iff_exists'.1 (mt List.getLast?_eq_none_iff.1 h.ne_nil)
  exact ⟨c, hc, h.isSmall_of_mem c (List.mem_of_mem_getLast? hc)⟩

theorem scan_eq (h : SmallWord w) (before : Option Char) : scan before w = w.map Char.toUpper :=
  scan_eq_map_toUpper h.isWordChar_of_mem
    (fun c hc => isUpper_of_isSmall (h.isSmall_of_mem c hc)) before

end SmallWord

/-! ### Joints -/

/-- Behind a small letter or a digit, every joint gives an underscore and then
the word in capitals. -/
theorem scan_join (hp : isSmall p = true) (hj : j.Separates) (hv : SmallWord v) :
    scan (some p) (j.join v) = '_' :: v.map Char.toUpper := by
  have hword : isWordChar p = true := isWordChar_of_isSmall hp
  cases j with
  | capital =>
    obtain ⟨c, cs, rfl, hc, hcs⟩ := hv
    have halpha : c.isAlpha = true := by rw [Char.isAlpha, hc, Bool.or_true]
    have hupper : c.toUpper.isUpper = true := by rw [Char.isUpper_toUpper_eq_isAlpha, halpha]
    have hboundary : isBoundary p c.toUpper = true := by
      rw [isBoundary, hupper, Bool.and_true]
      exact hp
    have hpiece : piece (some p) c.toUpper = ['_', c.toUpper] := by
      simp [piece, (isWordChar_of_isBoundary hboundary).2, hboundary]
    have hrest : scan (some c.toUpper) cs = cs.map Char.toUpper :=
      scan_eq_map_toUpper (fun d hd => isWordChar_of_isSmall (hcs d hd))
        (fun d hd => isUpper_of_isSmall (hcs d hd)) _
    rw [Joint.join, capitalized, scan, hpiece, hrest]
    rfl
  | underscore =>
    have hpiece : piece (some p) '_' = ['_'] := by simp [piece, isWordChar]
    rw [Joint.join, scan, hpiece, hv.scan_eq]
    rfl
  | run cs =>
    rw [Joint.join, scan_append, scan_run hword hj.1 hj.2, hv.scan_eq]
    rfl

theorem join_ne_nil (hv : SmallWord v) : j.join v ≠ [] := by
  obtain ⟨c, cs, rfl, -⟩ := hv
  cases j with
  | capital => exact List.cons_ne_nil _ _
  | underscore => exact List.cons_ne_nil _ _
  | run run => exact List.append_ne_nil_of_right_ne_nil _ (List.cons_ne_nil _ _)

/-- A joined word of two characters or more ends as it does alone. -/
theorem getLast?_join (hlength : 2 ≤ v.length) : (j.join v).getLast? = v.getLast? := by
  obtain ⟨c, d, cs, rfl⟩ : ∃ c d cs, v = c :: d :: cs := by
    match v, hlength with
    | c :: d :: cs, _ => exact ⟨c, d, cs, rfl⟩
  cases j with
  | capital => rw [Joint.join, capitalized, List.getLast?_cons_cons, List.getLast?_cons_cons]
  | underscore => rw [Joint.join, List.getLast?_cons_cons]
  | run run => rw [Joint.join, List.getLast?_append, List.getLast?_cons_cons, List.getLast?_cons]; rfl

/-- A joined word ends in a character of words. -/
theorem isWordChar_getLast?_join (hv : SmallWord v) :
    ∀ c ∈ (j.join v).getLast?, isWordChar c = true := by
  intro c hc
  cases j with
  | capital =>
    obtain ⟨d, ds, rfl, hd, hds⟩ := hv
    rcases List.mem_cons.1 (List.mem_of_mem_getLast? hc) with rfl | hmem
    · rw [isWordChar_toUpper]
      exact isWordChar_of_isAlpha (by rw [Char.isAlpha, hd, Bool.or_true])
    · exact isWordChar_of_isSmall (hds c hmem)
  | underscore =>
    rcases List.mem_cons.1 (List.mem_of_mem_getLast? hc) with rfl | hmem
    · rfl
    · exact hv.isWordChar_of_mem c hmem
  | run run =>
    rw [Joint.join, List.getLast?_append_of_ne_nil _ hv.ne_nil] at hc
    exact hv.isWordChar_of_mem c (List.mem_of_mem_getLast? hc)

/-! ### Words behind one another -/

/-- Behind a small letter or a digit, each joined word gives an underscore and
itself in capitals: a word with others on both sides ends in a small letter or
a digit again, whatever sets it apart. -/
theorem scan_joins (hp : isSmall p = true) (hvs : ∀ v ∈ vs, v.1.Separates ∧ SmallWord v.2)
    (hinner : ∀ v ∈ (vs.map Prod.snd).dropLast, 2 ≤ v.length) :
    scan (some p) (vs.flatMap fun v => v.1.join v.2) =
      vs.flatMap fun v => '_' :: v.2.map Char.toUpper := by
  induction vs generalizing p with
  | nil => rfl
  | cons v vs ih =>
    rw [List.forall_mem_cons] at hvs
    obtain ⟨⟨hj, hv⟩, hvs⟩ := hvs
    rw [List.flatMap_cons, List.flatMap_cons, scan_append, scan_join hp hj hv]
    cases vs with
    | nil => rfl
    | cons u us =>
      simp only [List.map_cons, List.dropLast_cons_cons, List.forall_mem_cons] at hinner
      obtain ⟨hlength, hinner⟩ := hinner
      obtain ⟨q, hq, hsmall⟩ := hv.exists_getLast?
      rw [getLast?_join hlength, hq, Option.some_or, ih hsmall hvs hinner]

theorem intercalate_cons {α : Type} (sep x : List α) (xs : List (List α)) :
    sep.intercalate (x :: xs) = x ++ xs.flatMap (sep ++ ·) := by
  induction xs generalizing x with
  | nil => simp
  | cons y ys ih => rw [List.intercalate_cons_cons, ih, List.flatMap_cons, List.append_assoc,
      List.append_assoc]

theorem spelledOut_cons (w : List Char) (ws : List (List Char)) :
    spelledOut (w :: ws) =
      w.map Char.toUpper ++ ws.flatMap fun v => '_' :: v.map Char.toUpper := by
  rw [spelledOut, List.map_cons, intercalate_cons, List.flatMap_map]
  rfl

/-- Joined words give the name of the words, whatever sets each apart from the
one in front. -/
theorem nameOf_spelled (hw : SmallWord w) (hvs : ∀ v ∈ vs, v.1.Separates ∧ SmallWord v.2)
    (hinner : ∀ v ∈ (vs.map Prod.snd).dropLast, 2 ≤ v.length) :
    nameOf (spelled w vs) = spelledOut (w :: vs.map Prod.snd) := by
  have hlead : lead (spelled w vs) = [] := by
    obtain ⟨c, cs, rfl, hc, -⟩ := hw
    have hdigit : c.isDigit = false := isDigit_of_isAlpha (by rw [Char.isAlpha, hc, Bool.or_true])
    simp [spelled, lead, hdigit]
  obtain ⟨q, hq, hsmall⟩ := hw.exists_getLast?
  calc nameOf (spelled w vs)
      = scan none w ++ scan (some q) (vs.flatMap fun v => v.1.join v.2) := by
        rw [nameOf_eq_scan, hlead, List.nil_append, spelled, scan_append, hq, Option.some_or]
    _ = w.map Char.toUpper ++ vs.flatMap fun v => '_' :: v.2.map Char.toUpper := by
        rw [hw.scan_eq, scan_joins hsmall hvs hinner]
    _ = spelledOut (w :: vs.map Prod.snd) := by
        rw [spelledOut_cons, List.flatMap_map]

/-- Joined words end in a character of words. -/
theorem isWordChar_getLast?_spelled (hw : SmallWord w) (hvs : ∀ v ∈ vs, SmallWord v.2) :
    ∀ c ∈ (spelled w vs).getLast?, isWordChar c = true := by
  have hword : ∀ c ∈ w.getLast?, isWordChar c = true := fun c hc =>
    hw.isWordChar_of_mem c (List.mem_of_mem_getLast? hc)
  unfold spelled
  induction vs using List.reverseRecOn with
  | nil => simpa using hword
  | append_singleton vs v ih =>
    have hv : SmallWord v.2 := hvs v (by simp)
    intro c hc
    rw [List.flatMap_append, List.flatMap_singleton, ← List.append_assoc,
      List.getLast?_append_of_ne_nil _ (join_ne_nil hv)] at hc
    exact isWordChar_getLast?_join hv c hc

/-- Blanks around joined words are trimmed off. -/
theorem member_spelled {before after : List Char} (hbefore : ∀ c ∈ before, Text.isBlank c = true)
    (hafter : ∀ c ∈ after, Text.isBlank c = true) (hw : SmallWord w)
    (hvs : ∀ v ∈ vs, v.1.Separates ∧ SmallWord v.2)
    (hinner : ∀ v ∈ (vs.map Prod.snd).dropLast, 2 ≤ v.length) :
    member (String.ofList (before ++ spelled w vs ++ after)) =
      String.ofList (spelledOut (w :: vs.map Prod.snd)) := by
  have hne : spelled w vs ≠ [] := by
    simp [spelled, hw.ne_nil]
  have hhead : ∀ c ∈ (spelled w vs).head?, Text.isBlank c = false := by
    intro c hc
    rw [spelled, List.head?_append_of_ne_nil _ hw.ne_nil] at hc
    exact isBlank_of_isWordChar (hw.isWordChar_of_mem c (List.mem_of_mem_head? hc))
  have hlast : ∀ c ∈ (spelled w vs).getLast?, Text.isBlank c = false := fun c hc =>
    isBlank_of_isWordChar (isWordChar_getLast?_spelled hw (fun v hv => (hvs v hv).2) c hc)
  rw [member_eq_nameOf, String.toList_ofList, Text.trim_append hbefore hafter hne hhead hlast,
    nameOf_spelled hw hvs hinner]

/-! ### The three conventions -/

theorem spelled_camel (w : List Char) (ws : List (List Char)) :
    spelled w (ws.map (Joint.capital, ·)) = w ++ ws.flatMap capitalized := by
  rw [spelled, List.flatMap_map]
  rfl

theorem spelled_underscores (w : List Char) (ws : List (List Char)) :
    spelled w (ws.map (Joint.underscore, ·)) = ['_'].intercalate (w :: ws) := by
  rw [spelled, List.flatMap_map, intercalate_cons]
  rfl

theorem spelled_runs (w : List Char) (runs ws : List (List Char)) :
    spelled w ((runs.zip ws).map fun v => (.run v.1, v.2)) =
      w ++ (List.zipWith (· ++ ·) runs ws).flatten := by
  rw [spelled, List.flatMap_map, List.flatMap_def, List.zip_eq_zipWith, List.map_zipWith]
  rfl

/-- **Spelling conventions agree.** Let each word be a small letter and then
small letters and digits, and let each one between two others have two
characters or more. In camel case, with single underscores and with any runs of
characters outside words between them, and with any blanks around, the words
have the same member name: the words in capitals with single underscores
between them. -/
theorem member_conventions {w : List Char} {ws runs : List (List Char)} {before after : List Char}
    (hws : ∀ v ∈ w :: ws, SmallWord v) (hinner : ∀ v ∈ ws.dropLast, 2 ≤ v.length)
    (hlength : runs.length = ws.length)
    (hruns : ∀ run ∈ runs, run ≠ [] ∧ ∀ c ∈ run, isWordChar c = false)
    (hbefore : ∀ c ∈ before, Text.isBlank c = true)
    (hafter : ∀ c ∈ after, Text.isBlank c = true) :
    let name := String.ofList (spelledOut (w :: ws))
    member (String.ofList (before ++ (w ++ ws.flatMap capitalized) ++ after)) = name ∧
      member (String.ofList (before ++ ['_'].intercalate (w :: ws) ++ after)) = name ∧
      member (String.ofList
        (before ++ (w ++ (List.zipWith (· ++ ·) runs ws).flatten) ++ after)) = name := by
  rw [List.forall_mem_cons] at hws
  obtain ⟨hw, hws⟩ := hws
  -- One way at every joint is a way at each joint.
  have hsame : ∀ j : Joint, j.Separates →
      member (String.ofList (before ++ spelled w (ws.map (j, ·)) ++ after)) =
        String.ofList (spelledOut (w :: ws)) := by
    intro j hj
    have hsnd : (ws.map (j, ·)).map Prod.snd = ws := by
      rw [List.map_map]
      exact List.map_id ws
    have hvs : ∀ v ∈ ws.map (j, ·), v.1.Separates ∧ SmallWord v.2 := by
      rw [List.forall_mem_map]
      exact fun v hv => ⟨hj, hws v hv⟩
    have hjoined := member_spelled hbefore hafter hw hvs (by rwa [hsnd])
    rwa [hsnd] at hjoined
  have hsnd : ((runs.zip ws).map fun v => (Joint.run v.1, v.2)).map Prod.snd = ws := by
    rw [List.map_map]
    exact List.map_snd_zip hlength.ge
  refine ⟨?_, ?_, ?_⟩
  · rw [← spelled_camel]
    exact hsame .capital trivial
  · rw [← spelled_underscores]
    exact hsame .underscore trivial
  · rw [← spelled_runs]
    have hvs : ∀ v ∈ (runs.zip ws).map fun v => (Joint.run v.1, v.2),
        v.1.Separates ∧ SmallWord v.2 := by
      rw [List.forall_mem_map]
      intro v hv
      exact ⟨hruns v.1 (List.of_mem_zip hv).1, hws v.2 (List.of_mem_zip hv).2⟩
    have hjoined := member_spelled hbefore hafter hw hvs (by rwa [hsnd])
    rwa [hsnd] at hjoined

/-- A one-letter word between two others is lost in camel case. -/
example : member "aBC" = "A_BC" ∧ member "a-b-c" = "A_B_C" := by decide

/-- Two words and a letter, with a blank beyond ASCII in front. -/
theorem member_userV2X :
    (∀ v ∈ [['u', 's', 'e', 'r'], ['v', '2'], ['x']], SmallWord v) ∧
      (∀ run ∈ [['-', '-'], ['é', '.']], run ≠ [] ∧ ∀ c ∈ run, isWordChar c = false) ∧
      (∀ c ∈ ['\u2003'], Text.isBlank c = true) ∧
      member "\u2003userV2X" = "USER_V2_X" ∧ member "\u2003user_v2_x" = "USER_V2_X" ∧
      member "\u2003user--v2é.x" = "USER_V2_X" := by
  have hwords : ∀ v ∈ [['u', 's', 'e', 'r'], ['v', '2'], ['x']], SmallWord v := by
    intro v hv
    simp only [List.mem_cons, List.not_mem_nil, or_false] at hv
    rcases hv with rfl | rfl | rfl
    · exact ⟨'u', ['s', 'e', 'r'], rfl, by decide, by simp [isSmall]⟩
    · exact ⟨'v', ['2'], rfl, by decide, by simp [isSmall]⟩
    · exact ⟨'x', [], rfl, by decide, nofun⟩
  have hinner : ∀ v ∈ [['v', '2'], ['x']].dropLast, 2 ≤ v.length := by simp
  have hlength : [['-', '-'], ['é', '.']].length = [['v', '2'], ['x']].length := rfl
  have hruns : ∀ run ∈ [['-', '-'], ['é', '.']], run ≠ [] ∧ ∀ c ∈ run, isWordChar c = false := by
    simp [isWordChar]
  have hblank : ∀ c ∈ ['\u2003'], Text.isBlank c = true := by
    simp [Text.isBlank, Text.blankRanges]
  have hafter : ∀ c ∈ ([] : List Char), Text.isBlank c = true := nofun
  obtain ⟨hcamel, hunderscores, hjoined⟩ :=
    member_conventions hwords hinner hlength hruns hblank hafter
  exact ⟨hwords, hruns, hblank, hcamel, hunderscores, hjoined⟩

end Identifier
end SchemaTypes
