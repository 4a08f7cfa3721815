/-
# Quoted text is read back

A string that is written between quotes is a JSON text, and reading it gives
exactly the string, whatever characters it has: quotes and backslashes, control
characters, and text that looks quoted or escaped itself. No control character
stands between the quotes as it is.

Each character is written in one of three ways (`Json.Parser.Writes`), and in
each of them it is read as itself, so the string is read character by
character.

Key definitions: `Json.Parser.Writes`.
Key theorems: `Json.Parser.string_flatMap_escape`, `Json.parse_quote`,
`Text.le_of_mem_quote`.
-/
import SchemaTypes.Json.Parser

namespace SchemaTypes

namespace Json.Parser

open Text (escape hexDigit hexValue?)

theorem hexValue?_hexDigit : ∀ n < 16, hexValue? (hexDigit n) = some n := by
  decide

/-- Two digits behind two zeros are read as the number that they write. -/
theorem hexUnit_hexDigits {n : Nat} (h : n < 256) (rest : List Char) :
    hexUnit ('0' :: '0' :: hexDigit (n / 16) :: hexDigit (n % 16) :: rest) = .ok (n, rest) := by
  have hzero : hexValue? '0' = some 0 := by decide
  rw [hexUnit, hzero, hexValue?_hexDigit _ (by omega), hexValue?_hexDigit _ (by omega)]
  have hn : ((0 * 16 + 0) * 16 + n / 16) * 16 + n % 16 = n := by omega
  simp only [hn]

/-- A control character is read from its code. -/
theorem escaped_unicode {c : Char} (h : c.toNat < 0x20) (rest : List Char) :
    escaped ('u' :: '0' :: '0' :: hexDigit (c.toNat / 16) :: hexDigit (c.toNat % 16) :: rest) =
      .ok (c, rest) := by
  have hu : shortEscape? 'u' = none := by decide
  rw [escaped, hu]
  simp only [if_true, unicodeEscape, hexUnit_hexDigits (show c.toNat < 256 by omega)]
  rw [if_neg (by omega), if_neg (by omega), Char.ofNat_toNat]

/-- The text writes the character between quotes: as it is, by the short escape
that is read as the character, or by the code of a control character. -/
inductive Writes (c : Char) : List Char → Prop
  | verbatim (hquote : c ≠ '"') (hslash : c ≠ '\\') (hcontrol : 0x20 ≤ c.toNat) : Writes c [c]
  | short {e : Char} (he : shortEscape? e = some c) (hcontrol : 0x20 ≤ e.toNat) :
      Writes c ['\\', e]
  | code (hcontrol : c.toNat < 0x20) :
      Writes c ['\\', 'u', '0', '0', hexDigit (c.toNat / 16), hexDigit (c.toNat % 16)]

theorem writes_ite {c d e : Char} {cs : List Char}
    (he : shortEscape? e = some d ∧ 0x20 ≤ e.toNat) (h : c ≠ d → Writes c cs) :
    Writes c (if c = d then ['\\', e] else cs) := by
  by_cases hd : c = d
  · rw [if_pos hd, hd]
    exact .short he.1 he.2
  · rw [if_neg hd]
    exact h hd

theorem writes_escape (c : Char) : Writes c (escape c) := by
  unfold escape
  refine writes_ite (by decide) fun hquote => writes_ite (by decide) fun hslash => ?_
  refine writes_ite (by decide) fun _ => writes_ite (by decide) fun _ => ?_
  refine writes_ite (by decide) fun _ => writes_ite (by decide) fun _ => ?_
  refine writes_ite (by decide) fun _ => ?_
  by_cases hcontrol : c.toNat < 0x20
  · rw [if_pos hcontrol]
    exact .code hcontrol
  · rw [if_neg hcontrol]
    exact .verbatim hquote hslash (Nat.le_of_not_lt hcontrol)

theorem string_backslash {c : Char} {cs rest : List Char} (h : escaped cs = .ok (c, rest)) :
    string ('\\' :: cs) = (string rest).map fun p => (c :: p.1, p.2) := by
  rw [string]
  split
  · rename_i e he
    rw [h] at he
    cases he
  · rename_i d tail he
    rw [h] at he
    cases he
    rfl

/-- What writes a character is read as the character. -/
theorem string_of_writes {c : Char} {cs : List Char} (h : Writes c cs) (rest : List Char) :
    string (cs ++ rest) = (string rest).map fun p => (c :: p.1, p.2) := by
  cases h with
  | verbatim hquote hslash hcontrol =>
    rw [List.singleton_append, string]
    · rw [if_neg (Nat.not_lt.2 hcontrol)]
    · exact hquote
    · exact hslash
  | @short e he _ =>
    have hread : escaped (e :: rest) = .ok (c, rest) := by rw [escaped, he]
    exact string_backslash hread
  | code hcontrol => exact string_backslash (escaped_unicode hcontrol rest)

/-- No control character is written as it is. -/
theorem le_of_mem_writes {c d : Char} {cs : List Char} (h : Writes c cs) (hd : d ∈ cs) :
    0x20 ≤ d.toNat := by
  cases h with
  | verbatim _ _ hcontrol =>
    rw [List.mem_singleton.1 hd]
    exact hcontrol
  | short _ hcontrol =>
    simp only [List.mem_cons, List.not_mem_nil, or_false] at hd
    obtain rfl | rfl := hd
    · decide
    · exact hcontrol
  | code hcontrol =>
    have hhex : ∀ n < 16, 0x20 ≤ (hexDigit n).toNat := by decide
    have hhigh := hhex (c.toNat / 16) (by omega)
    have hlow := hhex (c.toNat % 16) (by omega)
    simp only [List.mem_cons, List.not_mem_nil, or_false] at hd
    obtain rfl | rfl | rfl | rfl | rfl | rfl := hd
    · decide
    · decide
    · decide
    · decide
    · exact hhigh
    · exact hlow

/-- The characters of a string are read up to the closing quote. -/
theorem string_flatMap_escape (cs rest : List Char) :
    string (cs.flatMap escape ++ '"' :: rest) = .ok (cs, rest) := by
  induction cs with
  | nil => rw [List.flatMap_nil, List.nil_append, string]
  | cons c cs ih =>
    rw [List.flatMap_cons, List.append_assoc, string_of_writes (writes_escape c), ih]
    rfl

/-- A string between quotes is a value, at any depth. -/
theorem valueWith_quote (inner : Option (Reader Json)) (s : String) (rest : List Char) :
    valueWith inner ((Text.quote s).toList ++ rest) = .ok (.string s, rest) := by
  have hquote : (Text.quote s).toList ++ rest = '"' :: (s.toList.flatMap escape ++ '"' :: rest) := by
    rw [Text.quote, String.toList_ofList, List.append_assoc, List.cons_append, List.singleton_append]
  have hskip : ∀ cs, skip ('"' :: cs) = '"' :: cs := fun cs =>
    List.dropWhile_cons_of_neg (by decide)
  rw [hquote, valueWith, hskip]
  simp only [string_flatMap_escape]
  exact congrArg (fun t => Except.ok (Json.string t, rest)) String.ofList_toList

end Json.Parser

/-- **A quoted string is read back.** -/
theorem Json.parse_quote (s : String) : Json.parse (Text.quote s) = .ok (.string s) := by
  have h : Parser.value maxDepth (Text.quote s).toList = .ok (.string s, []) := by
    have := Parser.valueWith_quote (some (Parser.value 126)) s []
    rwa [List.append_nil] at this
  rw [parse, h]
  rfl

namespace Text

/-- No control character stands in a quoted text. -/
theorem le_of_mem_quote {s : String} {c : Char} (h : c ∈ (quote s).toList) : 0x20 ≤ c.toNat := by
  rw [quote, String.toList_ofList, List.cons_append] at h
  rcases List.mem_cons.1 h with rfl | h
  · decide
  · rcases List.mem_append.1 h with h | h
    · obtain ⟨d, -, hd⟩ := List.mem_flatMap.1 h
      exact Json.Parser.le_of_mem_writes (Json.Parser.writes_escape d) hd
    · rw [List.mem_singleton.1 h]
      decide

end Text
end SchemaTypes
