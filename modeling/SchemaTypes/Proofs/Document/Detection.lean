/-
# The format that a JSON document looks like

Without a format to go by, a text is taken for JSON if it starts with an
opening brace behind blanks. A JSON document that is read is never taken for
YAML in this way: a document is read only if its value is an object, the
reader makes an object only of a text that starts with a brace behind JSON
blanks, and each of the four JSON blanks is blank to Unicode as well, which
the brace is not. Hence whatever blanks are put in front, the text is still
taken for JSON, and with JSON blanks it is still read.

The text of an object, with JSON blanks around it, is read as the catalog of
the object, in JSON and in the format that it looks like.

Key theorems: `Document.looksLikeJson_of_parse`,
`Document.read_auto_eq_read_json`.
-/
import SchemaTypes.Document.Read
import SchemaTypes.Proofs.Json.RoundTrip

namespace SchemaTypes

open Json.Parser (isSpace skip)

variable {text : String} {ms : List (String × Json)} {before after : List Char}

/-! ### What an object starts with -/

/-- Only what starts with a brace is read as an object. -/
theorem Json.Parser.skip_of_valueWith {inner : Option (Reader Json)} {cs rest : List Char}
    (h : valueWith inner cs = .ok (.object ms, rest)) : ∃ cs', skip cs = '\x7b' :: cs' := by
  unfold valueWith at h
  split at h
  case h_1 => cases h
  case h_6 =>
    split at h
    · cases h
    · split at h
      · cases h
      · obtain ⟨_, -, h⟩ := Except.exists_of_bind_eq_ok h
        cases h
  case h_7 cs' hskip => exact ⟨cs', hskip⟩
  case h_8 =>
    split at h
    · obtain ⟨_, -, h⟩ := Except.exists_of_bind_eq_ok h
      cases h
    · cases h
  -- the words and the strings
  all_goals
    obtain ⟨_, -, h⟩ := Except.exists_of_bind_eq_ok h
    cases h

theorem Json.skip_of_parse (h : Json.parse text = .ok (.object ms)) :
    ∃ cs, skip text.toList = '\x7b' :: cs := by
  obtain ⟨⟨v, rest⟩, hv, h⟩ := Except.exists_of_bind_eq_ok h
  have hobject : v = .object ms := by
    simp only at h
    split at h
    · exact Except.ok.inj h
    · cases h
  rw [hobject] at hv
  have hdepth : Json.maxDepth = 126 + 1 := rfl
  rw [hdepth, Json.Parser.value] at hv
  exact Json.Parser.skip_of_valueWith hv

theorem Text.isBlank_of_isSpace {ch : Char} (h : isSpace ch = true) : isBlank ch = true := by
  obtain rfl | rfl | rfl | rfl := Json.Parser.eq_of_isSpace h
  · decide
  · decide
  · decide
  · decide

namespace Document

/-! ### The format of a text -/

/-- Blanks in front make no difference to what a text looks like. -/
theorem looksLikeJson_append (h : ∀ ch ∈ before, Text.isBlank ch = true) (text : String) :
    looksLikeJson (String.ofList before ++ text) = looksLikeJson text := by
  have htrim : Text.trimStart (before ++ text.toList) = Text.trimStart text.toList :=
    List.dropWhile_append_of_pos h
  rw [looksLikeJson, looksLikeJson, String.toList_append, String.toList_ofList, htrim]

/-- A text that is read as an object looks like one. -/
theorem looksLikeJson_of_parse (h : Json.parse text = .ok (.object ms)) :
    looksLikeJson text = true := by
  obtain ⟨cs, hskip⟩ := Json.skip_of_parse h
  have hblanks : ∀ ch ∈ text.toList.takeWhile isSpace, Text.isBlank ch = true := fun ch hch =>
    Text.isBlank_of_isSpace (List.mem_takeWhile_imp hch)
  have hsplit : text.toList.takeWhile isSpace ++ '\x7b' :: cs = text.toList := by
    rw [← hskip]
    exact List.takeWhile_append_dropWhile
  have hbrace : Text.trimStart ('\x7b' :: cs) = '\x7b' :: cs :=
    List.dropWhile_cons_of_neg (by decide)
  have htrim : Text.trimStart text.toList = '\x7b' :: cs := by
    rw [← hsplit, ← hbrace]
    exact List.dropWhile_append_of_pos hblanks
  rw [looksLikeJson, htrim]
  rfl

/-- What looks like JSON is read as JSON. -/
theorem read_auto (h : looksLikeJson text = true) : read text .auto = read text .json := by
  have hsettle : Format.auto.settle text = Format.json.settle text := by
    rw [Format.settle, if_pos h]
    rfl
  rw [read, read, valueOf, valueOf, hsettle]

/-- JSON blanks in front make no difference to what is read. -/
theorem read_json_append (h : ∀ ch ∈ before, isSpace ch = true) (text : String) :
    read (String.ofList before ++ text) .json = read text .json := by
  have hvalue : valueOf (String.ofList before ++ text) .json = valueOf text .json :=
    congrArg (Except.mapError Fault.json) (Json.parse_append h text)
  rw [read, read, hvalue]

theorem read_json_of_parse {v : Json} (h : Json.parse text = .ok v) :
    read text .json = catalog v := by
  have hvalue : valueOf text .json = .ok v := congrArg (Except.mapError Fault.json) h
  rw [read, hvalue, Except.ok_bind]

/-- A text that is read in JSON has a value. -/
theorem exists_parse_of_read_json {c : Catalog} (h : read text .json = .ok c) :
    ∃ v, Json.parse text = .ok v ∧ catalog v = .ok c := by
  obtain ⟨v, hv, hcatalog⟩ := Except.exists_of_bind_eq_ok h
  have hvalue : (Json.parse text).mapError Fault.json = .ok v := hv
  cases hparse : Json.parse text with
  | error e =>
    rw [hparse] at hvalue
    cases hvalue
  | ok w =>
    rw [hparse] at hvalue
    obtain rfl : w = v := Except.ok.inj hvalue
    exact ⟨w, rfl, hcatalog⟩

/-- Only an object has a catalog. -/
theorem exists_object_of_catalog {v : Json} {c : Catalog} (h : catalog v = .ok c) :
    ∃ ms, v = .object ms := by
  cases v with
  | object ms => exact ⟨ms, rfl⟩
  | _ => cases h

/-- **A JSON document that is read is not taken for YAML.** If a text is read
in JSON, it is read as the same catalog in the format that it looks like.
Whatever blanks are put in front of it, the two formats give the same, and
with JSON blanks it is the same catalog. The text of an object with no number
in double precision that is nested no deeper than the reader allows, with JSON
blanks before and after it, gives in both formats what the object gives,
whether that is a catalog or a fault. -/
theorem read_auto_eq_read_json :
    (∀ (text : String) (c : Catalog), read text .json = .ok c →
      read text .auto = .ok c ∧
        ∀ before : List Char, (∀ ch ∈ before, Text.isBlank ch = true) →
          read (String.ofList before ++ text) .auto = read (String.ofList before ++ text) .json ∧
            ((∀ ch ∈ before, isSpace ch = true) →
              read (String.ofList before ++ text) .auto = .ok c)) ∧
      ∀ (ms : List (String × Json)) (before after : List Char), (Json.object ms).Exact →
        (Json.object ms).nesting ≤ Json.maxDepth → (∀ ch ∈ before, isSpace ch = true) →
        (∀ ch ∈ after, isSpace ch = true) →
          read (String.ofList before ++ (Json.object ms).compact ++ String.ofList after) .json =
              catalog (.object ms) ∧
            read (String.ofList before ++ (Json.object ms).compact ++ String.ofList after) .auto =
              catalog (.object ms) := by
  constructor
  · intro text c h
    obtain ⟨v, hparse, hcatalog⟩ := exists_parse_of_read_json h
    obtain ⟨ms, rfl⟩ := exists_object_of_catalog hcatalog
    have hlooks := looksLikeJson_of_parse hparse
    have hauto : read text .auto = read text .json := read_auto hlooks
    refine ⟨hauto.trans h, fun before hblank => ?_⟩
    have hbehind : read (String.ofList before ++ text) .auto =
        read (String.ofList before ++ text) .json := by
      refine read_auto ?_
      rw [looksLikeJson_append hblank, hlooks]
    refine ⟨hbehind, fun hspace => ?_⟩
    rw [hbehind, read_json_append hspace, h]
  · intro ms before after hexact hnesting hbefore hafter
    have hparse := Json.parse_compact hexact hnesting hbefore hafter
    have hjson := read_json_of_parse hparse
    have hauto := read_auto (looksLikeJson_of_parse hparse)
    exact ⟨hjson, hauto.trans hjson⟩

/-- A document with one definition. -/
def oneName : List (String × Json) :=
  [("Name", .object [("type", .string "string")])]

/-- Its text is read between line feeds, in both formats. -/
theorem read_oneName :
    (Json.object oneName).Exact ∧ (Json.object oneName).nesting ≤ Json.maxDepth ∧
      ∃ c, catalog (.object oneName) = .ok c ∧
        read (String.ofList ['\n'] ++ (Json.object oneName).compact ++ String.ofList ['\n']) .json =
          .ok c ∧
        read (String.ofList ['\n'] ++ (Json.object oneName).compact ++ String.ofList ['\n']) .auto =
          .ok c := by
  have hstring : (Json.string "string").Exact := .of_inside_eq_nil rfl rfl rfl
  have hdefinition : (Json.object [("type", .string "string")]).Exact :=
    .intro (by decide) rfl (List.forall_mem_singleton.2 hstring)
  have hexact : (Json.object oneName).Exact :=
    .intro (by decide) rfl (List.forall_mem_singleton.2 hdefinition)
  have hnesting : (Json.object oneName).nesting ≤ Json.maxDepth := by decide
  have hspace : ∀ ch ∈ ['\n'], isSpace ch = true := by simp [isSpace]
  obtain ⟨hread, hwritten⟩ := read_auto_eq_read_json
  obtain ⟨hjson, -⟩ := hwritten oneName ['\n'] ['\n'] hexact hnesting hspace hspace
  obtain ⟨c, hc⟩ : ∃ c, catalog (.object oneName) = .ok c := ⟨_, rfl⟩
  rw [hc] at hjson
  exact ⟨hexact, hnesting, c, hc, hjson, (hread _ c hjson).1⟩

end Document
end SchemaTypes
