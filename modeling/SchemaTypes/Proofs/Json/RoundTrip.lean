/-
# Values are read back

A value is written without spaces, and the text is read as exactly this value,
with any blanks before and after it. That is so for every value that a text
can give and that has no number in double precision (`Json.Exact`), as long as
no more arrays and objects are open at a time than the reader allows.

The induction is on how many may be open. What is inside of an array or an
object is read with one less, and is read back whatever stands behind it,
since a comma or a bracket ends every numeral. Items and members are read in
the same way, so one induction on the elements serves both.

Nothing limits the nesting of the text that is written, and the reader may be
given any limit: so texts that are alike are those of the same value, however
deep it is.

Key definitions: `Json.nesting`, `Json.Exact`, `Json.Parser.ReadsBack`.
Key theorems: `Json.Parser.readsBack_value`, `Json.parse_compact`,
`Json.compact_inj`.
-/
import SchemaTypes.Proofs.Json.DistinctKeys
import SchemaTypes.Proofs.Json.Integer

namespace SchemaTypes.Json

mutual

/-- How many arrays and objects are open at a time in a value. -/
def nesting : Json → Nat
  | .array vs => nestingItems vs + 1
  | .object ms => nestingMembers ms + 1
  | _ => 0

/-- How many are open at a time in one of the items. -/
def nestingItems : List Json → Nat
  | [] => 0
  | v :: vs => max (nesting v) (nestingItems vs)

/-- How many are open at a time in one of the members. -/
def nestingMembers : List (String × Json) → Nat
  | [] => 0
  | (_, v) :: ms => max (nesting v) (nestingMembers ms)

end

/-- A number in double precision. -/
def isFloat : Json → Bool
  | .number (.float _) => true
  | _ => false

/-- No number of the value, at any depth, is in double precision. -/
inductive FloatFree : Json → Prop
  | intro {v : Json} (hfloat : v.isFloat = false) (h : ∀ u ∈ v.inside, FloatFree u) : FloatFree v

/-- The value is one that a text can give: no object has a key twice, and no
number is in double precision. -/
structure Exact (v : Json) : Prop where
  distinctKeys : v.DistinctKeys
  floatFree : v.FloatFree

variable {v u : Json}

/-- A value is exact if it is so by itself and so is all that is inside of it. -/
theorem Exact.intro (hkeys : v.keys.Nodup) (hfloat : v.isFloat = false)
    (h : ∀ u ∈ v.inside, u.Exact) : v.Exact :=
  ⟨.intro hkeys fun u hu => (h u hu).distinctKeys, .intro hfloat fun u hu => (h u hu).floatFree⟩

/-- A value with nothing inside is exact unless it is a number in double
precision. -/
theorem Exact.of_inside_eq_nil (hkeys : v.keys = []) (hinside : v.inside = [])
    (hfloat : v.isFloat = false) : v.Exact := by
  refine .intro (hkeys ▸ List.nodup_nil) hfloat fun u hu => ?_
  rw [hinside] at hu
  cases hu

theorem Exact.inside (h : v.Exact) (hu : u ∈ v.inside) : u.Exact := by
  obtain ⟨hdistinct, hfloat⟩ := h
  cases hdistinct with
  | intro _ hkeys =>
    cases hfloat with
    | intro _ hfree => exact ⟨hkeys u hu, hfree u hu⟩

theorem Exact.nodup (h : v.Exact) : v.keys.Nodup := by
  cases h.distinctKeys with
  | intro hkeys _ => exact hkeys

theorem Exact.isFloat_eq_false (h : v.Exact) : v.isFloat = false := by
  cases h.floatFree with
  | intro hfloat _ => exact hfloat

theorem nesting_le_nestingItems {vs : List Json} (h : v ∈ vs) : v.nesting ≤ nestingItems vs := by
  induction vs with
  | nil => cases h
  | cons w vs ih =>
    rw [nestingItems]
    rcases List.mem_cons.1 h with rfl | h
    · exact Nat.le_max_left _ _
    · exact Nat.le_trans (ih h) (Nat.le_max_right _ _)

theorem nesting_le_nestingMembers {ms : List (String × Json)} {m : String × Json} (h : m ∈ ms) :
    m.2.nesting ≤ nestingMembers ms := by
  induction ms with
  | nil => cases h
  | cons m' ms ih =>
    obtain ⟨key, w⟩ := m'
    rw [nestingMembers]
    rcases List.mem_cons.1 h with rfl | h
    · exact Nat.le_max_left _ _
    · exact Nat.le_trans (ih h) (Nat.le_max_right _ _)

/-- What is inside of a value is nested less. -/
theorem nesting_lt_of_mem_inside (h : u ∈ v.inside) : u.nesting < v.nesting := by
  cases v with
  | array vs =>
    rw [nesting]
    exact Nat.lt_succ_of_le (nesting_le_nestingItems h)
  | object ms =>
    obtain ⟨m, hm, rfl⟩ := List.mem_map.1 h
    rw [nesting]
    exact Nat.lt_succ_of_le (nesting_le_nestingMembers hm)
  | _ => cases h

namespace Parser

variable {before cs rest : List Char} {inner : Option (Reader Json)} {depth : Nat}

/-! ### Blanks and brackets -/

theorem eq_of_isSpace {c : Char} (h : isSpace c = true) :
    c = ' ' ∨ c = '\t' ∨ c = '\n' ∨ c = '\r' := by
  simpa [isSpace, or_assoc] using h

/-- Blanks do not make a numeral in front of them longer. -/
theorem endsNumeral_of_isSpace (h : ∀ c ∈ cs, isSpace c = true) : EndsNumeral cs := by
  intro c hc
  have hspace := h c (List.mem_of_mem_head? hc)
  obtain rfl | rfl | rfl | rfl := eq_of_isSpace hspace
  · decide
  · decide
  · decide
  · decide

/-- A value is read behind blanks as it is without them. -/
theorem value_append (h : ∀ c ∈ before, isSpace c = true) (depth : Nat) (cs : List Char) :
    value depth (before ++ cs) = value depth cs := by
  have hskip : skip (before ++ cs) = skip cs := List.dropWhile_append_of_pos h
  cases depth with
  | zero => rw [value, valueWith, valueWith, hskip]
  | succ depth => rw [value, valueWith, valueWith, hskip]

/-- No value starts with the bracket that ends an array. -/
theorem value_bracket (h : skip cs = ']' :: rest) : value depth cs = .error .malformed := by
  cases depth with
  | zero => rw [value, valueWith, h]; rfl
  | succ depth => rw [value, valueWith, h]; rfl

/-! ### Values -/

/-- The reader reads the text as this result, whatever stands behind it that
is no part of a numeral. -/
def ReadsBack {α : Type} (reader : Reader α) (text : String) (a : α) : Prop :=
  ∀ rest, EndsNumeral rest → reader (text.toList ++ rest) = .ok (a, rest)

theorem readsBack_null : ReadsBack (valueWith inner) (compact .null) .null := fun _ _ => rfl

theorem readsBack_bool (b : Bool) : ReadsBack (valueWith inner) (compact (.bool b)) (.bool b) := by
  cases b with
  | false => exact fun _ _ => rfl
  | true => exact fun _ _ => rfl

theorem readsBack_string (s : String) :
    ReadsBack (valueWith inner) (compact (.string s)) (.string s) :=
  fun rest _ => valueWith_quote inner s rest

theorem readsBack_integer {n : Int} (lower : -9223372036854775808 ≤ n)
    (upper : n ≤ 18446744073709551615) :
    ReadsBack (valueWith inner) (compact (.number (.integer n lower upper)))
      (.number (.integer n lower upper)) :=
  fun _ hrest => valueWith_integerText inner lower upper hrest

/-- Elements that are read back are read back with commas between them, up to
the bracket that closes them. -/
theorem readsBack_elements {α : Type} {element : Reader α} {elements : Nat → Reader (List α)}
    {text : α → String} {close : Char} (hclose : ∀ rest, EndsNumeral (close :: rest))
    (hlast : ∀ n cs a rest, element cs = .ok (a, close :: rest) →
      elements (n + 1) cs = .ok ([a], rest))
    (hmore : ∀ n cs a cs' as rest, element cs = .ok (a, ',' :: cs') →
      elements n cs' = .ok (as, rest) → elements (n + 1) cs = .ok (a :: as, rest))
    {as : List α} (h : ∀ a ∈ as, ReadsBack element (text a) a) (hne : as ≠ []) {n : Nat}
    (hn : as.length ≤ n) (rest : List Char) :
    elements n ((",".intercalate (as.map text)).toList ++ close :: rest) = .ok (as, rest) := by
  induction as generalizing n with
  | nil => exact absurd rfl hne
  | cons a as ih =>
    rw [List.forall_mem_cons] at h
    cases n with
    | zero => cases hn
    | succ n =>
      cases as with
      | nil =>
        rw [List.map_singleton, String.intercalate_singleton]
        exact hlast n _ a rest (h.1 _ (hclose rest))
      | cons b as =>
        have htext : (",".intercalate ((a :: b :: as).map text)).toList ++ close :: rest =
            (text a).toList ++
              ',' :: ((",".intercalate ((b :: as).map text)).toList ++ close :: rest) := by
          rw [List.map_cons, List.map_cons, String.intercalate_cons_cons, String.toList_append,
            String.toList_append, List.append_assoc, List.append_assoc]
          rfl
        have hrest := ih h.2 (List.cons_ne_nil b as) (Nat.le_of_succ_le_succ hn)
        rw [htext]
        exact hmore n _ a _ _ rest (h.1 _ (EndsNumeral.cons (by decide))) hrest

/-- There are no more elements than characters between the brackets. -/
theorem length_le_elements {α : Type} (text : α → String) (as : List α) :
    as.length ≤ (",".intercalate (as.map text)).toList.length + 1 := by
  induction as with
  | nil => exact Nat.zero_le _
  | cons a as ih =>
    cases as with
    | nil => exact Nat.le_add_left 1 _
    | cons b as =>
      rw [List.map_cons, List.map_cons, String.intercalate_cons_cons, String.toList_append,
        String.toList_append, List.length_append, List.length_append]
      rw [List.map_cons] at ih
      have hcomma : ",".toList.length = 1 := rfl
      rw [List.length_cons]
      omega

variable {reader : Reader Json}

theorem items_compact {vs : List Json} (h : ∀ v ∈ vs, ReadsBack reader v.compact v) (hne : vs ≠ [])
    {n : Nat} (hn : vs.length ≤ n) (rest : List Char) :
    items reader n ((",".intercalate (vs.map compact)).toList ++ ']' :: rest) = .ok (vs, rest) := by
  refine readsBack_elements (fun _ => EndsNumeral.cons (by decide)) ?_ ?_ h hne hn rest
  · intro n cs v rest hv
    rw [items, hv, Except.ok_bind]
    rfl
  · intro n cs v cs' vs rest hv hvs
    have hcomma : skip (',' :: cs') = ',' :: cs' := skip_cons (by decide) _
    simp only [items, hv, hcomma, hvs, Except.ok_bind]
    rfl

/-- A member is read behind its quoted key. -/
theorem readsBack_member {m : String × Json} (h : ReadsBack reader m.2.compact m.2) :
    ReadsBack (member reader) (Text.quote m.1 ++ ":" ++ m.2.compact) m := by
  intro rest hrest
  have htext : (Text.quote m.1 ++ ":" ++ m.2.compact).toList ++ rest =
      '"' :: (m.1.toList.flatMap Text.escape ++ '"' :: ':' :: (m.2.compact.toList ++ rest)) := by
    simp [Text.quote]
  rw [htext, member, skip_cons (by decide)]
  simp only [string_flatMap_escape, Except.ok_bind, skip_cons (show isSpace ':' = false by decide),
    h rest hrest]
  exact congrArg (fun key => Except.ok ((key, m.2), rest)) String.ofList_toList

theorem members_compact {ms : List (String × Json)} (h : ∀ m ∈ ms, ReadsBack reader m.2.compact m.2)
    (hne : ms ≠ []) {n : Nat} (hn : ms.length ≤ n) (rest : List Char) :
    members reader n ((",".intercalate (ms.map fun m =>
      Text.quote m.1 ++ ":" ++ m.2.compact)).toList ++ '\x7d' :: rest) = .ok (ms, rest) := by
  refine readsBack_elements (fun _ => EndsNumeral.cons (by decide)) ?_ ?_
    (fun m hm => readsBack_member (h m hm)) hne hn rest
  · intro n cs m rest hm
    rw [members, hm, Except.ok_bind]
    rfl
  · intro n cs m cs' ms rest hm hms
    have hcomma : skip (',' :: cs') = ',' :: cs' := skip_cons (by decide) _
    simp only [members, hm, hcomma, hms, Except.ok_bind]
    rfl

/-- The items of an array are read behind its bracket. -/
theorem value_array {vs : List Json} (h : items (value depth) (cs.length + 1) cs = .ok (vs, rest)) :
    value (depth + 1) ('[' :: cs) = .ok (.array vs, rest) := by
  have hbracket : skip ('[' :: cs) = '[' :: cs := skip_cons (by decide) _
  simp only [value, valueWith, hbracket]
  split
  · rename_i hcs
    rw [items, value_bracket hcs] at h
    cases h
  · rw [h]
    rfl

/-- The members of an object are read behind its bracket. -/
theorem value_object {ms : List (String × Json)}
    (h : members (value depth) (cs.length + 1) cs = .ok (ms, rest)) :
    value (depth + 1) ('\x7b' :: cs) = .ok (.object (Entries.collect ms []), rest) := by
  have hbrace : skip ('\x7b' :: cs) = '\x7b' :: cs := skip_cons (by decide) _
  simp only [value, valueWith, hbrace]
  split
  · rename_i hcs
    rw [members, member, hcs] at h
    cases h
  · rw [h]
    rfl

theorem readsBack_array {vs : List Json} (h : ∀ v ∈ vs, ReadsBack (value depth) v.compact v) :
    ReadsBack (value (depth + 1)) (compact (.array vs)) (.array vs) := by
  intro rest _
  have htext : (compact (.array vs)).toList ++ rest =
      '[' :: ((",".intercalate (vs.map compact)).toList ++ ']' :: rest) := by
    simp [compact, compactItems_eq]
  rw [htext]
  by_cases hne : vs = []
  · rw [hne]
    rfl
  · have hlength := length_le_elements compact vs
    refine value_array (items_compact h hne ?_ rest)
    rw [List.length_append]
    omega

theorem readsBack_object {ms : List (String × Json)} (hkeys : (Entries.names ms).Nodup)
    (h : ∀ m ∈ ms, ReadsBack (value depth) m.2.compact m.2) :
    ReadsBack (value (depth + 1)) (compact (.object ms)) (.object ms) := by
  intro rest _
  have htext : (compact (.object ms)).toList ++ rest =
      '\x7b' :: ((",".intercalate (ms.map fun m =>
        Text.quote m.1 ++ ":" ++ m.2.compact)).toList ++ '\x7d' :: rest) := by
    simp [compact, compactMembers_eq]
  rw [htext]
  by_cases hne : ms = []
  · rw [hne]
    rfl
  · have hlength := length_le_elements (fun m => Text.quote m.1 ++ ":" ++ m.2.compact) ms
    have hms : Entries.collect ms [] = [] ++ ms := Entries.collect_of_nodup hkeys
    rw [value_object (members_compact h hne ?_ rest), hms, List.nil_append]
    rw [List.length_append]
    omega

/-- A value with nothing open in it is read back at any depth. -/
theorem readsBack_flat (hv : v.Exact) (h : v.nesting = 0) :
    ReadsBack (valueWith inner) v.compact v := by
  cases v with
  | null => exact readsBack_null
  | bool b => exact readsBack_bool b
  | number n =>
    cases n with
    | integer n lower upper => exact readsBack_integer lower upper
    | float x => cases hv.isFloat_eq_false
  | string s => exact readsBack_string s
  | array vs => cases h
  | object ms => cases h

/-- **An exact value is read back** where as many arrays and objects may be
open as there are. -/
theorem readsBack_value (hv : v.Exact) (hd : v.nesting ≤ depth) :
    ReadsBack (value depth) v.compact v := by
  induction depth generalizing v with
  | zero => exact readsBack_flat hv (Nat.le_zero.1 hd)
  | succ depth ih =>
    have hinside : ∀ u ∈ v.inside, ReadsBack (value depth) u.compact u := by
      intro u hu
      have hlt := nesting_lt_of_mem_inside hu
      exact ih (hv.inside hu) (by omega)
    cases v with
    | array vs => exact readsBack_array hinside
    | object ms => exact readsBack_object hv.nodup fun m hm => hinside m.2 (List.mem_map_of_mem hm)
    | _ => exact readsBack_flat hv rfl

end Parser

variable {before after : List Char}

/-- A text is read behind blanks as it is without them. -/
theorem parse_append (h : ∀ c ∈ before, Parser.isSpace c = true) (text : String) :
    parse (String.ofList before ++ text) = parse text := by
  rw [parse, parse, String.toList_append, String.toList_ofList, Parser.value_append h]

/-- **An exact value is read back**, with blanks before and after it. -/
theorem parse_compact (hv : v.Exact) (hd : v.nesting ≤ maxDepth)
    (hbefore : ∀ c ∈ before, Parser.isSpace c = true)
    (hafter : ∀ c ∈ after, Parser.isSpace c = true) :
    parse (String.ofList before ++ v.compact ++ String.ofList after) = .ok v := by
  have hvalue : Parser.value maxDepth (v.compact ++ String.ofList after).toList =
      .ok (v, after) := by
    rw [String.toList_append, String.toList_ofList]
    exact Parser.readsBack_value hv hd after (Parser.endsNumeral_of_isSpace hafter)
  have hskip : Parser.skip after = [] := List.dropWhile_eq_nil_iff.2 hafter
  rw [String.append_assoc, parse_append hbefore, parse, hvalue]
  simp only [Except.ok_bind, hskip]
  rfl

/-- What is written alike is the same value, at any depth of nesting. -/
theorem compact_inj {v w : Json} (hv : v.Exact) (hw : w.Exact) (h : v.compact = w.compact) :
    v = w := by
  have hv := Parser.readsBack_value hv (Nat.le_max_left v.nesting w.nesting) [] .nil
  have hw := Parser.readsBack_value hw (Nat.le_max_right v.nesting w.nesting) [] .nil
  rw [h, hw] at hv
  cases hv
  rfl

end SchemaTypes.Json
