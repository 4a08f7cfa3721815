/-
# Parts of a type text that are one token

Three kinds of text are one token each: an identifier, a string between
quotes, whatever stands in it, and the text of a number. The text of a number
is a decimal numeral in every layout: digits, digits around a point, and
either of them with a signed exponent.

Key definitions: `Reader.IsNumeralText`.
Key theorems: `Reader.lexes_identifier`, `Reader.lexes_quote`,
`Reader.lexes_number`.
-/
import Mathlib
import SchemaTypes.Json.Basic
import SchemaTypes.Proofs.Json.Quoted
import SchemaTypes.Proofs.Reader.Token

namespace SchemaTypes.Reader

variable {a : Alphabet}

/-- An ASCII letter or digit, `_`, `$`, or a character beyond ASCII. -/
def isWordChar (c : Char) : Bool :=
  c.isAlphanum || c = '_' || c = '$' || 127 < c.toNat

theorem isChunkChar_of_isWordChar {c : Char} (h : isWordChar c = true) : isChunkChar c = true := by
  have hbreaks : ('"' :: ' ' :: '\t' :: '\r' :: '\n' :: marks).all (fun d => !isWordChar d) = true := by
    decide
  have hc : c ∉ '"' :: ' ' :: '\t' :: '\r' :: '\n' :: marks := by
    intro hm
    have := List.all_eq_true.1 hbreaks c hm
    rw [h] at this
    cases this
  simp only [List.mem_cons, not_or] at hc
  obtain ⟨hquote, hspace, htab, hreturn, hline, hmark⟩ := hc
  simp [isChunkChar, isBreak, isMark, Char.isWhitespace, hquote, hspace, htab, hreturn, hline, hmark]

/-! ### Identifiers -/

theorem isWordChar_of_isStart {c : Char} (h : a.isStart c = true) : isWordChar c = true := by
  simp only [Alphabet.isStart, Bool.or_eq_true, Bool.and_eq_true] at h
  simp only [isWordChar, Char.isAlphanum, Bool.or_eq_true]
  obtain ((h | h) | h) | ⟨h, -⟩ := h
  · exact .inl (.inl (.inl (.inl h)))
  · exact .inl (.inl (.inr h))
  · exact .inl (.inr h)
  · exact .inr h

theorem isWordChar_of_isPart {c : Char} (h : a.isPart c = true) : isWordChar c = true := by
  simp only [Alphabet.isPart, Bool.or_eq_true, Bool.and_eq_true] at h
  simp only [isWordChar, Bool.or_eq_true]
  obtain ((h | h) | h) | ⟨h, -⟩ := h
  · exact .inl (.inl (.inl h))
  · exact .inl (.inl (.inr h))
  · exact .inl (.inr h)
  · exact .inr h

/-- An identifier is a word. -/
theorem lexes_identifier {cs : List Char} (h : a.isIdentifier cs = true) :
    Lexes a cs [.word (String.ofList cs)] := by
  cases cs with
  | nil => cases h
  | cons c cs =>
    have hid := h
    rw [Alphabet.isIdentifier, Bool.and_eq_true, List.all_eq_true] at h
    refine lexes_of_chunk (fun d hd => isChunkChar_of_isWordChar ?_) ?_
    · rcases List.mem_cons.1 hd with rfl | hd
      · exact isWordChar_of_isStart h.1
      · exact isWordChar_of_isPart (h.2 d hd)
    · rw [chunkTokens, if_neg (List.cons_ne_nil c cs), if_pos hid]

/-! ### Strings between quotes -/

/-- A character that stands for itself between quotes. -/
def isQuotable (c : Char) : Bool :=
  c != '"' && c != '\\' && c != '\n' && c != '\r'

theorem scan_quoted_append {cs : List Char} (h : ∀ c ∈ cs, isQuotable c = true) (w rest : List Char) :
    scan a (.quoted w) (cs ++ rest) = scan a (.quoted (w ++ cs)) rest := by
  induction cs generalizing w with
  | nil => rw [List.nil_append, List.append_nil]
  | cons c cs ih =>
    have hc : isQuotable c = true := h c List.mem_cons_self
    simp only [isQuotable, Bool.and_eq_true, bne_iff_ne] at hc
    obtain ⟨⟨⟨hquote, hslash⟩, hline⟩, hreturn⟩ := hc
    rw [List.cons_append, scan, if_neg hquote, if_neg hslash, if_neg (by simp [hline, hreturn]),
      ih (fun d hd => h d (List.mem_cons_of_mem c hd)), List.append_assoc, List.singleton_append]

theorem scan_quoted_backslash (w cs : List Char) (c : Char) :
    scan a (.quoted w) ('\\' :: c :: cs) = scan a (.quoted (w ++ ['\\', c])) cs := by
  rw [scan, if_neg (by decide), if_pos rfl, scan, List.append_assoc, List.cons_append, List.nil_append]

/-- The text is the character as it is, or a backslash with characters behind
it that stand for themselves, the first of them whatever it is. -/
def IsEscape (c : Char) (cs : List Char) : Prop :=
  (cs = [c] ∧ isQuotable c = true) ∨
    ∃ d ds, cs = '\\' :: d :: ds ∧ ∀ e ∈ ds, isQuotable e = true

theorem isEscape_of_writes {c : Char} {cs : List Char} (h : Json.Parser.Writes c cs) :
    IsEscape c cs := by
  cases h with
  | verbatim hquote hslash hcontrol =>
    have hline : c ≠ '\n' := by
      rintro rfl
      exact absurd hcontrol (by decide)
    have hreturn : c ≠ '\r' := by
      rintro rfl
      exact absurd hcontrol (by decide)
    exact .inl ⟨rfl, by simp [isQuotable, hquote, hslash, hline, hreturn]⟩
  | @short e _ _ => exact .inr ⟨e, [], rfl, nofun⟩
  | code hcontrol =>
    have hhex : ∀ n < 16, isQuotable (Text.hexDigit n) = true := by decide
    refine .inr ⟨_, _, rfl, fun e he => ?_⟩
    simp only [List.mem_cons, List.not_mem_nil, or_false] at he
    obtain rfl | rfl | rfl | rfl := he
    · decide
    · decide
    · exact hhex _ (by omega)
    · exact hhex _ (by omega)

theorem isEscape_escape (c : Char) : IsEscape c (Text.escape c) :=
  isEscape_of_writes (Json.Parser.writes_escape c)

theorem scan_quoted_escape (w rest : List Char) (c : Char) :
    scan a (.quoted w) (Text.escape c ++ rest) = scan a (.quoted (w ++ Text.escape c)) rest := by
  obtain ⟨hc, hq⟩ | ⟨d, ds, hc, hq⟩ := isEscape_escape c
  · rw [hc]
    exact scan_quoted_append (fun e he => List.mem_singleton.1 he ▸ hq) w rest
  · rw [hc, List.cons_append, List.cons_append, scan_quoted_backslash, scan_quoted_append hq,
      List.append_assoc, List.cons_append, List.cons_append, List.nil_append]

theorem scan_quoted_flatMap_escape (w cs rest : List Char) :
    scan a (.quoted w) (cs.flatMap Text.escape ++ rest) =
      scan a (.quoted (w ++ cs.flatMap Text.escape)) rest := by
  induction cs generalizing w with
  | nil => rw [List.flatMap_nil, List.nil_append, List.append_nil]
  | cons c cs ih =>
    rw [List.flatMap_cons, List.append_assoc, scan_quoted_escape, ih, List.append_assoc]

/-- A string between quotes is one token, whatever stands in it. -/
theorem lexes_quote (s : String) : Lexes a (Text.quote s).toList [.quoted (Text.quote s)] := by
  intro rest _
  rw [Text.quote, String.toList_ofList, List.append_assoc, List.cons_append, tokens, scan,
    if_neg (by decide), if_neg (by decide), if_pos rfl, chunkTokens, if_pos rfl, Option.bind_some,
    prepend_nil, scan_quoted_flatMap_escape, List.singleton_append, List.singleton_append, scan,
    if_pos rfl, tokens]

/-! ### Numerals -/

/-- Digits. -/
def AreDigits (cs : List Char) : Prop :=
  ∀ c ∈ cs, c.isDigit = true

/-- Nothing, or a point and digits. -/
def IsFraction (cs : List Char) : Prop :=
  cs = [] ∨ ∃ ds, cs = '.' :: ds ∧ AreDigits ds

/-- Nothing, or a signed exponent. -/
def IsExponent (cs : List Char) : Prop :=
  cs = [] ∨ ∃ sign ds, cs = 'e' :: sign :: ds ∧ (sign = '+' ∨ sign = '-') ∧ ds ≠ [] ∧ AreDigits ds

/-- Digits, perhaps a fraction and perhaps an exponent. -/
def IsNumeralText (cs : List Char) : Prop :=
  ∃ whole fraction exponent, cs = whole ++ fraction ++ exponent ∧
    whole ≠ [] ∧ AreDigits whole ∧ IsFraction fraction ∧ IsExponent exponent

theorem AreDigits.append {cs ds : List Char} (h : AreDigits cs) (h' : AreDigits ds) :
    AreDigits (cs ++ ds) := by
  intro c hc
  exact (List.mem_append.1 hc).elim (h c) (h' c)

theorem areDigits_toDigits (n : Nat) : AreDigits (Nat.toDigits 10 n) :=
  fun _ hc => Nat.isDigit_of_mem_toDigits (by decide) (by decide) hc

theorem areDigits_replicate (n : Nat) : AreDigits (List.replicate n '0') := by
  intro c hc
  rw [List.eq_of_mem_replicate hc]
  decide

theorem natural?_isSome {cs : List Char} (hne : cs ≠ []) (h : AreDigits cs) :
    ∃ n, Decimal.natural? 10 cs = some n := by
  refine ⟨_, if_neg ?_⟩
  have hany : cs.any (fun c => decide (10 ≤ Decimal.digitValue c)) = false := by
    rw [List.any_eq_false]
    intro c hc
    have hdigit := h c hc
    rw [Decimal.digitValue, if_pos hdigit]
    simp only [Char.isDigit, Bool.and_eq_true, decide_eq_true_eq, UInt32.le_iff_toNat_le] at hdigit
    have hbound : c.toNat ≤ 57 := hdigit.2
    simp only [decide_eq_true_eq]
    omega
  simp [hne, hany]

theorem exponent?_isSome {cs : List Char} (h : IsExponent cs) :
    ∃ e, Decimal.exponent? cs = some e := by
  obtain rfl | ⟨sign, ds, rfl, hsign, hne, hds⟩ := h
  · exact ⟨0, rfl⟩
  · obtain ⟨n, hn⟩ := natural?_isSome hne hds
    refine ⟨if sign = '-' then -n else n, ?_⟩
    rw [Decimal.exponent?, if_pos (.inl rfl)]
    obtain rfl | rfl := hsign
    · simp [Decimal.signed, hn]
    · simp [Decimal.signed, hn]

theorem takeWhile_digits {cs rest : List Char} (h : AreDigits cs)
    (hrest : ∀ c ∈ rest.head?, c.isDigit = false) :
    (cs ++ rest).takeWhile Char.isDigit = cs ∧ (cs ++ rest).dropWhile Char.isDigit = rest := by
  rw [List.takeWhile_append_of_pos h, List.dropWhile_append_of_pos h]
  cases rest with
  | nil => simp
  | cons c rest => simp [hrest c rfl]

theorem head?_exponent {cs : List Char} (h : IsExponent cs) :
    ∀ c ∈ cs.head?, c.isDigit = false ∧ c ≠ '.' := by
  obtain rfl | ⟨sign, ds, rfl, -⟩ := h
  · simp
  · intro c hc
    rw [← Option.some.inj hc]
    decide

theorem decimal?_isSome {cs : List Char} (h : IsNumeralText cs) :
    (Decimal.decimal? cs).isSome = true := by
  obtain ⟨whole, fraction, exponent, rfl, hne, hwhole, hfraction, hexponent⟩ := h
  obtain ⟨e, he⟩ := exponent?_isSome hexponent
  have hhead := head?_exponent hexponent
  obtain rfl | ⟨ds, rfl, hds⟩ := hfraction
  · obtain ⟨n, hn⟩ := natural?_isSome hne hwhole
    obtain ⟨htake, hdrop⟩ := takeWhile_digits hwhole fun c hc => (hhead c hc).1
    have hpoint : ∀ ds, exponent ≠ '.' :: ds := by
      rintro ds rfl
      exact (hhead '.' rfl).2 rfl
    rw [List.append_nil, Decimal.decimal?]
    -- the match on a point takes its other case, by `hpoint`
    simp [htake, hdrop, hn, he]
  · obtain ⟨n, hn⟩ := natural?_isSome (fun h => hne (List.append_eq_nil_iff.1 h).1)
      (hwhole.append hds)
    obtain ⟨htake, hdrop⟩ := takeWhile_digits hwhole
      (show ∀ c ∈ ('.' :: (ds ++ exponent)).head?, c.isDigit = false by simp)
    obtain ⟨htake', hdrop'⟩ := takeWhile_digits hds fun c hc => (hhead c hc).1
    rw [List.append_assoc, List.cons_append, Decimal.decimal?]
    simp [htake, hdrop, htake', hdrop', hn, he]

theorem IsNumeralText.isChunkChar {cs : List Char} (h : IsNumeralText cs) :
    ∀ c ∈ cs, isChunkChar c = true := by
  have hdigit : ∀ c : Char, c.isDigit = true → Reader.isChunkChar c = true := fun c hc =>
    isChunkChar_of_isWordChar (by simp [isWordChar, Char.isAlphanum, hc])
  obtain ⟨whole, fraction, exponent, rfl, -, hwhole, hfraction, hexponent⟩ := h
  intro c hc
  rcases List.mem_append.1 hc with hc | hc
  · rcases List.mem_append.1 hc with hc | hc
    · exact hdigit c (hwhole c hc)
    · obtain rfl | ⟨ds, rfl, hds⟩ := hfraction
      · cases hc
      · rcases List.mem_cons.1 hc with rfl | hc
        · decide
        · exact hdigit c (hds c hc)
  · obtain rfl | ⟨sign, ds, rfl, hsign, -, hds⟩ := hexponent
    · cases hc
    · rcases List.mem_cons.1 hc with rfl | hc
      · decide
      · rcases List.mem_cons.1 hc with rfl | hc
        · obtain rfl | rfl := hsign
          · decide
          · decide
        · exact hdigit c (hds c hc)

theorem IsNumeralText.eq_cons {cs : List Char} (h : IsNumeralText cs) :
    ∃ c ds, cs = c :: ds ∧ c.isDigit = true := by
  obtain ⟨whole, fraction, exponent, rfl, hne, hwhole, -⟩ := h
  obtain ⟨c, ds, rfl⟩ := List.exists_cons_of_ne_nil hne
  exact ⟨c, _, rfl, hwhole c List.mem_cons_self⟩

theorem isStart_of_isDigit {c : Char} (h : c.isDigit = true) : a.isStart c = false := by
  simp only [Char.isDigit, Bool.and_eq_true, decide_eq_true_eq, UInt32.le_iff_toNat_le] at h
  have hlow : 48 ≤ c.toNat := h.1
  have hhigh : c.toNat ≤ 57 := h.2
  have halpha : c.isAlpha = false := by
    rw [Bool.eq_false_iff]
    intro h
    simp only [Char.isAlpha, Char.isUpper, Char.isLower, Bool.or_eq_true, Bool.and_eq_true,
      decide_eq_true_eq, UInt32.le_iff_toNat_le, ge_iff_le] at h
    change 65 ≤ c.toNat ∧ c.toNat ≤ 90 ∨ 97 ≤ c.toNat ∧ c.toNat ≤ 122 at h
    omega
  have hunderscore : c ≠ '_' := by
    rintro rfl
    revert hhigh
    decide
  have hdollar : c ≠ '$' := by
    rintro rfl
    revert hlow
    decide
  have hascii : ¬ 127 < c.toNat := by omega
  simp [Alphabet.isStart, halpha, hunderscore, hdollar, hascii]

/-- A decimal numeral is one token, with and without a minus sign. -/
theorem lexes_numeral {cs : List Char} (h : IsNumeralText cs) :
    Lexes a cs [.numeral (String.ofList cs)] ∧
      Lexes a ('-' :: cs) [.numeral (String.ofList ('-' :: cs))] := by
  obtain ⟨c, ds, hcs, hc⟩ := h.eq_cons
  have hminus : c ≠ '-' := by
    rintro rfl
    cases hc
  constructor
  · refine lexes_of_chunk h.isChunkChar ?_
    have hid : a.isIdentifier cs = false := by
      rw [hcs, Alphabet.isIdentifier, isStart_of_isDigit hc, Bool.false_and]
    have hnum : isNumeral cs = true := by
      have := decimal?_isSome h
      rw [hcs] at this ⊢
      unfold isNumeral
      split
      · rename_i heq
        exact absurd (List.cons.inj heq).1 hminus
      · exact this
    rw [chunkTokens, if_neg (hcs ▸ List.cons_ne_nil c ds), if_neg (by simp [hid]), if_pos hnum]
  · refine lexes_of_chunk ?_ ?_
    · intro d hd
      rcases List.mem_cons.1 hd with rfl | hd
      · decide
      · exact h.isChunkChar d hd
    · have hid : a.isIdentifier ('-' :: cs) = false := by
        rw [Alphabet.isIdentifier, show a.isStart '-' = false by simp [Alphabet.isStart],
          Bool.false_and]
      rw [chunkTokens, if_neg (List.cons_ne_nil _ _), if_neg (by simp [hid]),
        if_pos (show isNumeral ('-' :: cs) = true from decimal?_isSome h)]

/-! ### The text of a number -/

theorem isNumeralText_digits {cs : List Char} (hne : cs ≠ []) (h : AreDigits cs) :
    IsNumeralText cs :=
  ⟨cs, [], [], by rw [List.append_nil, List.append_nil], hne, h, .inl rfl, .inl rfl⟩

theorem isNumeralText_point (whole : List Char) {fraction : List Char} (hne : whole ≠ [])
    (hwhole : AreDigits whole) (hfraction : AreDigits fraction) :
    IsNumeralText (whole ++ '.' :: fraction) :=
  ⟨whole, '.' :: fraction, [], (List.append_nil _).symm, hne, hwhole, .inr ⟨fraction, rfl, hfraction⟩,
    .inl rfl⟩

theorem isNumeralText_positional {digits : List Char} (h : AreDigits digits) (point : Int) :
    IsNumeralText (Binary64.positional digits point) := by
  unfold Binary64.positional
  by_cases hlow : point ≤ 0
  · rw [if_pos hlow]
    exact isNumeralText_point ['0'] (by simp) (areDigits_replicate 1)
      ((areDigits_replicate _).append h)
  · rw [if_neg hlow]
    by_cases hhigh : (digits.length : Int) ≤ point
    · rw [if_pos hhigh]
      refine isNumeralText_point _ ?_ (h.append (areDigits_replicate _)) (areDigits_replicate 1)
      intro hnil
      have := congrArg List.length hnil
      simp only [List.length_append, List.length_replicate, List.length_nil] at this
      omega
    · rw [if_neg hhigh]
      refine isNumeralText_point _ ?_ (fun c hc => h c (List.mem_of_mem_take hc))
        fun c hc => h c (List.mem_of_mem_drop hc)
      intro hnil
      have := congrArg List.length hnil
      simp only [List.length_take, List.length_nil] at this
      omega

theorem isNumeralText_scientific {digits : List Char} (hne : digits ≠ []) (h : AreDigits digits)
    (e : Int) : IsNumeralText (Binary64.scientific digits e) := by
  have hexponent : IsExponent
      ('e' :: (if e < 0 then '-' else '+') :: Nat.toDigits 10 e.natAbs) := by
    refine .inr ⟨_, _, rfl, ?_, Nat.toDigits_ne_nil, areDigits_toDigits _⟩
    by_cases he : e < 0
    · exact .inr (if_pos he)
    · exact .inl (if_neg he)
  unfold Binary64.scientific
  match digits with
  | [] => exact absurd rfl hne
  | [d] => exact ⟨[d], [], _, rfl, List.cons_ne_nil d [], h, .inl rfl, hexponent⟩
  | d :: d' :: ds =>
    refine ⟨[d], '.' :: d' :: ds, _, rfl, List.cons_ne_nil d [], ?_, .inr ⟨_, rfl, ?_⟩, hexponent⟩
    · exact fun c hc => h c (List.mem_singleton.1 hc ▸ List.mem_cons_self)
    · exact fun c hc => h c (List.mem_cons_of_mem d hc)

/-- The text of a number is a decimal numeral, perhaps with a minus sign. -/
theorem isNumeralText_number (n : Json.Number) :
    ∃ cs, IsNumeralText cs ∧ (n.text = String.ofList cs ∨ n.text = String.ofList ('-' :: cs)) := by
  cases n with
  | integer n lower upper =>
    refine ⟨_, isNumeralText_digits Nat.toDigits_ne_nil (areDigits_toDigits n.natAbs), ?_⟩
    rw [Json.Number.text, Json.Number.integerText]
    by_cases hn : n < 0
    · rw [if_pos hn]
      exact .inr rfl
    · rw [if_neg hn]
      exact .inl rfl
  | float x =>
    have hmagnitude : IsNumeralText
        (if x.mantissa = 0 then ['0', '.', '0']
        else
          let digits := Nat.toDigits 10 x.shortest.1
          let point : Int := digits.length + x.shortest.2
          if -5 < point ∧ point ≤ 16 then Binary64.positional digits point
          else Binary64.scientific digits (point - 1)) := by
      by_cases hzero : x.mantissa = 0
      · rw [if_pos hzero]
        exact isNumeralText_point ['0'] (by simp) (areDigits_replicate 1)
          (areDigits_replicate 1)
      · rw [if_neg hzero]
        extract_lets digits point
        by_cases hpoint : -5 < point ∧ point ≤ 16
        · rw [if_pos hpoint]
          exact isNumeralText_positional (areDigits_toDigits _) point
        · rw [if_neg hpoint]
          exact isNumeralText_scientific Nat.toDigits_ne_nil (areDigits_toDigits _) _
    refine ⟨_, hmagnitude, ?_⟩
    rw [Json.Number.text, Binary64.text]
    cases x.negative with
    | true => exact .inr rfl
    | false => exact .inl rfl

/-- The text of a number is one token. -/
theorem lexes_number (n : Json.Number) : Lexes a n.text.toList [.numeral n.text] := by
  obtain ⟨cs, hcs, hn | hn⟩ := isNumeralText_number n
  · rw [hn, String.toList_ofList]
    exact (lexes_numeral hcs).1
  · rw [hn, String.toList_ofList]
    exact (lexes_numeral hcs).2

end SchemaTypes.Reader
