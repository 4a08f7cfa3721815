/-
# Integers are read back

An integer is written with its decimal digits, without a needless zero in
front, and with a minus sign if it is negative. The reader takes the sign and
the digits as they are written, as long as the text does not go on with what
would make the numeral longer (`Json.Parser.EndsNumeral`), and they stand for
the integer. There is neither a fraction nor an exponent and the integer is in
range, so it does not become a number in double precision.

Key definitions: `Json.Parser.EndsNumeral`.
Key theorems: `Json.Parser.number_integerText`,
`Json.Parser.valueWith_integerText`.
-/
import SchemaTypes.Proofs.Except
import SchemaTypes.Proofs.Reader.Atom

namespace SchemaTypes

namespace Json

/-- A number that is not zero is not written with a zero in front. -/
theorem head?_toDigits_ne_zero {n : Nat} (h : 0 < n) : (Nat.toDigits 10 n).head? ≠ some '0' := by
  induction n using Nat.strongRecOn with
  | _ n ih =>
    rw [Nat.toDigits_eq_if (by decide)]
    by_cases hlt : n < 10
    · rw [if_pos hlt]
      have hdigit : ∀ m < 10, 0 < m → [m.digitChar].head? ≠ some '0' := by decide
      exact hdigit n hlt h
    · rw [if_neg hlt, List.head?_append_of_ne_nil _ Nat.toDigits_ne_nil]
      exact ih (n / 10) (by omega) (by omega)

namespace Parser

open Reader (areDigits_toDigits takeWhile_digits)

/-- A text that does not make a numeral in front of it longer. -/
def EndsNumeral (rest : List Char) : Prop :=
  ∀ c ∈ rest.head?, c.isDigit = false ∧ c ≠ '.' ∧ c ≠ 'e' ∧ c ≠ 'E'

variable {rest : List Char}

theorem EndsNumeral.nil : EndsNumeral [] := nofun

theorem EndsNumeral.cons {c : Char} (h : c.isDigit = false ∧ c ≠ '.' ∧ c ≠ 'e' ∧ c ≠ 'E') :
    EndsNumeral (c :: rest) := by
  intro d hd
  rw [← Option.some.inj hd]
  exact h

theorem whole_toDigits (n : Nat) (h : EndsNumeral rest) :
    whole (Nat.toDigits 10 n ++ rest) = .ok (Nat.toDigits 10 n, rest) := by
  obtain ⟨htake, hdrop⟩ := takeWhile_digits (areDigits_toDigits n) fun c hc => (h c hc).1
  obtain rfl | hpos := Nat.eq_zero_or_pos n
  · cases rest with
    | nil => rfl
    | cons c rest =>
      show (if c.isDigit then _ else _) = _
      rw [(h c rfl).1]
      rfl
  · unfold whole
    split
    · rename_i cs hcs
      have hhead := congrArg List.head? hcs
      rw [List.head?_append_of_ne_nil _ Nat.toDigits_ne_nil] at hhead
      exact absurd hhead (head?_toDigits_ne_zero hpos)
    · rw [htake, hdrop]
      split
      · rename_i hnil
        exact absurd hnil Nat.toDigits_ne_nil
      · rfl

theorem fraction_of_endsNumeral (h : EndsNumeral rest) : fraction rest = .ok (none, rest) := by
  rw [fraction]
  rintro cs rfl
  exact (h '.' rfl).2.1 rfl

theorem exponent_of_endsNumeral (h : EndsNumeral rest) : exponent rest = .ok (none, rest) := by
  cases rest with
  | nil => rfl
  | cons c cs =>
    obtain ⟨-, -, he, hE⟩ := h c rfl
    show (if c = 'e' ∨ c = 'E' then _ else _) = _
    rw [if_neg (not_or.2 ⟨he, hE⟩)]

theorem sign_toDigits (n : Nat) :
    sign (Nat.toDigits 10 n ++ rest) = (false, Nat.toDigits 10 n ++ rest) := by
  rw [sign]
  intro cs hcs
  have hhead := congrArg List.head? hcs
  rw [List.head?_append_of_ne_nil _ Nat.toDigits_ne_nil] at hhead
  have := areDigits_toDigits n '-' (List.mem_of_head? hhead)
  revert this
  decide

/-- An integer is read as its sign and its digits. -/
theorem numeral_integerText (n : Int) (h : EndsNumeral rest) :
    numeral ((Number.integerText n).toList ++ rest) =
      .ok (⟨decide (n < 0), Nat.toDigits 10 n.natAbs, none, none⟩, rest) := by
  have hsign : sign ((Number.integerText n).toList ++ rest) =
      (decide (n < 0), Nat.toDigits 10 n.natAbs ++ rest) := by
    rw [Number.integerText, String.toList_ofList]
    by_cases hn : n < 0
    · rw [if_pos hn, decide_eq_true hn]
      rfl
    · rw [if_neg hn, decide_eq_false hn, sign_toDigits]
  unfold numeral
  simp only [hsign, whole_toDigits _ h, fraction_of_endsNumeral h, exponent_of_endsNumeral h,
    Except.ok_bind]
  rfl

/-- The sign and the digits stand for the integer, also at the ends of the
range. -/
theorem number?_integer {n : Int} (lower : -9223372036854775808 ≤ n)
    (upper : n ≤ 18446744073709551615) :
    Numeral.number? ⟨decide (n < 0), Nat.toDigits 10 n.natAbs, none, none⟩ =
      some (.integer n lower upper) := by
  have hvalue :
      (if decide (n < 0) = true then -(Nat.ofDigitChars 10 (Nat.toDigits 10 n.natAbs) 0 : Int)
        else Nat.ofDigitChars 10 (Nat.toDigits 10 n.natAbs) 0) = n := by
    rw [Nat.ofDigitChars_ten_toDigits]
    split_ifs with hn
    · rw [decide_eq_true_eq] at hn
      omega
    · rw [decide_eq_true_eq] at hn
      omega
  have hrange : (-9223372036854775808 ≤ n ∧ n ≤ 18446744073709551615) ∧
      ¬ (decide (n < 0) = true ∧ n = 0) := by
    refine ⟨⟨lower, upper⟩, fun hzero => ?_⟩
    rw [decide_eq_true_eq] at hzero
    omega
  unfold Numeral.number?
  simp only [Option.isNone_none, Bool.and_self, if_true, hvalue, dif_pos hrange]

/-- **An integer is read back**, whatever stands behind it that is no part of
a numeral. -/
theorem number_integerText {n : Int} (lower : -9223372036854775808 ≤ n)
    (upper : n ≤ 18446744073709551615) (h : EndsNumeral rest) :
    number ((Number.integerText n).toList ++ rest) = .ok (.integer n lower upper, rest) := by
  simp only [number, numeral_integerText n h, Except.ok_bind, number?_integer lower upper]
  rfl

theorem skip_cons {c : Char} (h : isSpace c = false) (cs : List Char) : skip (c :: cs) = c :: cs :=
  List.dropWhile_cons_of_neg (by rw [h]; decide)

/-- A text that starts with a minus sign or a digit is read as a number. -/
theorem valueWith_number (inner : Option (Reader Json)) {c : Char}
    (hc : c = '-' ∨ c.isDigit = true) (cs : List Char) :
    valueWith inner (c :: cs) = (do
      let (n, cs) ← number (c :: cs)
      pure (.number n, cs)) := by
  have hne : ∀ d ∈ [' ', '\t', '\n', '\r', 'n', 't', 'f', '"', '[', '\x7b'], c ≠ d := by
    have hother : ∀ d ∈ [' ', '\t', '\n', '\r', 'n', 't', 'f', '"', '[', '\x7b'],
        ¬ (d = '-' ∨ d.isDigit = true) := by simp
    rintro d hd rfl
    exact hother c hd hc
  have hspace : isSpace c = false := by
    simp [isSpace, hne]
  have hnumber : (c = '-' || c.isDigit) = true := by
    simpa using hc
  unfold valueWith
  rw [skip_cons hspace]
  -- the seven cases before that of a number are for other characters
  split
  · rename_i heq
    cases heq
  · rename_i heq
    exact absurd (List.cons.inj heq).1 (hne 'n' (by simp))
  · rename_i heq
    exact absurd (List.cons.inj heq).1 (hne 't' (by simp))
  · rename_i heq
    exact absurd (List.cons.inj heq).1 (hne 'f' (by simp))
  · rename_i heq
    exact absurd (List.cons.inj heq).1 (hne '"' (by simp))
  · rename_i heq
    exact absurd (List.cons.inj heq).1 (hne '[' (by simp))
  · rename_i heq
    exact absurd (List.cons.inj heq).1 (hne '\x7b' (by simp))
  · rename_i heq
    cases heq
    rw [if_pos hnumber]

/-- An integer is a value, at any depth. -/
theorem valueWith_integerText (inner : Option (Reader Json)) {n : Int}
    (lower : -9223372036854775808 ≤ n) (upper : n ≤ 18446744073709551615) (h : EndsNumeral rest) :
    valueWith inner ((Number.integerText n).toList ++ rest) =
      .ok (.number (.integer n lower upper), rest) := by
  obtain ⟨c, cs, htext, hc⟩ : ∃ c cs, (Number.integerText n).toList = c :: cs ∧
      (c = '-' ∨ c.isDigit = true) := by
    rw [Number.integerText, String.toList_ofList]
    by_cases hn : n < 0
    · rw [if_pos hn]
      exact ⟨_, _, rfl, .inl rfl⟩
    · rw [if_neg hn]
      have hne : Nat.toDigits 10 n.natAbs ≠ [] := Nat.toDigits_ne_nil
      obtain ⟨c, cs, hcs⟩ := List.exists_cons_of_ne_nil hne
      exact ⟨c, cs, hcs, .inr (areDigits_toDigits _ c (hcs ▸ List.mem_cons_self))⟩
  have hnumber := number_integerText lower upper h
  rw [htext, List.cons_append] at hnumber ⊢
  rw [valueWith_number inner hc, hnumber]
  rfl

end Parser
end Json
end SchemaTypes
