/-
# Every accepted command line is made of groups

The words of a command line that is accepted, and in which the options are not
ended by two dashes, fall into groups. The scan decides it word by word: a word
that is taken is a group by itself, or an option that waits for its value; and
behind the latter only a word that is no option is taken, for everything else
first takes in what was noted, which fails.

Key theorems: `Scan.word_cases`, `Scan.exists_bare_of_waiting`,
`Scan.exists_groups`.
-/
import Mathlib.Data.List.TakeWhile
import Mathlib.Logic.Basic
import SchemaTypes.Proofs.CommandLine.Group

namespace SchemaTypes.CommandLine

open Invocation (Fault)

/-! ### Names and letters -/

theorem longOption?_eq_some {name : List Char} {a : Arg} (h : longOption? name = some a) :
    (∃ o : ValueOption, name = o.longName.toList ∧ a = .valued o) ∨
      (∃ w : Switch, name = w.longName.toList ∧ a = .switch w) ∨
      (name = "verbose".toList ∧ a = .verbose) ∨ a = .help ∨ a = .version := by
  unfold longOption? at h
  rcases ite_eq_iff.1 h with ⟨hname, ha⟩ | ⟨-, h⟩
  · cases ha
    exact .inl ⟨.output, hname, rfl⟩
  rcases ite_eq_iff.1 h with ⟨hname, ha⟩ | ⟨-, h⟩
  · cases ha
    exact .inl ⟨.format, hname, rfl⟩
  rcases ite_eq_iff.1 h with ⟨hname, ha⟩ | ⟨-, h⟩
  · cases ha
    exact .inl ⟨.config, hname, rfl⟩
  rcases ite_eq_iff.1 h with ⟨hname, ha⟩ | ⟨-, h⟩
  · cases ha
    exact .inl ⟨.namePrefix, hname, rfl⟩
  rcases ite_eq_iff.1 h with ⟨hname, ha⟩ | ⟨-, h⟩
  · cases ha
    exact .inr (.inl ⟨.inlineRefs, hname, rfl⟩)
  rcases ite_eq_iff.1 h with ⟨hname, ha⟩ | ⟨-, h⟩
  · cases ha
    exact .inr (.inl ⟨.noExport, hname, rfl⟩)
  rcases ite_eq_iff.1 h with ⟨hname, ha⟩ | ⟨-, h⟩
  · cases ha
    exact .inr (.inl ⟨.typedAliases, hname, rfl⟩)
  rcases ite_eq_iff.1 h with ⟨hname, ha⟩ | ⟨-, h⟩
  · cases ha
    exact .inr (.inr (.inl ⟨hname, rfl⟩))
  rcases ite_eq_iff.1 h with ⟨-, ha⟩ | ⟨-, h⟩
  · cases ha
    exact .inr (.inr (.inr (.inl rfl)))
  rcases ite_eq_iff.1 h with ⟨-, ha⟩ | ⟨-, h⟩
  · cases ha
    exact .inr (.inr (.inr (.inr rfl)))
  cases h

theorem shortOption?_eq_some {c : Char} {a : Arg} (h : shortOption? c = some a) :
    (∃ l : Letter, c = l.char ∧ a = .valued l.option) ∨ (c = 'v' ∧ a = .verbose) ∨
      a = .help ∨ a = .version := by
  unfold shortOption? at h
  rcases ite_eq_iff.1 h with ⟨hchar, ha⟩ | ⟨-, h⟩
  · cases ha
    exact .inl ⟨.o, hchar, rfl⟩
  rcases ite_eq_iff.1 h with ⟨hchar, ha⟩ | ⟨-, h⟩
  · cases ha
    exact .inl ⟨.f, hchar, rfl⟩
  rcases ite_eq_iff.1 h with ⟨hchar, ha⟩ | ⟨-, h⟩
  · cases ha
    exact .inl ⟨.c, hchar, rfl⟩
  rcases ite_eq_iff.1 h with ⟨hchar, ha⟩ | ⟨-, h⟩
  · cases ha
    exact .inr (.inl ⟨hchar, rfl⟩)
  rcases ite_eq_iff.1 h with ⟨-, ha⟩ | ⟨-, h⟩
  · cases ha
    exact .inr (.inr (.inl rfl))
  rcases ite_eq_iff.1 h with ⟨-, ha⟩ | ⟨-, h⟩
  · cases ha
    exact .inr (.inr (.inr rfl))
  cases h

/-- What a word can be: the end of the options, no option, a cluster of
letters, or a name with an equals sign behind it or nothing. -/
theorem word_shapes (w : String) :
    w = "--" ∨ (∃ x : BareWord, x.text = w) ∨ (∃ c cs, w.toList = '-' :: c :: cs ∧ c ≠ '-') ∨
      ∃ name rest, w.toList = '-' :: '-' :: (name ++ rest) ∧ name ++ rest ≠ [] ∧ '=' ∉ name ∧
        ∀ c ∈ rest.head?, c = '=' := by
  by_cases hstart : w.toList.head? = some '-'
  case neg => exact .inr (.inl ⟨⟨w, .inr hstart⟩, rfl⟩)
  obtain ⟨cs, hcs⟩ := List.head?_eq_some_iff.1 hstart
  match cs with
  | [] => exact .inr (.inl ⟨⟨w, .inl (String.toList_inj.1 hcs)⟩, rfl⟩)
  | c :: cs =>
    by_cases hc : c = '-'
    case neg => exact .inr (.inr (.inl ⟨c, cs, hcs, hc⟩))
    subst hc
    match cs with
    | [] => exact .inl (String.toList_inj.1 hcs)
    | d :: ds =>
      have hsplit : (d :: ds).takeWhile (· ≠ '=') ++ (d :: ds).dropWhile (· ≠ '=') = d :: ds :=
        List.takeWhile_append_dropWhile
      refine .inr (.inr (.inr ⟨_, _, by rw [hsplit, hcs], by simp, fun hmem => ?_, fun e he => ?_⟩))
      · simpa using List.mem_takeWhile_imp hmem
      · have hnot := List.head?_dropWhile_not (· ≠ '=') (d :: ds)
        rw [he] at hnot
        simpa using hnot

namespace Scan

variable {s u : Scan} {o : ValueOption} {w : String} {cs : List Char}

/-! ### Words that are taken -/

/-- A cluster that is taken asks for more log output and may end in an option,
with its value or waiting for it. -/
theorem cluster_cases (h : s.cluster cs = .ok u) :
    (∃ n, cs = List.replicate n 'v') ∨
      (∃ n l c ds, cs = List.replicate n 'v' ++ Letter.char l :: c :: ds) ∨
      ∃ n l, cs = List.replicate n 'v' ++ [Letter.char l] ∧
        u.noted = some (.valued l.option none) ∧ u.optionsEnded = s.optionsEnded := by
  induction cs generalizing s with
  | nil => exact .inl ⟨0, rfl⟩
  | cons c cs ih =>
    rw [cluster] at h
    cases ha : shortOption? c with
    | none => rw [ha] at h; cases h
    | some a =>
      rw [ha] at h
      rcases shortOption?_eq_some ha with ⟨l, rfl, rfl⟩ | ⟨rfl, rfl⟩ | rfl | rfl
      · cases cs with
        | nil =>
          obtain ⟨t, ht, h⟩ := Except.exists_of_bind_eq_ok h
          cases h
          exact .inr (.inr ⟨0, l, rfl, rfl, (settle_facts ht).2.1⟩)
        | cons d ds => exact .inr (.inl ⟨0, l, d, ds, rfl⟩)
      · obtain ⟨v, hv, h⟩ := Except.exists_of_bind_eq_ok h
        obtain ⟨t, ht, hv⟩ := Except.exists_of_bind_eq_ok hv
        have hended : v.optionsEnded = s.optionsEnded := by
          cases hv
          exact (settle_facts ht).2.1
        rcases ih h with ⟨n, rfl⟩ | ⟨n, l, d, ds, rfl⟩ | ⟨n, l, rfl, hnoted, hu⟩
        · exact .inl ⟨n + 1, rfl⟩
        · exact .inr (.inl ⟨n + 1, l, d, ds, rfl⟩)
        · exact .inr (.inr ⟨n + 1, l, rfl, hnoted, hu.trans hended⟩)
      · obtain ⟨v, hv, -⟩ := Except.exists_of_bind_eq_ok h
        obtain ⟨t, -, hv⟩ := Except.exists_of_bind_eq_ok hv
        cases hv
      · obtain ⟨v, hv, -⟩ := Except.exists_of_bind_eq_ok h
        obtain ⟨t, -, hv⟩ := Except.exists_of_bind_eq_ok hv
        cases hv

/-- A name that is taken is a group, or an option that waits for its value. -/
theorem long_cases {name rest : List Char}
    (hword : w = String.ofList ('-' :: '-' :: (name ++ rest))) (hrest : ∀ c ∈ rest.head?, c = '=')
    (hs : s.Ready) (h : s.long name (rest.tail?.map String.ofList) = .ok u) :
    (∃ g : Group, g.words = [w]) ∨
      ∃ o, u.noted = some (.valued o none) ∧ u.optionsEnded = false ∧
        ∀ x : BareWord, ∃ g : Group, g.words = [w, x.text] := by
  have hlong : ∀ t : String, String.ofList ('-' :: '-' :: (t.toList ++ [])) = "--" ++ t := by
    intro t
    rw [← String.toList_inj]
    simp
  rw [long] at h
  cases ha : longOption? name with
  | none => rw [ha] at h; cases h
  | some a =>
    rw [ha] at h
    rcases longOption?_eq_some ha with ⟨o, rfl, rfl⟩ | ⟨sw, rfl, rfl⟩ | ⟨rfl, rfl⟩ | rfl | rfl
    · cases rest with
      | nil =>
        obtain ⟨t, ht, h⟩ := Except.exists_of_bind_eq_ok h
        cases h
        refine .inr ⟨o, rfl, (settle_facts ht).2.1.trans hs.options, fun x => ⟨.longApart o x, ?_⟩⟩
        rw [hword, hlong]
        rfl
      | cons c cs =>
        obtain rfl : c = '=' := hrest c rfl
        refine .inl ⟨.longJoined o (String.ofList cs), ?_⟩
        rw [hword, Group.words]
        refine congrArg (· :: []) ?_
        rw [← String.toList_inj]
        simp
    · cases rest with
      | nil => exact .inl ⟨.switch sw, by rw [hword, hlong]; rfl⟩
      | cons c cs => cases h
    · cases rest with
      | nil => exact .inl ⟨.verbose, by rw [hword, hlong]; rfl⟩
      | cons c cs => cases h
    · cases rest with
      | nil =>
        obtain ⟨t, -, h⟩ := Except.exists_of_bind_eq_ok h
        cases h
      | cons c cs => cases h
    · cases rest with
      | nil =>
        obtain ⟨t, -, h⟩ := Except.exists_of_bind_eq_ok h
        cases h
      | cons c cs => cases h

/-- A word that is taken between two groups is a group, or an option that waits
for its value and makes a group with any word that is none. -/
theorem word_cases (hs : s.Ready) (hw : w ≠ "--") (h : s.word w = .ok u) :
    (∃ g : Group, g.words = [w]) ∨
      ∃ o, u.noted = some (.valued o none) ∧ u.optionsEnded = false ∧
        ∀ x : BareWord, ∃ g : Group, g.words = [w, x.text] := by
  rcases word_shapes w with hdashes | ⟨x, rfl⟩ | ⟨c, cs, hcs, hc⟩ | ⟨name, rest, hcs, hne, hname, hrest⟩
  · exact absurd hdashes hw
  · exact .inl ⟨.operand x, rfl⟩
  · rw [word_cluster hs.options hcs hc] at h
    have hword : w = String.ofList ('-' :: c :: cs) := by rw [← hcs, String.ofList_toList]
    rcases cluster_cases h with ⟨n, hn⟩ | ⟨n, l, d, ds, hn⟩ | ⟨n, l, hn, hnoted, hended⟩
    · cases n with
      | zero => cases hn
      | succ n => exact .inl ⟨.cluster n, by rw [hword, hn]; rfl⟩
    · exact .inl ⟨.shortJoined n l d ds, by rw [hword, hn]; rfl⟩
    · refine .inr ⟨l.option, hnoted, hended.trans hs.options, fun x => ⟨.shortApart n l x, ?_⟩⟩
      rw [hword, hn]
      rfl
  · rw [word_long hs.options hcs hne hname hrest] at h
    have hword : w = String.ofList ('-' :: '-' :: (name ++ rest)) := by
      rw [← hcs, String.ofList_toList]
    exact long_cases hword hrest hs h

/-! ### Words behind an option that waits -/

theorem settle_waiting (hnoted : s.noted = some (.valued o none)) :
    s.settle = .error .invalidValue := by
  rw [settle, hnoted]

theorem plain_waiting (hnoted : s.noted = some (.valued o none)) (a : Arg) :
    ∃ e, s.plain a = .error e := by
  have hsettle := settle_waiting hnoted
  cases a <;> simp [plain, hsettle, bind, Except.bind]

theorem valued_waiting (hnoted : s.noted = some (.valued o none)) (o' : ValueOption)
    (value : Option String) : s.valued o' value = .error .invalidValue := by
  have hsettle := settle_waiting hnoted
  cases value <;> simp [valued, hsettle, bind, Except.bind]

theorem long_waiting (hnoted : s.noted = some (.valued o none)) (name : List Char)
    (value : Option String) : ∃ e, s.long name value = .error e := by
  rw [long]
  cases longOption? name with
  | none => exact ⟨_, rfl⟩
  | some a =>
    cases a with
    | valued o' => exact ⟨_, valued_waiting hnoted o' value⟩
    | _ =>
      dsimp only
      split
      · exact ⟨_, rfl⟩
      · exact plain_waiting hnoted _

theorem cluster_waiting (hnoted : s.noted = some (.valued o none)) (c : Char) (cs : List Char) :
    ∃ e, s.cluster (c :: cs) = .error e := by
  rw [cluster]
  cases shortOption? c with
  | none => exact ⟨_, rfl⟩
  | some a =>
    cases a with
    | valued o' => exact ⟨_, valued_waiting hnoted o' _⟩
    | _ =>
      obtain ⟨e, he⟩ := plain_waiting hnoted _
      exact ⟨e, by dsimp only; rw [he]; rfl⟩

/-- An option that waits for its value takes no other option. -/
theorem exists_bare_of_waiting (hnoted : s.noted = some (.valued o none))
    (hended : s.optionsEnded = false) (hw : w ≠ "--") (h : s.word w = .ok u) :
    ∃ x : BareWord, x.text = w := by
  rcases word_shapes w with hdashes | hbare | ⟨c, cs, hcs, hc⟩ | ⟨name, rest, hcs, hne, hname, hrest⟩
  · exact absurd hdashes hw
  · exact hbare
  · obtain ⟨e, he⟩ := cluster_waiting hnoted c cs
    rw [word_cluster hended hcs hc, he] at h
    cases h
  · obtain ⟨e, he⟩ := long_waiting hnoted name (rest.tail?.map String.ofList)
    rw [word_long hended hcs hne hname hrest, he] at h
    cases h

/-! ### Lines -/

/-- The words from between two groups on, if they are taken and what is noted at
their end can be taken in, are groups. -/
theorem exists_groups {s u t : Scan} {ws : List String} (hs : s.Ready) (h : s.words ws = .ok u)
    (hu : u.settle = .ok t) (hends : "--" ∉ ws) :
    ∃ gs : List Group, gs.flatMap Group.words = ws := by
  match ws with
  | [] => exact ⟨[], rfl⟩
  | w :: ws =>
    rw [List.mem_cons, not_or] at hends
    obtain ⟨hw, hends⟩ := hends
    obtain ⟨v, hv, h⟩ := Except.exists_of_bind_eq_ok h
    rcases word_cases hs (Ne.symm hw) hv with ⟨g, hg⟩ | ⟨o, hnoted, hended, hgroup⟩
    · have hready : v.Ready := by
        refine (g.acts s hs).1 v ?_
        show s.words g.words = .ok v
        rw [hg, words_cons, hv]
        rfl
      obtain ⟨gs, rfl⟩ := exists_groups hready h hu hends
      exact ⟨g :: gs, by rw [List.flatMap_cons, hg]; rfl⟩
    · match ws with
      | [] =>
        cases h
        rw [settle_waiting hnoted] at hu
        cases hu
      | x :: ws =>
        rw [List.mem_cons, not_or] at hends
        obtain ⟨hx, hends⟩ := hends
        obtain ⟨v', hv', hrest⟩ := Except.exists_of_bind_eq_ok h
        obtain ⟨x, rfl⟩ := exists_bare_of_waiting hnoted hended (Ne.symm hx) hv'
        obtain ⟨g, hg⟩ := hgroup x
        have hready : v'.Ready := by
          refine (g.acts s hs).1 v' ?_
          show s.words g.words = .ok v'
          rw [hg, words_cons, hv, Except.ok_bind, words_cons, hv']
          rfl
        obtain ⟨gs, rfl⟩ := exists_groups hready hrest hu hends
        exact ⟨g :: gs, by rw [List.flatMap_cons, hg]; rfl⟩

end Scan

end SchemaTypes.CommandLine
