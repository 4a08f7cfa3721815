/-
# The groups of a command line

A command line is made of groups: the input, a switch, an option with its
value, and requests for more log output. An option and its value may be one
word or two and may be named at length or by a letter, and letters that take no
value may stand in front of it in the same word.

The scan takes a value in a word of its own, and the input, only when the next
option comes or the line ends. Between two groups nothing waits for a word, so
what has been scanned can be taken in there: then a group does neither more nor
less than make its assignments (`Scan.Acts`, `Group.acts`), and a command line
is accepted exactly if the assignments of its groups can be made one after
another (`Group.toOption_parse`).

Key definitions: `BareWord`, `Group`, `Group.words`, `Group.assignments`,
`Scan.Ready`, `Scan.Acts`.
Key theorems: `Scan.Acts.andThen`, `Group.acts`, `Group.toOption_parse`.
-/
import SchemaTypes.Proofs.CommandLine.Assignment
import SchemaTypes.Proofs.Except

namespace SchemaTypes.CommandLine

open Invocation (Fault)

/-- The long name of an option that takes a value. -/
def ValueOption.longName : ValueOption → String
  | .output => "output"
  | .format => "format"
  | .config => "config"
  | .namePrefix => "prefix"

/-- The long name of a switch. -/
def Switch.longName : Switch → String
  | .inlineRefs => "inline-ref"
  | .noExport => "no-export"
  | .typedAliases => "typed-aliases"

/-- The letters of options that take a value. -/
inductive Letter where
  | o
  | f
  | c
deriving DecidableEq

namespace Letter

def char : Letter → Char
  | o => 'o'
  | f => 'f'
  | c => 'c'

/-- The option of the letter. -/
def option : Letter → ValueOption
  | o => .output
  | f => .format
  | c => .config

end Letter

/-- A word that is no option: it does not start with a dash, or is one. -/
structure BareWord where
  text : String
  bare : text = "-" ∨ text.toList.head? ≠ some '-'

/-- Words of a command line that belong together. -/
inductive Group where
  /-- The input. -/
  | operand (word : BareWord)
  | switch (s : Switch)
  | verbose
  /-- A cluster of one or more letters that ask for more log output. -/
  | cluster (n : Nat)
  /-- An option by its long name, and its value behind an equals sign. -/
  | longJoined (o : ValueOption) (value : String)
  /-- An option by its long name, and its value in a word of its own. -/
  | longApart (o : ValueOption) (value : BareWord)
  /-- An option by its letter at the end of a cluster, and its value in the
  same word, maybe behind an equals sign. -/
  | shortJoined (n : Nat) (l : Letter) (c : Char) (cs : List Char)
  /-- An option by its letter at the end of a cluster, and its value in a word
  of its own. -/
  | shortApart (n : Nat) (l : Letter) (value : BareWord)

namespace Group

/-- How the group is written. -/
def words : Group → List String
  | operand word => [word.text]
  | switch s => ["--" ++ s.longName]
  | verbose => ["--verbose"]
  | cluster n => [String.ofList ('-' :: List.replicate (n + 1) 'v')]
  | longJoined o value => ["--" ++ o.longName ++ "=" ++ value]
  | longApart o value => ["--" ++ o.longName, value.text]
  | shortJoined n l c cs => [String.ofList ('-' :: (List.replicate n 'v' ++ l.char :: c :: cs))]
  | shortApart n l value => [String.ofList ('-' :: (List.replicate n 'v' ++ [l.char])), value.text]

/-- What the group sets. -/
def assignments : Group → List Assignment
  | operand word => [.operand word.text]
  | switch s => [.switch s]
  | verbose => [.verbose]
  | cluster n => List.replicate (n + 1) .verbose
  | longJoined o value => [.value o value]
  | longApart o value => [.value o value.text]
  | shortJoined n l c cs =>
    List.replicate n .verbose ++ [.value l.option (String.ofList (if c = '=' then cs else c :: cs))]
  | shortApart n l value => List.replicate n .verbose ++ [.value l.option value.text]

/-- How often the group asks for more log output. -/
def verbosity : Group → Nat
  | verbose => 1
  | cluster n => n + 1
  | shortJoined n _ _ _ => n
  | shortApart n _ _ => n
  | _ => 0

theorem count_assignments (g : Group) : g.assignments.count .verbose = g.verbosity := by
  cases g <;> simp [assignments, verbosity, List.count_append, List.count_replicate_self]

end Group

namespace Scan

variable {s s' t t' : Scan} {as bs : List Assignment} {f g : Scan → Except Fault Scan}
  {cs : List Char}

/-! ### Taking in what was noted -/

theorem toOption_free_bind {α : Type} (place : Option α) (x : Except Fault Scan) :
    (free place >>= fun _ => x).toOption = if place.isSome then none else x.toOption := by
  cases place <;> rfl

/-- An option is given its value as an assignment does it. -/
theorem toOption_setValue (t : Scan) (value : String) (o : ValueOption) :
    (t.setValue value o).toOption = t.take? (.value o value) := by
  cases o with
  | output =>
    rw [setValue, toOption_free_bind]
    cases hslot : t.output <;> by_cases hvalue : value = "" <;>
      simp [take?, put, isFilled, path, hslot, hvalue, Assignment.isAdmitted, Assignment.slot?]
  | format =>
    rw [setValue, toOption_free_bind]
    cases hslot : t.format <;> cases hvalue : formatNamed value <;>
      simp [take?, put, isFilled, hslot, hvalue, Assignment.isAdmitted, Assignment.slot?]
  | config =>
    rw [setValue, toOption_free_bind]
    cases hslot : t.config <;> by_cases hvalue : value = "" <;>
      simp [take?, put, isFilled, path, hslot, hvalue, Assignment.isAdmitted, Assignment.slot?]
  | namePrefix =>
    rw [setValue, toOption_free_bind]
    cases hslot : t.namePrefix <;>
      simp [take?, put, isFilled, hslot, Assignment.isAdmitted, Assignment.slot?]
    rfl

/-- A switch is set as an assignment does it. -/
theorem toOption_setSwitch (t : Scan) (w : Switch) :
    (t.setSwitch w).toOption = t.take? (.switch w) := by
  cases w with
  | inlineRefs =>
    cases hslot : t.inlineRefs <;>
      simp [setSwitch, take?, put, isFilled, hslot, Assignment.isAdmitted, Assignment.slot?]
  | noExport =>
    cases hslot : t.noExport <;>
      simp [setSwitch, take?, put, isFilled, hslot, Assignment.isAdmitted, Assignment.slot?]
  | typedAliases =>
    cases hslot : t.typedAliases <;>
      simp [setSwitch, take?, put, isFilled, hslot, Assignment.isAdmitted, Assignment.slot?]

theorem settle_of_noted (h : s.noted = none) : s.settle = .ok s := by
  rw [settle, h]

/-- An assignment notes nothing and does not end the options. -/
theorem take?_facts {a : Assignment} (h : t.take? a = some t') :
    t'.noted = t.noted ∧ t'.optionsEnded = t.optionsEnded ∧
      (t'.hasOperand = (t.hasOperand || a.slot? = some .operand)) := by
  obtain ⟨⟨hadmitted, -⟩, rfl⟩ := take?_eq_some_iff.1 h
  refine ⟨?_, ?_, isFilled_put hadmitted .operand⟩
  · rcases a with _ | ⟨_ | _ | _ | _, _⟩ | ⟨_ | _ | _⟩ | _ <;> rfl
  · rcases a with _ | ⟨_ | _ | _ | _, _⟩ | ⟨_ | _ | _⟩ | _ <;> rfl

/-- Taking in what was noted leaves nothing noted, and whether an operand has
come and the options have ended as it was. -/
theorem settle_facts (h : s.settle = .ok t) :
    t.noted = none ∧ t.optionsEnded = s.optionsEnded ∧ t.hasOperand = s.hasOperand := by
  unfold settle at h
  split at h
  · rename_i hnone
    cases h
    exact ⟨hnone, rfl, rfl⟩
  · obtain ⟨word, -, h⟩ := Except.exists_of_bind_eq_ok h
    cases h
    exact ⟨rfl, rfl, rfl⟩
  · cases h
  · rename_i o value _
    rw [← toOption_eq_some_iff, toOption_setValue] at h
    obtain ⟨hnoted, hended, hoperand⟩ := take?_facts h
    exact ⟨hnoted, hended, by simpa [Assignment.slot?] using hoperand⟩

/-- The scan when what was noted has been taken in. -/
def settled? (s : Scan) : Option Scan :=
  s.settle.toOption

/-- What a scan asks for, if the input has come. -/
def invocation? (t : Scan) : Option Invocation :=
  t.input.map fun input =>
    { input
      output := t.output
      format := t.format.getD .auto
      config := t.config
      namePrefix := t.namePrefix
      inlineRefs := t.inlineRefs
      noExport := t.noExport
      typedAliases := t.typedAliases
      verbosity := t.verbosity }

/-- The scan stands between two groups: the options have not ended, and no
option waits for its value. -/
structure Ready (s : Scan) : Prop where
  options : s.optionsEnded = false
  complete : ∀ o, s.noted ≠ some (.valued o none)

theorem Ready.of_settled (hnoted : t.noted = none) (hended : t.optionsEnded = false) : Ready t :=
  ⟨hended, fun o ho => by rw [hnoted] at ho; cases ho⟩

/-! ### What a group does -/

/-- From between two groups on, the scan does as making the assignments does,
and comes to stand between two groups again. -/
def Acts (f : Scan → Except Fault Scan) (as : List Assignment) : Prop :=
  ∀ s, s.Ready → (∀ s', f s = .ok s' → s'.Ready) ∧
    (f s).toOption.bind settled? = takeAll s.settled? as

namespace Acts

theorem congr (h : ∀ s, s.Ready → f s = g s) (hg : Acts g as) : Acts f as := by
  intro s hs
  rw [h s hs]
  exact hg s hs

theorem nothing : Acts .ok [] := fun _ hs => ⟨fun _ h => Except.ok.inj h ▸ hs, rfl⟩

/-- What is done one after the other makes the assignments one after the
other. -/
theorem andThen (hf : Acts f as) (hg : Acts g bs) : Acts (fun s => f s >>= g) (as ++ bs) := by
  intro s hs
  obtain ⟨hready, hfs⟩ := hf s hs
  beta_reduce
  rw [takeAll_append, ← hfs]
  cases hx : f s with
  | error e => exact ⟨fun _ h => (by cases h), (takeAll_none bs).symm⟩
  | ok u => exact hg u (hready u hx)

/-- What starts by taking in what was noted need only do as the assignment does
from there. -/
theorem settle {a : Assignment} (h : ∀ t, t.noted = none → (g t).toOption = t.take? a) :
    Acts (fun s => s.settle >>= g) [a] := by
  intro s hs
  beta_reduce
  rw [settled?]
  cases hsettle : s.settle with
  | error e => exact ⟨fun _ h => (by cases h), rfl⟩
  | ok t =>
    obtain ⟨hnoted, hended, -⟩ := settle_facts hsettle
    have hgt := h t hnoted
    have hfacts : ∀ u, g t = .ok u → u.noted = none ∧ u.optionsEnded = false := by
      intro u hu
      rw [hu] at hgt
      obtain ⟨hunoted, huended, -⟩ := take?_facts hgt.symm
      exact ⟨hunoted.trans hnoted, huended.trans (hended.trans hs.options)⟩
    refine ⟨fun u hu => Ready.of_settled (hfacts u hu).1 (hfacts u hu).2, ?_⟩
    have hall : takeAll (some t) [a] = (g t).toOption := hgt.symm
    rw [toOption_ok, hall, Except.ok_bind]
    cases hu : g t with
    | error e => rfl
    | ok u => rw [toOption_ok, Option.bind_some, settled?, settle_of_noted (hfacts u hu).1, toOption_ok]

theorem verbose : Acts (·.plain .verbose) [.verbose] :=
  settle fun _ _ => rfl

theorem switch (w : Switch) : Acts (·.plain (.switch w)) [.switch w] :=
  settle fun t _ => toOption_setSwitch t w

theorem valued (o : ValueOption) (value : String) :
    Acts (·.valued o (some value)) [.value o value] :=
  settle fun t _ => toOption_setValue t value o

end Acts

/-! ### Words one after another -/

theorem words_cons (s : Scan) (w : String) (ws : List String) :
    s.words (w :: ws) = s.word w >>= (·.words ws) := rfl

theorem words_append (s : Scan) (ws us : List String) :
    s.words (ws ++ us) = s.words ws >>= (·.words us) := by
  induction ws generalizing s with
  | nil => rfl
  | cons w ws ih =>
    rw [List.cons_append, words_cons, words_cons, bind_assoc]
    exact congrArg _ (funext fun u => ih u)

/-! ### Words that are no options -/

theorem word_bare (hs : s.optionsEnded = false) (w : BareWord) : s.word w.text = s.bare w.text := by
  unfold word
  rw [hs, if_neg Bool.false_ne_true]
  rcases w.bare with hdash | hstart
  · rw [hdash]
    rfl
  · cases hw : w.text.toList with
    | nil => rfl
    | cons c cs =>
      have hc : c ≠ '-' := by
        rintro rfl
        exact hstart (by rw [hw, List.head?_cons])
      split <;> simp_all

theorem bare_of_ready (hs : s.Ready) (w : String) : s.bare w = s.operand w := by
  unfold bare
  split
  · rename_i o hnoted
    exact absurd hnoted (hs.complete o)
  · rfl

/-- The input, which is noted first and taken in later. -/
theorem Acts.operand (w : String) : Acts (·.operand w) [.operand w] := by
  intro s hs
  have hall : takeAll s.settled? [.operand w] = s.settled?.bind (·.take? (.operand w)) := rfl
  beta_reduce
  rw [hall, Scan.operand, settled?]
  cases hsettle : s.settle with
  | error e =>
    cases s.hasOperand with
    | true => exact ⟨fun _ h => (by cases h), rfl⟩
    | false => exact ⟨fun _ h => (by cases h), rfl⟩
  | ok t =>
    obtain ⟨hnoted, hended, hoperand⟩ := settle_facts hsettle
    cases hcome : s.hasOperand with
    | true =>
      refine ⟨fun _ h => (by cases h), ?_⟩
      simp [take?, isFilled, Assignment.slot?, hoperand, hcome]
    | false =>
      refine ⟨fun u hu => ?_, ?_⟩
      · cases hu
        exact ⟨hended.trans hs.options, fun o ho => by cases ho⟩
      · have htaken : settled? { t with noted := some (.operand w), hasOperand := true } =
            t.take? (.operand w) := by
          by_cases hw : w = "" <;>
            simp [settled?, Scan.settle, take?, put, path, isFilled, Assignment.isAdmitted,
              Assignment.slot?, hw, hoperand, hcome, hnoted]
        exact htaken

/-- The value that an option waits for is noted with it. -/
theorem words_waiting {o : ValueOption} (hs : s.optionsEnded = false)
    (hnoted : s.noted = some (.valued o none)) (w : BareWord) :
    s.words [w.text] = .ok { s with noted := some (.valued o (some w.text)) } := by
  rw [words_cons, word_bare hs, bare, hnoted]
  rfl

/-- An option whose value is in the word behind it, which is noted first and
taken in later. -/
theorem Acts.apart (o : ValueOption) (w : BareWord) :
    Acts (fun s => s.valued o none >>= (·.words [w.text])) [.value o w.text] := by
  intro s hs
  have hall : takeAll s.settled? [.value o w.text] =
      s.settled?.bind (·.take? (.value o w.text)) := rfl
  beta_reduce
  rw [hall, Scan.valued, settled?]
  cases hsettle : s.settle with
  | error e => exact ⟨fun _ h => (by cases h), rfl⟩
  | ok t =>
    obtain ⟨hnoted, hended, -⟩ := settle_facts hsettle
    have hended : t.optionsEnded = false := hended.trans hs.options
    have hword := words_waiting (s := { t with noted := some (.valued o none) }) hended rfl w
    have hself : { t with noted := none } = t := by rw [← hnoted]
    have htaken : settled? { t with noted := some (.valued o (some w.text)) } =
        t.take? (.value o w.text) := by
      rw [← toOption_setValue, settled?, Scan.settle, hself]
    simp only [Except.ok_bind, pure, Except.pure, hword]
    refine ⟨fun u hu => ?_, htaken⟩
    cases hu
    exact ⟨hended, fun o ho => by cases ho⟩

/-! ### Words that are options -/

/-- A word with two dashes in front is an option by its name, up to an equals
sign, and the value behind that. -/
theorem word_long {w : String} {name rest : List Char} (hs : s.optionsEnded = false)
    (hw : w.toList = '-' :: '-' :: (name ++ rest)) (hne : name ++ rest ≠ []) (hname : '=' ∉ name)
    (hrest : ∀ c ∈ rest.head?, c = '=') :
    s.word w = s.long name (rest.tail?.map String.ofList) := by
  have hall : ∀ c ∈ name, decide (c ≠ '=') = true := fun c hc =>
    decide_eq_true fun he => hname (he ▸ hc)
  have htake : (name ++ rest).takeWhile (· ≠ '=') = name := by
    rw [List.takeWhile_append_of_pos hall]
    cases rest with
    | nil => simp
    | cons c cs => simp [hrest c rfl]
  have hdrop : (name ++ rest).dropWhile (· ≠ '=') = rest := by
    rw [List.dropWhile_append_of_pos hall]
    cases rest with
    | nil => rfl
    | cons c cs => simp [hrest c rfl]
  have hvalue : valueAfter (name ++ rest) = rest.tail?.map String.ofList := by
    rw [valueAfter, hdrop]
    cases rest <;> rfl
  have hword : s.word w = s.long ((name ++ rest).takeWhile (· ≠ '=')) (valueAfter (name ++ rest)) := by
    unfold word
    rw [hs, if_neg Bool.false_ne_true, hw]
    cases hcs : name ++ rest with
    | nil => exact absurd hcs hne
    | cons c cs => rfl
  rw [hword, htake, hvalue]

theorem word_cluster {w : String} {c : Char} (hs : s.optionsEnded = false)
    (hw : w.toList = '-' :: c :: cs) (hc : c ≠ '-') : s.word w = s.cluster (c :: cs) := by
  unfold word
  rw [hs, if_neg Bool.false_ne_true, hw]
  split <;> simp_all

theorem longOption?_valued (o : ValueOption) :
    longOption? o.longName.toList = some (.valued o) := by
  cases o <;> decide

theorem longOption?_switch (w : Switch) : longOption? w.longName.toList = some (.switch w) := by
  cases w <;> decide

theorem shortOption?_char (l : Letter) : shortOption? l.char = some (.valued l.option) := by
  cases l <;> decide

theorem attached_cons (c : Char) (cs : List Char) :
    attached (c :: cs) = some (String.ofList (if c = '=' then cs else c :: cs)) := by
  by_cases hc : c = '='
  · rw [hc, if_pos rfl]
    rfl
  · rw [if_neg hc]
    unfold attached
    split <;> simp_all

/-- Letters in front that ask for more log output. -/
theorem Acts.letters {k : Scan → Except Fault Scan} (n : Nat)
    (h : Acts (fun s => s.cluster cs >>= k) as) :
    Acts (fun s => s.cluster (List.replicate n 'v' ++ cs) >>= k)
      (List.replicate n .verbose ++ as) := by
  induction n with
  | zero => exact h
  | succ n ih =>
    refine Acts.congr (fun s _ => ?_) (Acts.verbose.andThen ih)
    rw [List.replicate_succ, List.cons_append, cluster]
    exact bind_assoc _ _ _

/-- A word that is done by itself. -/
theorem Acts.word {w : String} (h : ∀ s, s.Ready → s.word w = f s) (hf : Acts f as) :
    Acts (·.words [w]) as := by
  refine Acts.congr (fun s hs => ?_) hf
  rw [words_cons, h s hs]
  cases f s <;> rfl

/-- A word with one dash in front, in which letters that ask for more log
output come first. -/
theorem Acts.clusterWord {w : String} {ws : List String} (n : Nat)
    (hw : w.toList = '-' :: (List.replicate n 'v' ++ cs))
    (hstart : ∃ c cs', List.replicate n 'v' ++ cs = c :: cs' ∧ c ≠ '-')
    (h : Acts (fun s => s.cluster cs >>= (·.words ws)) as) :
    Acts (·.words (w :: ws)) (List.replicate n .verbose ++ as) := by
  refine Acts.congr (fun s hs => ?_) (Acts.letters n h)
  obtain ⟨c, cs', hcs, hc⟩ := hstart
  rw [hcs] at hw ⊢
  rw [words_cons, word_cluster hs.options hw hc]

end Scan

namespace Group

open Scan

theorem longName_facts (o : ValueOption) (rest : List Char) :
    o.longName.toList ++ rest ≠ [] ∧ '=' ∉ o.longName.toList := by
  cases o <;> exact ⟨List.cons_ne_nil _ _, by decide⟩

theorem switchName_facts (w : Switch) (rest : List Char) :
    w.longName.toList ++ rest ≠ [] ∧ '=' ∉ w.longName.toList := by
  cases w <;> exact ⟨List.cons_ne_nil _ _, by decide⟩

theorem start_facts (n : Nat) (l : Letter) (cs : List Char) :
    ∃ c cs', List.replicate n 'v' ++ l.char :: cs = c :: cs' ∧ c ≠ '-' := by
  cases n with
  | zero => exact ⟨l.char, cs, rfl, by cases l <;> decide⟩
  | succ n => exact ⟨'v', List.replicate n 'v' ++ l.char :: cs, rfl, by decide⟩

/-- A group does as its assignments do. -/
theorem acts (g : Group) : Acts (·.words g.words) g.assignments := by
  cases g with
  | operand w =>
    refine Acts.word (fun s hs => ?_) (Acts.operand w.text)
    rw [word_bare hs.options, bare_of_ready hs]
  | switch w =>
    refine Acts.word (fun s hs => ?_) (Acts.switch w)
    have hw : ("--" ++ w.longName).toList = '-' :: '-' :: (w.longName.toList ++ []) := by simp
    obtain ⟨hne, hname⟩ := switchName_facts w []
    rw [word_long hs.options hw hne hname nofun, Scan.long, longOption?_switch]
    rfl
  | verbose =>
    refine Acts.word (fun s hs => ?_) Acts.verbose
    have hw : "--verbose".toList = '-' :: '-' :: ("verbose".toList ++ []) := by simp
    rw [word_long hs.options hw (by decide) (by decide) nofun]
    rfl
  | cluster n =>
    have hnothing : Acts (fun s => s.cluster [] >>= (·.words [])) [] := Acts.nothing
    have hacts := Acts.clusterWord (n + 1) (String.toList_ofList ..) ⟨'v', _, rfl, by decide⟩ hnothing
    simpa [words, assignments] using hacts
  | longJoined o x =>
    refine Acts.word (fun s hs => ?_) (Acts.valued o x)
    have hw : ("--" ++ o.longName ++ "=" ++ x).toList =
        '-' :: '-' :: (o.longName.toList ++ '=' :: x.toList) := by simp
    obtain ⟨hne, hname⟩ := longName_facts o ('=' :: x.toList)
    rw [word_long hs.options hw hne hname (by simp), Scan.long, longOption?_valued]
    simp
  | longApart o x =>
    refine Acts.congr (fun s hs => ?_) (Acts.apart o x)
    have hw : ("--" ++ o.longName).toList = '-' :: '-' :: (o.longName.toList ++ []) := by simp
    obtain ⟨hne, hname⟩ := longName_facts o []
    rw [words, words_cons, word_long hs.options hw hne hname nofun, Scan.long, longOption?_valued]
    rfl
  | shortJoined n l c cs =>
    refine Acts.clusterWord n (String.toList_ofList ..) (start_facts n l _) ?_
    refine Acts.congr (fun s _ => ?_) (Acts.valued l.option _)
    rw [Scan.cluster, shortOption?_char, attached_cons]
    exact bind_pure _
  | shortApart n l x =>
    refine Acts.clusterWord n (String.toList_ofList ..) (start_facts n l _) ?_
    refine Acts.congr (fun s _ => ?_) (Acts.apart l.option x)
    rw [Scan.cluster, shortOption?_char]
    rfl

/-- Groups one after another do as their assignments do. -/
theorem acts_flatMap (gs : List Group) :
    Acts (·.words (gs.flatMap words)) (gs.flatMap assignments) := by
  induction gs with
  | nil => exact Acts.nothing
  | cons g gs ih =>
    refine Acts.congr (fun s _ => ?_) (g.acts.andThen ih)
    rw [List.flatMap_cons, words_append]

/-- **A line of groups is what its assignments are.** It is accepted exactly if
the assignments can be made, and then it asks for what they set. -/
theorem toOption_parse (gs : List Group) :
    (Invocation.parse (gs.flatMap words)).toOption =
      (takeAll (some {}) (gs.flatMap assignments)).bind Scan.invocation? := by
  have hready : Ready {} := ⟨rfl, nofun⟩
  obtain ⟨-, hacts⟩ := acts_flatMap gs {} hready
  have hsettled : settled? {} = some {} := rfl
  have hfinish : ∀ s : Scan, s.finish.toOption = s.settled?.bind Scan.invocation? := by
    intro s
    rw [finish, toOption_bind, settled?]
    refine congrArg _ (funext fun t => ?_)
    cases hinput : t.input with
    | none => simp [invocation?, hinput, throw, throwThe, MonadExceptOf.throw]
    | some input => simp [invocation?, hinput, pure, Except.pure]
  rw [← hsettled, ← hacts, Invocation.parse, toOption_bind, Option.bind_assoc]
  exact congrArg _ (funext hfinish)

end Group
end SchemaTypes.CommandLine
