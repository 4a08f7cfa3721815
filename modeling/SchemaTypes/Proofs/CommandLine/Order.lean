/-
# The order of a command line does not matter

The groups of a command line may be given in any order, for what is asked for
depends on their assignments, and what comes of assignments does not depend on
their order. What a command line asks for goes before what is configured, choice
by choice: a choice it does not make stays as configured. So to apply it twice
is to apply it once, and two of them may be applied in either order unless each
sets a prefix of its own.

Key definitions: `CommandLine.Overrides`.
Key theorems: `CommandLine.Group.parse_perm`, `CommandLine.Group.overrides`,
`Invocation.settings_settings`, `Invocation.settings_comm_iff`,
`Invocation.parse_order`.
-/
import Mathlib.Algebra.Order.Ring.Nat
import SchemaTypes.Proofs.CommandLine.Grouping

namespace SchemaTypes

namespace CommandLine

/-- The settings `o'` are the settings `o` but for the choices made. -/
structure Overrides (as : List Assignment) (o o' : Settings) : Prop where
  namePrefix : ∀ p, .value .namePrefix p ∈ as → o'.namePrefix = p
  namePrefix_kept : (∀ p, .value .namePrefix p ∉ as) → o'.namePrefix = o.namePrefix
  inlineRefs : o'.inlineRefs = if .switch .inlineRefs ∈ as then true else o.inlineRefs
  exported : o'.exported = if .switch .noExport ∈ as then false else o.exported
  typedAliases : o'.typedAliases = if .switch .typedAliases ∈ as then true else o.typedAliases

namespace Group

open Scan

variable {gs gs' : List Group} {v : Invocation}

/-- What a line of groups asks for is what the scan has noted when their
assignments have been made. -/
theorem exists_takeAll (h : Invocation.parse (gs.flatMap words) = .ok v) :
    ∃ t, takeAll (some {}) (gs.flatMap assignments) = some t ∧ t.invocation? = some v := by
  rw [← toOption_eq_some_iff, toOption_parse] at h
  exact Option.bind_eq_some_iff.1 h

/-- Groups may change places. -/
theorem parse_perm (h : Invocation.parse (gs.flatMap words) = .ok v) (hperm : gs'.Perm gs) :
    Invocation.parse (gs'.flatMap words) = .ok v := by
  have hassignments : (gs'.flatMap assignments).Perm (gs.flatMap assignments) :=
    hperm.flatMap_right assignments
  rw [← toOption_eq_some_iff, toOption_parse] at h ⊢
  rw [takeAll_perm hassignments]
  exact h

theorem count_flatMap (gs : List Group) :
    (gs.flatMap assignments).count .verbose = (gs.map verbosity).sum := by
  induction gs with
  | nil => rfl
  | cons g gs ih =>
    rw [List.flatMap_cons, List.count_append, ih, count_assignments, List.map_cons, List.sum_cons]

/-- Every letter and word that asks for more log output counts, up to 255. -/
theorem verbosity_of_parse (h : Invocation.parse (gs.flatMap words) = .ok v) :
    v.verbosity = min (gs.map verbosity).sum 255 := by
  obtain ⟨t, ht, hv⟩ := exists_takeAll h
  obtain ⟨input, -, rfl⟩ := Option.map_eq_some_iff.1 hv
  calc t.verbosity
      _ = min ((gs.flatMap assignments).count .verbose) 255 := verbosity_takeAll ht
      _ = min (gs.map verbosity).sum 255 := by rw [count_flatMap]

/-- The choices of a line of groups go before the configured ones. -/
theorem overrides (h : Invocation.parse (gs.flatMap words) = .ok v) (o : Settings) :
    Overrides (gs.flatMap assignments) o (v.settings o) := by
  obtain ⟨t, ht, hv⟩ := exists_takeAll h
  obtain ⟨input, -, rfl⟩ := Option.map_eq_some_iff.1 hv
  have hinline : t.inlineRefs = decide (.switch .inlineRefs ∈ gs.flatMap assignments) :=
    switch_takeAll ht .inlineRefs
  have hexport : t.noExport = decide (.switch .noExport ∈ gs.flatMap assignments) :=
    switch_takeAll ht .noExport
  have htyped : t.typedAliases = decide (.switch .typedAliases ∈ gs.flatMap assignments) :=
    switch_takeAll ht .typedAliases
  refine ⟨fun p hp => ?_, fun hp => ?_, ?_, ?_, ?_⟩
  · have hprefix : t.namePrefix = some p := (namePrefix_takeAll ht p).2 hp
    simp [Invocation.settings, hprefix]
  · have hprefix : t.namePrefix = none :=
      Option.eq_none_iff_forall_ne_some.2 fun p hset => hp p ((namePrefix_takeAll ht p).1 hset)
    simp [Invocation.settings, hprefix]
  · show (t.inlineRefs || o.inlineRefs) = _
    rw [hinline]
    split <;> simp [*]
  · show (!t.noExport && o.exported) = _
    rw [hexport]
    split <;> simp [*]
  · show (t.typedAliases || o.typedAliases) = _
    rw [htyped]
    split <;> simp [*]

end Group
end CommandLine

namespace Invocation

open CommandLine

/-- Choices made twice are made once. -/
theorem settings_settings (v : Invocation) (o : Settings) :
    v.settings (v.settings o) = v.settings o := by
  unfold settings
  cases v.namePrefix <;> simp

/-- Switches only go one way, so the order matters to the prefix alone. -/
theorem settings_comm_iff (v w : Invocation) :
    (∀ o, v.settings (w.settings o) = w.settings (v.settings o)) ↔
      v.namePrefix = none ∨ w.namePrefix = none ∨ v.namePrefix = w.namePrefix := by
  constructor
  · intro h
    have hprefix := congrArg Settings.namePrefix (h {})
    cases hv : v.namePrefix with
    | none => exact .inl rfl
    | some p =>
      cases hw : w.namePrefix with
      | none => exact .inr (.inl rfl)
      | some p' => simpa [settings, hv, hw] using hprefix
  · intro h o
    have hprefix : v.namePrefix.getD (w.namePrefix.getD o.namePrefix) =
        w.namePrefix.getD (v.namePrefix.getD o.namePrefix) := by
      rcases h with h | h | h
      · rw [h, Option.getD_none, Option.getD_none]
      · rw [h, Option.getD_none, Option.getD_none]
      · rw [h]
    simp [settings, hprefix, Bool.or_left_comm, Bool.and_left_comm]

/-- **The order of a command line does not matter, and what it sets goes before
what is configured.** An accepted command line that does not end its options is
made of groups. Whichever they are: in any order they ask for the same, with the
log output raised as often as they ask for it, and they change the configured
settings in the choices they make. To apply what is asked for once more changes
nothing, and the order in which two are applied matters only to two different
prefixes. -/
theorem parse_order {args : List String} {v : Invocation} (h : parse args = .ok v)
    (hends : "--" ∉ args) :
    (∃ gs : List Group, gs.flatMap Group.words = args) ∧
      (∀ gs : List Group, gs.flatMap Group.words = args →
        (∀ gs' : List Group, gs'.Perm gs → parse (gs'.flatMap Group.words) = .ok v) ∧
          v.verbosity = min (gs.map Group.verbosity).sum 255 ∧
          ∀ o, Overrides (gs.flatMap Group.assignments) o (v.settings o)) ∧
      (∀ o, v.settings (v.settings o) = v.settings o) ∧
      ∀ args' w, parse args' = .ok w →
        ((∀ o, v.settings (w.settings o) = w.settings (v.settings o)) ↔
          v.namePrefix = none ∨ w.namePrefix = none ∨ v.namePrefix = w.namePrefix) := by
  obtain ⟨u, hu, hfinish⟩ := Except.exists_of_bind_eq_ok h
  obtain ⟨t, ht, -⟩ := Except.exists_of_bind_eq_ok hfinish
  have hready : Scan.Ready {} := ⟨rfl, nofun⟩
  refine ⟨Scan.exists_groups hready hu ht hends, fun gs hgs => ?_, v.settings_settings,
    fun args' w _ => v.settings_comm_iff w⟩
  subst hgs
  exact ⟨fun gs' hperm => Group.parse_perm h hperm, Group.verbosity_of_parse h, Group.overrides h⟩

/-- A line with four requests for log output, two of them in one word with the
format, says the same backwards, and its prefix leaves room for the choices of
another line. -/
theorem parse_order_backwards :
    ∃ v w : Invocation, parse ["-vvfjson", "api", "--prefix=T", "--no-export", "-vv"] = .ok v ∧
      "--" ∉ ["-vvfjson", "api", "--prefix=T", "--no-export", "-vv"] ∧
      parse ["-vv", "--no-export", "--prefix=T", "api", "-vvfjson"] = .ok v ∧ v.verbosity = 4 ∧
      parse ["--inline-ref", "api"] = .ok w ∧
      ∀ o, v.settings (w.settings o) = w.settings (v.settings o) := by
  have h : parse ["-vvfjson", "api", "--prefix=T", "--no-export", "-vv"] =
      .ok { input := "api", format := .json, namePrefix := "T", noExport := true, verbosity := 4 } := by
    decide +kernel
  have hends : "--" ∉ ["-vvfjson", "api", "--prefix=T", "--no-export", "-vv"] := by decide
  have hother : parse ["--inline-ref", "api"] = .ok { input := "api", inlineRefs := true } := by
    decide +kernel
  let gs : List Group :=
    [.shortJoined 2 .f 'j' ['s', 'o', 'n'], .operand ⟨"api", .inr (by decide)⟩,
      .longJoined .namePrefix "T", .switch .noExport, .cluster 1]
  have hgs : gs.flatMap Group.words = ["-vvfjson", "api", "--prefix=T", "--no-export", "-vv"] := by
    decide +kernel
  have hbackwards : gs.reverse.flatMap Group.words =
      ["-vv", "--no-export", "--prefix=T", "api", "-vvfjson"] := by
    decide +kernel
  obtain ⟨-, horder, -, hcomm⟩ := parse_order h hends
  obtain ⟨hperm, hverbosity, -⟩ := horder gs hgs
  refine ⟨_, _, h, hends, ?_, hverbosity, hother, (hcomm _ _ hother).2 (.inr (.inl rfl))⟩
  rw [← hbackwards]
  exact hperm gs.reverse gs.reverse_perm

end Invocation
end SchemaTypes
