/-
# A run is all or nothing

Only the delivery changes a file or prints, and it comes last. So a run in which
the configuration, the input or the document in it fails leaves all files as
they were and prints nothing; and a run in which none fails writes the output to
one place and leaves all else alone, also if that place is the one that was read
before. The settings of that output are the configured ones but for the choices
that the command line makes.

For the same reason what was in the output file has no say in a run that does
not read it: two worlds that differ there alone make the same of it. Only the
words of a failure may differ, and only if the file is in one of the worlds and
not in the other, for then a path through it fails in two ways.

Key definitions: `Command.Delivered`, `World.SameBut`, `World.Avoids`.
Key theorems: `Command.delivered_deliver`, `World.prepared_agree`,
`World.overrides_of_prepared`, `World.run_allOrNothing`.
-/
import SchemaTypes.Proofs.Command.Stages
import SchemaTypes.Proofs.CommandLine.Order
import SchemaTypes.Proofs.FileTree

namespace SchemaTypes

namespace Command

/-- The text has gone to its one destination: it has been printed or it is what
is in the output file now, or that could not be written and nothing has
changed. -/
structure Delivered (v : Invocation) (text : String) (w : World) (r : Except Fault Unit)
    (w' : World) : Prop where
  printed : v.output = none →
    r = .ok () ∧ w'.printed = w.printed ++ text ∧ w'.tree = w.tree
  written : ∀ path tree, v.output = some path → w.tree.write path text = .ok tree →
    r = .ok () ∧ w'.printed = w.printed ∧ ∃ p, FileTree.Written path text w.tree w'.tree p
  notWritten : ∀ path e, v.output = some path → w.tree.write path text = .error e →
    r = .error (.write path e) ∧ w'.printed = w.printed ∧ w'.tree = w.tree

variable {v : Invocation} {text path : String} {w : World}

theorem deliver_print (h : v.output = none) :
    (deliver World.host v text).run.run w = (.ok (), { w with printed := w.printed ++ text }) := by
  unfold deliver
  rw [h]
  rfl

theorem deliver_write {tree : FileTree} (h : v.output = some path)
    (htree : w.tree.write path text = .ok tree) :
    (deliver World.host v text).run.run w =
      (.ok (), { w with tree, notes := w.notes ++ ["Generated " ++ path] }) := by
  have hwrite : w.write path text = (.ok (), { w with tree }) := by rw [World.write, htree]
  unfold deliver
  rw [h]
  dsimp only
  rw [run_bind_ok (write_host path text w), hwrite]
  rfl

theorem deliver_fail {e : FileFault} (h : v.output = some path)
    (htree : w.tree.write path text = .error e) :
    (deliver World.host v text).run.run w = (.error (.write path e), w) := by
  have hwrite : w.write path text = (.error e, w) := by rw [World.write, htree]
  unfold deliver
  rw [h]
  dsimp only
  rw [run_bind_ok (write_host path text w), hwrite]
  rfl

/-- Whatever the destination, what is delivered goes there and nowhere else. -/
theorem delivered_deliver (v : Invocation) (text : String) (w : World) :
    Delivered v text w ((deliver World.host v text).run.run w).1
      ((deliver World.host v text).run.run w).2 := by
  refine ⟨fun h => ?_, fun path tree h htree => ?_, fun path e h htree => ?_⟩
  · rw [deliver_print h]
    exact ⟨rfl, rfl, rfl⟩
  · rw [deliver_write h htree]
    exact ⟨rfl, rfl, FileTree.written_of_write htree⟩
  · rw [deliver_fail h htree]
    exact ⟨rfl, rfl, rfl⟩

end Command

namespace World

open Command (Fault Delivered usualConfig inputSign output)
open CommandLine (Group Overrides)

/-- The worlds differ in the file at the place and in nothing else. -/
structure SameBut (p : Place) (w u : World) : Prop where
  tree : w.tree.SameBut p u.tree
  input : w.input = u.input
  printed : w.printed = u.printed
  notes : w.notes = u.notes
  logged : w.logged = u.logged

/-- Neither the input nor the configuration is the file at the place. -/
structure Avoids (w : World) (v : Invocation) (p : Place) : Prop where
  input : v.input ≠ inputSign → ¬ w.tree.LeadsTo v.input p
  config : ¬ w.tree.LeadsTo (v.config.getD usualConfig) p

variable {P : Prop} {w u w' u' : World} {v : Invocation} {p : Place} {r s : Except Fault Unit}
  {filter : Log.Filter}

/-! ### The stages on two worlds -/

section

-- The reasons of failures are compared only if the file at the place is in both
-- worlds or in neither.
variable (h : w.SameBut p u) (hP : P → (w.tree.contents p).isSome = (u.tree.contents p).isSome)
include h hP

theorem configAt_agree {path : String} (hpath : ¬ w.tree.LeadsTo path p) :
    Agree P (w.configAt path) (u.configAt path) :=
  Agree.bind ((FileTree.read_agree h.tree hP hpath).mapError _) fun _ _ => .refl _

theorem configured_agree (havoids : w.Avoids v p) : Agree P (w.configured v) (u.configured v) := by
  have hconfig := havoids.config
  unfold configured
  cases hv : v.config with
  | some path =>
    rw [hv, Option.getD_some] at hconfig
    exact configAt_agree h hP hconfig
  | none =>
    rw [hv, Option.getD_none] at hconfig
    dsimp only
    rw [FileTree.isFile_of_sameBut h.tree hconfig]
    split
    · exact configAt_agree h hP hconfig
    · exact .refl _

theorem inputText_agree (havoids : w.Avoids v p) : Agree P (w.inputText v) (u.inputText v) := by
  unfold inputText
  by_cases hinput : v.input = inputSign
  · rw [if_pos hinput, if_pos hinput, h.input]
    exact .refl _
  · rw [if_neg hinput, if_neg hinput]
    exact (FileTree.read_agree h.tree hP (havoids.input hinput)).mapError _

/-- A file that is neither the input nor the configuration has no say in what is
written. -/
theorem prepared_agree (havoids : w.Avoids v p) : Agree P (w.prepared v) (u.prepared v) := by
  refine Agree.bind (configured_agree h hP havoids) fun o _ => ?_
  exact Agree.bind (inputText_agree h hP havoids) fun text _ => .refl _

end

theorem configEvents_of_sameBut (h : w.SameBut p u) (havoids : w.Avoids v p) :
    w.configEvents v = u.configEvents v := by
  have hconfig := havoids.config
  unfold configEvents
  cases hv : v.config with
  | some path => simp
  | none =>
    rw [hv, Option.getD_none] at hconfig
    rw [FileTree.isFile_of_sameBut h.tree hconfig]

theorem SameBut.reporting (h : w.SameBut p u) (filter : Log.Filter) (es : List Log.Event) :
    (w.reporting filter es).SameBut p (u.reporting filter es) :=
  ⟨h.tree, h.input, h.printed, h.notes, by rw [World.reporting, World.reporting, h.logged]⟩

/-- To deliver the same into the file in which two worlds differ makes the worlds
the same, unless that fails for both. -/
theorem deliver_of_sameBut {path : String} (h : w.SameBut p u) (hpath : v.output = some path)
    (hp : w.tree.locate path = .ok p) (text : String) :
    ∃ r w' u', (Command.deliver host v text).run.run w = (r, w') ∧
      (Command.deliver host v text).run.run u = (r, u') ∧ w'.SameBut p u' ∧
      (r = .ok () → w'.tree.contents p = u'.tree.contents p) := by
  rcases FileTree.write_agree h.tree hp text with ⟨e, hw, hu⟩ | ⟨t, t', hw, hu, hrest, hfile⟩
  · refine ⟨_, _, _, Command.deliver_fail hpath hw, Command.deliver_fail hpath hu, h, ?_⟩
    intro hr
    cases hr
  · refine ⟨_, _, _, Command.deliver_write hpath hw, Command.deliver_write hpath hu, ?_, ?_⟩
    · exact ⟨hrest, h.input, h.printed, by rw [h.notes], h.logged⟩
    · exact fun _ => hfile

/-! ### Runs -/

/-- What is written comes from the input, and its settings are the configured
ones but for the choices of the command line. -/
theorem overrides_of_prepared {c : Catalog} {o : Settings} (h : w.prepared v = .ok (c, o)) :
    ∃ configured text, w.configured v = .ok configured ∧ w.inputText v = .ok text ∧
      Document.read text v.format = .ok c ∧ o = v.settings configured ∧
      ∀ gs : List Group, Invocation.parse (gs.flatMap Group.words) = .ok v →
        Overrides (gs.flatMap Group.assignments) configured o := by
  obtain ⟨configured, text, hconfigured, htext, hread, rfl⟩ := prepared_eq_ok h
  exact ⟨configured, text, hconfigured, htext, hread, rfl, fun gs hgs => Group.overrides hgs _⟩

/-- **A run is all or nothing.** If the configuration, the input or the document
in it fails, then so does the run, no file has changed and nothing has been
printed. If none does, the output for the catalog in the input goes to its one
destination, under the configured settings but for the choices of the command
line. And unless the output file is the input or the configuration, what was in
it, or whether it was there, has no say in what is made of the world. -/
theorem run_allOrNothing (h : w.run filter v = (r, w')) :
    (∀ e, w.prepared v = .error e → r = .error e ∧ w'.printed = w.printed ∧ w'.tree = w.tree) ∧
      (∀ c o, w.prepared v = .ok (c, o) →
        Delivered v (output (c.moduleText o)) w r w' ∧
          ∃ configured text, w.configured v = .ok configured ∧ w.inputText v = .ok text ∧
            Document.read text v.format = .ok c ∧ o = v.settings configured ∧
            ∀ gs : List Group, Invocation.parse (gs.flatMap Group.words) = .ok v →
              Overrides (gs.flatMap Group.assignments) configured o) ∧
      ∀ path p, v.output = some path → w.tree.locate path = .ok p → w.Avoids v p →
        ∀ u s u', w.SameBut p u → u.run filter v = (s, u') →
          r.toOption = s.toOption ∧
            ((w.tree.contents p).isSome = (u.tree.contents p).isSome → r = s) ∧
            w'.SameBut p u' ∧ (r = .ok () → w'.tree.contents p = u'.tree.contents p) := by
  refine ⟨fun e he => ?_, fun c o hco => ?_, fun path p hpath hp havoids u s u' hsame hu => ?_⟩
  · rw [run_of_not_prepared filter he] at h
    cases h
    exact ⟨rfl, rfl, rfl⟩
  · have hdelivered := Command.delivered_deliver v (output (c.moduleText o))
      (w.reporting filter (w.configEvents v ++ .generating c.size :: c.moduleLog o))
    rw [run_of_prepared filter hco] at h
    rw [h] at hdelivered
    exact ⟨⟨hdelivered.printed, hdelivered.written, hdelivered.notWritten⟩, overrides_of_prepared hco⟩
  · have hagree := prepared_agree hsame id havoids
    have hevents := configEvents_of_sameBut hsame havoids
    rcases hagree.ok_or_errors with ⟨⟨c, o⟩, hw, hu'⟩ | ⟨e, e', hw, hu', he⟩
    · rw [run_of_prepared filter hw, hevents] at h
      rw [run_of_prepared filter hu'] at hu
      have hreported := hsame.reporting filter
        (u.configEvents v ++ .generating c.size :: c.moduleLog o)
      obtain ⟨r', w'', u'', hw, hu', hrest, hfile⟩ :=
        deliver_of_sameBut hreported hpath hp (output (c.moduleText o))
      rw [hw] at h
      rw [hu'] at hu
      cases h
      cases hu
      exact ⟨rfl, fun _ => rfl, hrest, hfile⟩
    · rw [run_of_not_prepared filter hw, hevents] at h
      rw [run_of_not_prepared filter hu'] at hu
      cases h
      cases hu
      refine ⟨rfl, fun hthere => by rw [he hthere], hsame.reporting filter _, ?_⟩
      intro hr
      cases hr

/-- A world with one document. -/
def oneDocument : World where
  tree := { files := [("api.json", "\x7b\"A\":\x7b\"type\":\"string\"\x7d\x7d".toUTF8)] }

/-- The world with an output file from before. -/
def oldOutput : World :=
  let old := "export type A = string;\n".toUTF8
  { oneDocument with tree := { files := Entries.put "api.ts" old oneDocument.tree.files } }

/-- A run makes the output file from before what it makes without it; and it may
put the output in the place of the document, under another path. -/
theorem run_oneDocument :
    (∃ w' u', oneDocument.run [] { input := "api.json", output := "api.ts" } = (.ok (), w') ∧
      oldOutput.run [] { input := "api.json", output := "api.ts" } = (.ok (), u') ∧
      w'.tree.contents ["api.ts"] = some "export type IA = any;\n".toUTF8 ∧
      u'.tree.contents ["api.ts"] = some "export type IA = any;\n".toUTF8) ∧
    ∃ w', oneDocument.run [] { input := "api.json", output := "./api.json" } = (.ok (), w') ∧
      w'.tree.contents ["api.json"] = some "export type IA = any;\n".toUTF8 := by
  have hprepared : ∀ path, ∃ c o, oneDocument.prepared { input := "api.json", output := path } =
      .ok (c, o) ∧ output (c.moduleText o) = "export type IA = any;\n" := by
    intro path
    have htext : ((oneDocument.prepared { input := "api.json" }).map
        fun x => output (x.1.moduleText x.2)).toOption = some "export type IA = any;\n" := by
      decide +kernel
    obtain ⟨⟨c, o⟩, hco, htext⟩ := Except.exists_of_map_eq_ok (toOption_eq_some_iff.1 htext)
    exact ⟨c, o, hco, htext⟩
  have hrun : ∀ path p tree, oneDocument.tree.locate path = .ok p →
      oneDocument.tree.write path "export type IA = any;\n" = .ok tree →
      ∃ w', oneDocument.run [] { input := "api.json", output := path } = (.ok (), w') ∧
        w'.tree.contents p = some "export type IA = any;\n".toUTF8 := by
    intro path p tree hp htree
    obtain ⟨c, o, hco, htext⟩ := hprepared path
    obtain ⟨⟨r, w'⟩, hw⟩ : ∃ x, oneDocument.run [] { input := "api.json", output := path } = x :=
      ⟨_, rfl⟩
    obtain ⟨-, hdelivered, -⟩ := run_allOrNothing hw
    have hwritten := (hdelivered c o hco).1.written path tree rfl (htext ▸ htree)
    rw [htext] at hwritten
    obtain ⟨rfl, -, q, hplace, hcontents, -⟩ := hwritten
    rw [hp] at hplace
    cases hplace
    exact ⟨w', hw, hcontents⟩
  obtain ⟨w', hw, hcontents⟩ := hrun "api.ts" ["api.ts"] _ rfl rfl
  obtain ⟨-, -, hold⟩ := run_allOrNothing hw
  have havoids : oneDocument.Avoids { input := "api.json", output := "api.ts" } ["api.ts"] := by
    constructor
    · rintro - ⟨q, hq, htext⟩
      cases hq
      exact absurd htext (by decide)
    · rintro ⟨q, hq, htext⟩
      cases hq
      exact absurd htext (by decide)
  have hsame : oneDocument.SameBut ["api.ts"] oldOutput :=
    ⟨⟨rfl, fun q hq => (Entries.find?_put_of_ne hq).symm⟩, rfl, rfl, rfl, rfl⟩
  obtain ⟨⟨s, u'⟩, hu⟩ : ∃ x, oldOutput.run [] { input := "api.json", output := "api.ts" } = x :=
    ⟨_, rfl⟩
  obtain ⟨hr, -, -, hfile⟩ := hold "api.ts" ["api.ts"] rfl rfl havoids oldOutput s u' hsame hu
  obtain rfl : s = .ok () := toOption_eq_some_iff.1 hr.symm
  refine ⟨⟨w', u', hw, hu, hcontents, ?_⟩, hrun "./api.json" ["api.json"] _ rfl rfl⟩
  rw [← hfile rfl]
  exact hcontents

end World
end SchemaTypes
