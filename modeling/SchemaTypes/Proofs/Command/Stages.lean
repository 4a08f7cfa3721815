/-
# The stages of a run

On a world, a run is what its stages give: the configured settings, the text of
the input and the catalog in it. Each stage is a function of the files and of the
standard input, and all that it does to the world is to add lines to the log. So
nothing but the log has changed when the output is delivered, and nothing else
changes at all if a stage before that fails.

Key definitions: `World.configured`, `World.inputText`, `World.prepared`,
`World.reporting`, `World.run`.
Key theorems: `Command.settings_host`, `Command.inputText_host`,
`World.run_of_not_prepared`, `World.run_of_prepared`.
-/
import SchemaTypes.Command.Run
import SchemaTypes.Proofs.Except

namespace SchemaTypes

namespace World

open Command (Fault usualConfig inputSign)

/-- The settings in the configuration file at a path. -/
def configAt (w : World) (path : String) : Except Fault Settings := do
  let text ← (w.tree.read path).mapError (.readConfig path)
  (Configuration.read text).mapError (.parseConfig path)

/-- The configured settings. -/
def configured (w : World) (v : Invocation) : Except Fault Settings :=
  match v.config with
  | some path => w.configAt path
  | none => if w.tree.isFile usualConfig then w.configAt usualConfig else .ok {}

/-- The text of the input. -/
def inputText (w : World) (v : Invocation) : Except Fault String :=
  if v.input = inputSign then (textOfBytes w.input).mapError .readInput
  else (w.tree.read v.input).mapError (.readFile v.input)

/-- The catalog that is to be written, and the settings it is written under. -/
def prepared (w : World) (v : Invocation) : Except Fault (Catalog × Settings) := do
  let o ← w.configured v
  let text ← w.inputText v
  let c ← (Document.read text v.format).mapError (.parse v.input)
  pure (c, v.settings o)

/-- What is reported of the configuration. -/
def configEvents (w : World) (v : Invocation) : List Log.Event :=
  if v.config = none ∧ w.tree.isFile usualConfig = true then [.usingConfig usualConfig] else []

/-- The world when events have been reported. -/
def reporting (w : World) (filter : Log.Filter) (es : List Log.Event) : World :=
  { w with logged := w.logged ++ (es.filter filter.enables).map (·.line) }

/-- A run of the command on a world. -/
def run (w : World) (filter : Log.Filter) (v : Invocation) : Except Fault Unit × World :=
  (Command.run host filter v).run.run w

theorem reporting_nil (w : World) (filter : Log.Filter) : w.reporting filter [] = w := by
  simp [reporting]

theorem reporting_append (w : World) (filter : Log.Filter) (es es' : List Log.Event) :
    w.reporting filter (es ++ es') = (w.reporting filter es).reporting filter es' := by
  simp [reporting]

theorem reporting_cons (w : World) (filter : Log.Filter) (e : Log.Event) (es : List Log.Event) :
    w.reporting filter (e :: es) = (w.reporting filter [e]).reporting filter es :=
  reporting_append w filter [e] es

end World

namespace Command

/-! ### One step after the other -/

section

variable {α β : Type} {x : ExceptT Fault (StateM World) α} {f : α → ExceptT Fault (StateM World) β}
  {w w' : World}

theorem run_bind_ok {a : α} (h : x.run.run w = (.ok a, w')) :
    (x >>= f).run.run w = (f a).run.run w' := by
  rw [ExceptT.run_bind, StateT.run_bind, h]
  rfl

theorem run_bind_error {e : Fault} (h : x.run.run w = (.error e, w')) :
    (x >>= f).run.run w = (.error e, w') := by
  rw [ExceptT.run_bind, StateT.run_bind, h]
  rfl

end

/-! ### What the host does -/

theorem isFile_host (path : String) (w : World) :
    (liftM (World.host.isFile path) : ExceptT Fault (StateM World) Bool).run.run w =
      (.ok (w.tree.isFile path), w) := rfl

theorem read_host (path : String) (w : World) :
    (liftM (World.host.read path) : ExceptT Fault (StateM World) (Except FileFault String)).run.run w =
      (.ok (w.tree.read path), w) := rfl

theorem readInput_host (w : World) :
    (liftM World.host.readInput : ExceptT Fault (StateM World) (Except FileFault String)).run.run w =
      (.ok (textOfBytes w.input), w) := rfl

theorem write_host (path text : String) (w : World) :
    (liftM (World.host.write path text) :
        ExceptT Fault (StateM World) (Except FileFault Unit)).run.run w =
      (.ok (w.write path text).1, (w.write path text).2) := rfl

/-! ### What a stage does -/

theorem report_host (filter : Log.Filter) (e : Log.Event) (w : World) :
    (report World.host filter e).run.run w = (.ok (), w.reporting filter [e]) := by
  unfold report
  cases henabled : filter.enables e with
  | true =>
    have hlogged : w.reporting filter [e] = { w with logged := w.logged ++ [e.line] } := by
      simp [World.reporting, henabled]
    rw [if_pos rfl, hlogged]
    rfl
  | false =>
    have hlogged : w.reporting filter [e] = w := by simp [World.reporting, henabled]
    rw [if_neg Bool.false_ne_true, hlogged]
    rfl

theorem reports_host (filter : Log.Filter) (es : List Log.Event) (w : World) :
    (forIn es PUnit.unit fun e _ => do
        report World.host filter e
        pure (.yield PUnit.unit) : ExceptT Fault (StateM World) PUnit).run.run w =
      (.ok (), w.reporting filter es) := by
  induction es generalizing w with
  | nil =>
    rw [World.reporting_nil]
    rfl
  | cons e es ih =>
    have hreport := report_host filter e w
    rw [List.forIn_cons, run_bind_ok ((run_bind_ok hreport).trans rfl),
      World.reporting_cons w filter e es]
    exact ih _

theorem loadSettings_host (path : String) (w : World) :
    (loadSettings World.host path).run.run w = (w.configAt path, w) := by
  unfold loadSettings
  rw [run_bind_ok (read_host path w), World.configAt]
  cases w.tree.read path with
  | error e => rfl
  | ok text =>
    dsimp only [Except.mapError, Except.ok_bind]
    cases Configuration.read text <;> rfl

/-- The settings are loaded as they are configured, and a configuration that was
not asked for is reported. -/
theorem settings_host (filter : Log.Filter) (v : Invocation) (w : World) :
    (settings World.host filter v).run.run w =
      (w.configured v, w.reporting filter (w.configEvents v)) := by
  unfold settings World.configured World.configEvents
  cases hconfig : v.config with
  | some path =>
    simp only [reduceCtorEq, false_and, if_false, World.reporting_nil]
    exact loadSettings_host path w
  | none =>
    dsimp only
    rw [run_bind_ok (isFile_host usualConfig w)]
    cases hfile : w.tree.isFile usualConfig with
    | true =>
      rw [if_pos rfl, if_pos rfl, if_pos ⟨rfl, rfl⟩, run_bind_ok (report_host filter _ w)]
      exact loadSettings_host usualConfig _
    | false =>
      simp only [Bool.false_eq_true, and_false, if_false, World.reporting_nil]
      rfl

theorem inputText_host (v : Invocation) (w : World) :
    (inputText World.host v).run.run w = (w.inputText v, w) := by
  unfold inputText World.inputText
  by_cases hinput : v.input = inputSign
  · rw [if_pos hinput, if_pos hinput, run_bind_ok (readInput_host w)]
    cases textOfBytes w.input <;> rfl
  · rw [if_neg hinput, if_neg hinput, run_bind_ok (read_host v.input w)]
    cases w.tree.read v.input <;> rfl

end Command

namespace World

open Command

variable {w : World} {v : Invocation} {c : Catalog} {o : Settings}

/-- What a stage before the delivery gives does not depend on what has been
reported. -/
theorem inputText_reporting (filter : Log.Filter) (es : List Log.Event) :
    (w.reporting filter es).inputText v = w.inputText v := rfl

/-- The first stage that fails is what fails. -/
theorem cases_of_prepared_eq_error {e : Fault} (h : w.prepared v = .error e) :
    w.configured v = .error e ∨ (∃ o, w.configured v = .ok o ∧ w.inputText v = .error e) ∨
      ∃ o text fault, w.configured v = .ok o ∧ w.inputText v = .ok text ∧
        Document.read text v.format = .error fault ∧ e = .parse v.input fault := by
  unfold prepared at h
  cases hconfigured : w.configured v with
  | error e' =>
    rw [hconfigured] at h
    cases h
    exact .inl rfl
  | ok o =>
    rw [hconfigured, Except.ok_bind] at h
    cases htext : w.inputText v with
    | error e' =>
      rw [htext] at h
      cases h
      exact .inr (.inl ⟨o, rfl, rfl⟩)
    | ok text =>
      rw [htext, Except.ok_bind] at h
      cases hread : Document.read text v.format with
      | error fault =>
        rw [hread] at h
        cases h
        exact .inr (.inr ⟨o, text, fault, rfl, rfl, hread, rfl⟩)
      | ok c =>
        rw [hread] at h
        cases h

theorem prepared_eq_ok (h : w.prepared v = .ok (c, o)) :
    ∃ configured text, w.configured v = .ok configured ∧ w.inputText v = .ok text ∧
      Document.read text v.format = .ok c ∧ o = v.settings configured := by
  obtain ⟨configured, hconfigured, h⟩ := Except.exists_of_bind_eq_ok h
  obtain ⟨text, htext, h⟩ := Except.exists_of_bind_eq_ok h
  obtain ⟨c', hread, h⟩ := Except.exists_of_bind_eq_ok h
  cases h
  cases hdocument : Document.read text v.format with
  | error e =>
    rw [hdocument] at hread
    cases hread
  | ok c' =>
    rw [hdocument] at hread
    cases hread
    exact ⟨configured, text, hconfigured, htext, hdocument, rfl⟩

/-- If a stage before the delivery fails, nothing is done but to report what was
found of the configuration. -/
theorem run_of_not_prepared {e : Fault} (filter : Log.Filter) (h : w.prepared v = .error e) :
    w.run filter v = (.error e, w.reporting filter (w.configEvents v)) := by
  have hsettings := settings_host filter v w
  have hinput := inputText_host v (w.reporting filter (w.configEvents v))
  rw [inputText_reporting] at hinput
  unfold run Command.run
  rcases cases_of_prepared_eq_error h with hconfigured | ⟨o, hconfigured, htext⟩ |
    ⟨o, text, fault, hconfigured, htext, hread, rfl⟩
  · rw [hconfigured] at hsettings
    exact run_bind_error hsettings
  · rw [hconfigured] at hsettings
    rw [htext] at hinput
    rw [run_bind_ok hsettings]
    exact run_bind_error hinput
  · rw [hconfigured] at hsettings
    rw [htext] at hinput
    rw [run_bind_ok hsettings, run_bind_ok hinput, hread]
    rfl

/-- If the stages before the delivery succeed, their events are reported and
the module text is delivered. -/
theorem run_of_prepared (filter : Log.Filter) (h : w.prepared v = .ok (c, o)) :
    w.run filter v =
      (deliver host v (output (c.moduleText o))).run.run
        (w.reporting filter (w.configEvents v ++ .generating c.size :: c.moduleLog o)) := by
  have hsettings := settings_host filter v w
  have hinput := inputText_host v (w.reporting filter (w.configEvents v))
  obtain ⟨configured, text, hconfigured, htext, hread, rfl⟩ := prepared_eq_ok h
  rw [hconfigured] at hsettings
  rw [inputText_reporting, htext] at hinput
  unfold run Command.run
  rw [run_bind_ok hsettings, run_bind_ok hinput, hread]
  dsimp only
  rw [run_bind_ok (report_host filter _ _), run_bind_ok (reports_host filter _ _), reporting_append,
    reporting_cons _ _ _ (c.moduleLog _)]

end World
end SchemaTypes
