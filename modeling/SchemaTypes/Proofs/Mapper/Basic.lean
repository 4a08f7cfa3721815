/-
# A mapper with a stack of its own

The same typing as work on one mutable state: a mapper pushes a name before
it expands it and pops it afterwards, and appends what it has to report to
its log. Nothing bounds how deep the calls nest, so the work takes a number
of nested calls it may make and gives no answer when they run out. For the
record a mapper also keeps the stack it had at each call.

Key definitions: `Mapper`, `Mapper.term`, `Mapper.fields`, `Mapper.Request`,
`Mapper.serve`.
Key theorems: `Mapper.termWith_eq_rule`.
-/
import SchemaTypes.Proofs.Typing.References

namespace SchemaTypes

/-- A mapper at work: the names whose schemas it is inside of, what it has
reported, and the names it was inside of at each call. -/
structure Mapper where
  expanding : List String
  log : List ReferenceEvent := []
  calls : List (List String) := []

namespace Mapper

/-- Work of a mapper that may run out of nested calls. -/
abbrev Work (α : Type) := StateT Mapper Option α

/-- Notes a call. -/
def enter : Work Unit :=
  modify fun m => { m with calls := m.calls ++ [m.expanding] }

/-- Reports an event. -/
def report (e : ReferenceEvent) : Work Unit :=
  modify fun m => { m with log := m.log ++ [e] }

/-- Goes inside of the schema of a name. -/
def push (name : String) : Work Unit :=
  modify fun m => { m with expanding := m.expanding ++ [name] }

/-- Leaves the schema of the last name. -/
def pop : Work Unit :=
  modify fun m => { m with expanding := m.expanding.dropLast }

section

variable (c : Catalog) (o : Settings) (call : Option Schema → Work TypeTerm)

/-- The type of a reference, by calls of `call`. -/
def referenceWith (r : String) : Work TypeTerm := do
  if o.inlineRefs then
    if Reference.target r ∈ (← get).expanding then
      report (.cycle r)
      return Typing.named o r
    else
      match Reference.resolve? r c with
      | none =>
        report (.unknownExpanded r)
        return .object []
      | some s =>
        push (Reference.target r)
        let t ← call (some s)
        pop
        return t
  else if c.contains (Reference.target r) then
    return Typing.named o r
  else
    report (.unknown r)
    return Typing.named o r

/-- The fields of a schema, one for each property in order. -/
def fieldsWith (s : Schema) : Work (List Field) := do
  enter
  match s.properties with
  | none => return []
  | some ps => ps.mapM fun p => do
    let t ← call (some p.2)
    return ⟨Identifier.propertyKey p.1, !s.requires p.1, t⟩

/-- The object type of the properties of a schema. -/
def objectWith (s : Schema) : Work TypeTerm := do
  enter
  return .object (← fieldsWith call s)

/-- The type of a schema by its kind alone. -/
def kindTermWith (s : Schema) : Work TypeTerm :=
  match s.kind with
  | some .integer | some .number => pure .number
  | some .string => pure .string
  | some .boolean => pure .boolean
  | some .array =>
    match s.items with
    | some item => return .array (← call (some item))
    | none => pure (.array .any)
  | some .object => if s.properties.isNone then pure .record else objectWith call s
  | some .unknown | none => if s.properties.isSome then objectWith call s else pure .any

/-- The type of a schema, by calls of `call` for its parts. -/
def termWith : Option Schema → Work TypeTerm
  | none => pure .any
  | some s =>
    match s.reference with
    | some r => referenceWith c o call r
    | none =>
      match s.stringEnumValues with
      | some vs => pure (.union (Schema.literals vs))
      | none =>
        match s.unionMembers with
        | some ms => return .union (← ms.mapM fun m => call (some m))
        | none =>
          match s.intersectionMembers with
          | some ms => return .intersection (← ms.mapM fun m => call (some m))
          | none => kindTermWith call s

/-- The type of a schema by at most so many nested calls. -/
def term : Nat → Option Schema → Work TypeTerm
  | 0, _ => fun _ => none
  | n + 1, s => do
    enter
    termWith c o (term n) s

/-- What a mapper can be asked for. -/
inductive Request where
  | term (s : Option Schema)
  | object (s : Schema)
  | fields (s : Schema)
  | name (reference : String)

/-- What a mapper answers. -/
inductive Answer where
  | term (t : TypeTerm)
  | fields (fs : List Field)

/-- Answers a request by at most so many nested calls. -/
def serve (n : Nat) : Request → Work Answer
  | .term s => return .term (← term c o n s)
  | .object s => return .term (← objectWith (term c o n) s)
  | .fields s => return .fields (← fieldsWith (term c o n) s)
  | .name r => return .term (Typing.named o r)

/-- The answer to a request inside of the expansion of the names on a
stack. -/
def Request.answer (stack : List String) : Request → Logged Answer
  | .term s => (Typing.term c o stack s).map .term
  | .object s => (Typing.object c o stack s).map .term
  | .fields s => (Typing.fields c o stack s).map .fields
  | .name r => ⟨.term (Typing.named o r), []⟩

/-! ### A mapper follows the rule of a schema -/

/-- The type that a rule gives, by calls of `call` for its parts. -/
def ruleTermWith (s : Schema) : Schema.Rule → Work TypeTerm
  | .reference r => referenceWith c o call r
  | .literals vs => pure (.union (Schema.literals vs))
  | .union ms => return .union (← ms.mapM fun m => call (some m))
  | .intersection ms => return .intersection (← ms.mapM fun m => call (some m))
  | .array item => return .array (← call (some item))
  | .object _ => objectWith call s
  | .plain p => pure p.term

theorem kindTermWith_eq_kindRule (s : Schema) :
    kindTermWith call s = ruleTermWith c o call s s.kindRule := by
  unfold kindTermWith Schema.kindRule
  rcases s.kind with _ | kind
  · cases hp : s.properties <;> simp [ruleTermWith, Schema.Plain.term]
  · cases kind <;> cases hp : s.properties <;> cases ht : s.items <;>
      simp [ruleTermWith, Schema.Plain.term]

/-- A mapper types a schema by the schema's rule. -/
theorem termWith_eq_rule (s : Schema) :
    termWith c o call (some s) = ruleTermWith c o call s s.rule := by
  rw [termWith, Schema.rule]
  cases s.reference with
  | some r => rfl
  | none =>
    cases s.stringEnumValues with
    | some vs => rfl
    | none =>
      cases s.unionMembers with
      | some ms => rfl
      | none =>
        cases s.intersectionMembers with
        | some ms => rfl
        | none => exact kindTermWith_eq_kindRule c o call s

end

end Mapper
end SchemaTypes
