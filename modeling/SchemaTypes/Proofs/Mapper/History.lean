/-
# What a mapper was asked before makes no difference

One mapper is asked for many things, one after the other: a declaration asks
it for the type of every member. Each call puts names on the stack of the
mapper and takes them off again, also where it cuts a cycle or misses a
target, so the next call starts from the same stack; and what a call answers
and reports depends on the stack alone. So a mapper that has served any number
of requests serves the next one as a mapper does that has served none.

`observe` takes down what one call does: its answer, what it reports, and the
stack that it leaves. `runs_observe` says so of a mapper in any state, and
`runs_mapM` carries it along a list of requests.

Key definitions: `Mapper.Observation`, `Mapper.observe`, `Mapper.run`,
`Mapper.Gives`, `Mapper.declare`.
Key theorems: `Mapper.runs_observe`, `Mapper.runs_declare`,
`Mapper.history_irrelevant`.
-/
import SchemaTypes.Proofs.Declaration.Row
import SchemaTypes.Proofs.Mapper.Termination

namespace SchemaTypes.Mapper

/-- What a call on a mapper does: what it answers and reports, and the stack
that it leaves. -/
structure Observation where
  answer : Answer
  events : List ReferenceEvent
  stack : List String

/-- What a call does that gives a logged answer and leaves the stack. -/
def Observation.of (x : Logged Answer) (stack : List String) : Observation :=
  ⟨x.value, x.events, stack⟩

/-- What work of a new mapper with the stack comes to: its value, the stack
that it leaves, and its log. -/
def run {α : Type} (work : Work α) (stack : List String) :
    Option (α × List String × List ReferenceEvent) :=
  (work { expanding := stack }).map fun r => (r.1, r.2.expanding, r.2.log)

/-- With enough nested calls there is a result, and it is this one. -/
def Gives {α : Type} (result : Nat → Option α) (a : α) : Prop :=
  ∃ n, ∀ k, n ≤ k → result k = some a

section

variable (c : Catalog) (o : Settings) (k : Nat)

/-- Serves a request and takes down what the call does. -/
def observe (q : Request) : Work Observation := do
  let before ← get
  let answer ← serve c o k q
  let after ← get
  return ⟨answer, after.log.drop before.log.length, after.expanding⟩

/-- The type of a member of a union or an intersection. -/
def member (s : Schema) : Work TypeTerm :=
  match s.reference with
  | some r => pure (Typing.named o r)
  | none => objectWith (term c o k) s

/-- The declaration of a schema under a name, by one mapper. -/
def declare (name : String) (s : Schema) : Work Declaration :=
  let declared := o.declaredName name
  match s.enumValues with
  | some vs => pure (.enum declared (vs.map EnumMember.ofJson))
  | none =>
    match s.unionMembers with
    | some ms => return .union declared (← ms.mapM (member c o k))
    | none =>
      match s.intersectionMembers with
      | some ms => return .intersection declared (← ms.mapM (member c o k))
      | none =>
        if s.isObjectShaped then
          return .interface declared (← fieldsWith (term c o k) s)
        else if o.typedAliases then
          return .typeAlias declared (← term c o k (some s))
        else pure (.typeAlias declared .any)

end

variable {c : Catalog} {o : Settings} {stack : List String} {α : Type}
variable {calls : List String → Prop}

/-! ### One call -/

/-- What a call does depends on the stack of the mapper alone, and the call
leaves it as it was. -/
theorem runs_observe (stack : List String) (q : Request) :
    Runs stack (q.Calls c o stack) (fun k => observe c o k q)
      ⟨.of (q.answer c o stack) stack, (q.answer c o stack).events⟩ := by
  obtain ⟨n, noted, hnoted, hrun⟩ := runs_serve (c := c) (o := o) stack q
  refine ⟨n, noted, hnoted, fun k hk log seen => ?_⟩
  have hget : ∀ m : Mapper, (get : Work Mapper) m = some (m, m) := fun m => rfl
  simp only [observe, run_bind, hget, hrun k hk, Option.bind_some, run_pure, List.drop_left]
  rfl

theorem Runs.gives {work : Nat → Work α} {x : Logged α} (h : Runs stack calls work x) :
    Gives (fun k => run (work k) stack) (x.value, stack, x.events) := by
  obtain ⟨n, noted, -, hrun⟩ := h
  refine ⟨n, fun k hk => ?_⟩
  change (work k { expanding := stack }).map _ = _
  rw [hrun k hk, List.nil_append]
  rfl

/-! ### A declaration -/

variable (c o) in
/-- To type a member of a union or an intersection on the first stack makes a
call on the second one. -/
def MemberCalls (stack : List String) (s : Schema) (v : List String) : Prop :=
  s.reference = none ∧ (Request.object s).Calls c o stack v

theorem runs_member (stack : List String) (s : Schema) :
    Runs stack (MemberCalls c o stack s) (fun k => member c o k s) (c.memberTerm o stack s) := by
  unfold member Catalog.memberTerm MemberCalls
  cases s.reference with
  | some r => exact (runs_pure _).of_calls (by simp)
  | none => exact (runs_objectWith stack s).of_calls (by simp)

theorem runs_memberTerms (stack : List String) (ms : List Schema) :
    Runs stack (fun v => ∃ m ∈ ms, MemberCalls c o stack m v)
      (fun k => ms.mapM (member c o k)) (c.memberTerms o stack ms) := by
  have heq : c.memberTerms o stack ms =
      ⟨ms.map fun m => (c.memberTerm o stack m).value,
        ms.flatMap fun m => (c.memberTerm o stack m).events⟩ := by
    simp only [Catalog.memberTerms_eq_memberListWith, Catalog.memberTerm_eq_memberWith]
    rfl
  rw [heq]
  exact runs_mapM ms fun m _ => runs_member stack m

/-- One mapper declares a schema as the stackless typing does. -/
theorem runs_declare (name : String) (s : Schema) :
    ∃ calls, Runs [name] calls (fun k => declare c o k name s) (c.declare o name s) := by
  unfold declare Catalog.declare
  simp only [← map_eq_pure_bind]
  cases s.enumValues with
  | some vs => exact ⟨_, runs_pure _⟩
  | none =>
    cases s.unionMembers with
    | some ms => exact ⟨_, (runs_memberTerms [name] ms).map _⟩
    | none =>
      cases s.intersectionMembers with
      | some ms => exact ⟨_, (runs_memberTerms [name] ms).map _⟩
      | none =>
        cases s.isObjectShaped with
        | true => exact ⟨_, (runs_fieldsWith [name] s).map _⟩
        | false =>
          cases o.typedAliases with
          | true => exact ⟨_, (runs_term [name] (some s)).map _⟩
          | false => exact ⟨_, runs_pure _⟩

/-- The types in a union or an intersection are those of its members. -/
theorem memberTerms_of_row {name : String} {s : Schema} {ms : List Schema}
    (h : s.row = .union ms ∨ s.row = .intersection ms) :
    (c.declare o name s).value.types = ms.map (fun m => (c.memberTerm o [name] m).value) ∧
      (c.declare o name s).events = ms.flatMap fun m => (c.memberTerm o [name] m).events := by
  rw [Catalog.declare_eq_declareWith, Schema.declareWith]
  simp only [Catalog.memberTerm_eq_memberWith]
  rcases h with h | h
  · rw [h]
    exact ⟨rfl, rfl⟩
  · rw [h]
    exact ⟨rfl, rfl⟩

/-! ### A history of calls -/

/-- **What a mapper was asked before makes no difference.** A mapper that
serves requests one after the other answers each of them, reports its events
and leaves the stack just as a new mapper does that serves this request alone,
and it never leaves another stack than the one it started with. So does the
one mapper that types the members of a union or an intersection. -/
theorem history_irrelevant (c : Catalog) (o : Settings) :
    (∀ stack qs, ∃ rs : List Observation,
      List.Forall₂ (fun q r =>
        Gives (fun k => run (serve c o k q) stack) (r.answer, r.stack, r.events)) qs rs ∧
      (∀ r ∈ rs, r.stack = stack) ∧
      Gives (fun k => run (qs.mapM (observe c o k)) stack) (rs, stack, rs.flatMap (·.events))) ∧
    ∀ name s,
      Gives (fun k => run (declare c o k name s) [name])
        ((c.declare o name s).value, [name], (c.declare o name s).events) ∧
      ∀ ms, s.row = .union ms ∨ s.row = .intersection ms → ∃ xs : List (Logged TypeTerm),
        List.Forall₂ (fun m x =>
          Gives (fun k => run (member c o k m) [name]) (x.value, [name], x.events)) ms xs ∧
        (c.declare o name s).value.types = xs.map (·.value) ∧
        (c.declare o name s).events = xs.flatMap (·.events) := by
  refine ⟨fun stack qs => ?_, fun name s => ⟨?_, fun ms hms => ?_⟩⟩
  · refine ⟨qs.map fun q => .of (q.answer c o stack) stack, ?_, ?_, ?_⟩
    · rw [List.forall₂_map_right_iff, List.forall₂_same]
      exact fun q _ => (runs_serve stack q).gives
    · rintro r hr
      obtain ⟨q, -, rfl⟩ := List.mem_map.1 hr
      rfl
    · have h := (runs_mapM qs fun q _ => runs_observe (c := c) (o := o) stack q).gives
      rw [List.flatMap_map]
      exact h
  · obtain ⟨calls, hdeclare⟩ := runs_declare (c := c) (o := o) name s
    exact hdeclare.gives
  · refine ⟨ms.map (c.memberTerm o [name]), ?_, ?_, ?_⟩
    · rw [List.forall₂_map_right_iff, List.forall₂_same]
      exact fun m _ => (runs_member [name] m).gives
    · rw [List.map_map]
      exact (memberTerms_of_row hms).1
    · rw [List.flatMap_map]
      exact (memberTerms_of_row hms).2

end SchemaTypes.Mapper
