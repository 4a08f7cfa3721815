/-
# A mapper terminates

Whatever cycles the catalog has, a mapper answers every request within a
bounded number of nested calls, with the answer of the stackless typing, and
leaves its stack as it was.

To type a schema is one call; it calls for each part of the schema on the same
stack and, where references are expanded, for the target of the reference with
its name pushed (`Calls`). The mapper notes just the stacks of these calls. Each
of them is the stack that it started with and then names of the catalog, none of
them twice (`Stacked`), so it grows by at most the number of entries.

The induction is on the stack first, since an expansion goes back to a schema
that may be larger, and on the parts of the schema below. `Runs` says of a
piece of work what the induction needs, and each way to put work together
keeps it.

Key definitions: `Mapper.Stacked`, `Mapper.Calls`, `Mapper.Request.Calls`,
`Mapper.Runs`.
Key theorems: `Mapper.Calls.stacked`, `Mapper.runs_term`,
`Mapper.serve_terminates`.
-/
import Mathlib.Data.List.Perm.Subperm
import SchemaTypes.Proofs.Mapper.Basic

namespace SchemaTypes.Mapper

/-- The second stack is the first one with names of the catalog on top that
are neither on it nor twice among themselves. -/
def Stacked (c : Catalog) (stack stack' : List String) : Prop :=
  ∃ pushed, stack' = stack ++ pushed ∧ pushed.Nodup ∧ ∀ n ∈ pushed, n ∈ c.names ∧ n ∉ stack

section Stacked

variable {c : Catalog} {stack stack' : List String}

theorem Stacked.refl (c : Catalog) (stack : List String) : Stacked c stack stack :=
  ⟨[], (List.append_nil stack).symm, List.nodup_nil, fun n hn => by cases hn⟩

theorem Stacked.of_push {n : String} (hc : n ∈ c.names) (hn : n ∉ stack)
    (h : Stacked c (stack ++ [n]) stack') : Stacked c stack stack' := by
  obtain ⟨pushed, rfl, hnodup, hpushed⟩ := h
  refine ⟨n :: pushed, List.append_assoc _ _ _, List.nodup_cons.2 ⟨fun hm => ?_, hnodup⟩, ?_⟩
  · exact (hpushed n hm).2 (List.mem_append_right _ (List.mem_singleton_self n))
  · intro m hm
    rcases List.mem_cons.1 hm with rfl | hm
    · exact ⟨hc, hn⟩
    · exact ⟨(hpushed m hm).1, fun hs => (hpushed m hm).2 (List.mem_append_left _ hs)⟩

/-- A stack without repetition stays so. -/
theorem Stacked.nodup (h : Stacked c stack stack') (hs : stack.Nodup) : stack'.Nodup := by
  obtain ⟨pushed, rfl, hnodup, hpushed⟩ := h
  exact List.nodup_append.2 ⟨hs, hnodup, fun m hm n hn hmn => (hpushed n hn).2 (hmn ▸ hm)⟩

/-- A stack grows by no more names than the catalog has. -/
theorem Stacked.length_le (h : Stacked c stack stack') :
    stack'.length ≤ stack.length + c.size := by
  obtain ⟨pushed, rfl, hnodup, hpushed⟩ := h
  have hsub : pushed.length ≤ c.names.length :=
    (List.subperm_of_subset hnodup fun n hn => (hpushed n hn).1).length_le
  have hsize : c.names.length = c.size := List.length_map _
  rw [List.length_append]
  omega

end Stacked

/-! ### The calls that a mapper makes -/

/-- To type the schema on the first stack makes a call on the second one. -/
inductive Calls (c : Catalog) (o : Settings) :
    List String → Option Schema → List String → Prop
  | here (stack : List String) (s : Option Schema) : Calls c o stack s stack
  | part {stack v : List String} {s t : Schema} (ht : t ∈ s.rule.parts)
      (hv : Calls c o stack (some t) v) : Calls c o stack (some s) v
  | expand {stack v : List String} {s t : Schema} {r : String} (hi : o.inlineRefs = true)
      (hr : s.rule = .reference r) (hs : Reference.target r ∉ stack)
      (ht : Reference.resolve? r c = some t)
      (hv : Calls c o (stack ++ [Reference.target r]) (some t) v) : Calls c o stack (some s) v

/-- To answer the request on the first stack makes a call on the second one. -/
def Request.Calls (c : Catalog) (o : Settings) (stack : List String) :
    Request → List String → Prop
  | .term s, v => Mapper.Calls c o stack s v
  | .object s, v | .fields s, v =>
    v = stack ∨ ∃ p ∈ s.properties.getD [], Mapper.Calls c o stack (some p.2) v
  | .name _, _ => False

section Calls

variable {c : Catalog} {o : Settings} {stack v : List String} {s : Schema} {r : String}

theorem calls_none : Calls c o stack none v ↔ v = stack := by
  constructor
  · rintro ⟨⟩
    rfl
  · rintro rfl
    exact .here v none

theorem calls_of_reference (hr : s.rule = .reference r) :
    Calls c o stack (some s) v ↔ v = stack ∨ ∃ t, o.inlineRefs = true ∧
      Reference.target r ∉ stack ∧ Reference.resolve? r c = some t ∧
        Calls c o (stack ++ [Reference.target r]) (some t) v := by
  constructor
  · intro h
    cases h with
    | here => exact .inl rfl
    | part ht _ => exact absurd hr (Schema.rule_ne_reference_of_mem_parts ht r)
    | expand hi hr' hs ht hv =>
      rw [hr] at hr'
      cases hr'
      exact .inr ⟨_, hi, hs, ht, hv⟩
  · rintro (rfl | ⟨t, hi, hs, ht, hv⟩)
    · exact .here v _
    · exact .expand hi hr hs ht hv

theorem calls_of_parts (hr : ∀ r, s.rule ≠ .reference r) :
    Calls c o stack (some s) v ↔
      v = stack ∨ ∃ t ∈ s.rule.parts, Calls c o stack (some t) v := by
  constructor
  · intro h
    cases h with
    | here => exact .inl rfl
    | part ht hv => exact .inr ⟨_, ht, hv⟩
    | expand _ hr' _ _ _ => exact absurd hr' (hr _)
  · rintro (rfl | ⟨t, ht, hv⟩)
    · exact .here v _
    · exact .part ht hv

/-- Every call has a stack on top of the first one. -/
theorem Calls.stacked {s : Option Schema} (h : Calls c o stack s v) : Stacked c stack v := by
  induction h with
  | here stack s => exact .refl c stack
  | part _ _ ih => exact ih
  | expand _ _ hs ht _ ih => exact ih.of_push (Catalog.mem_names_of_resolve? ht) hs

theorem Request.Calls.stacked {q : Request} (h : q.Calls c o stack v) : Stacked c stack v := by
  have hfields : ∀ s : Schema, (Request.fields s).Calls c o stack v → Stacked c stack v := by
    rintro s (rfl | ⟨p, -, hp⟩)
    · exact .refl c v
    · exact hp.stacked
  cases q with
  | term s => exact Mapper.Calls.stacked h
  | object s => exact hfields s h
  | fields s => exact hfields s h
  | name r => exact h.elim

end Calls

variable {c : Catalog} {o : Settings} {stack : List String} {α β : Type}
variable {calls calls' : List String → Prop}

/-- With enough nested calls the work gives the value, reports the events and
leaves the stack as it was, and the stacks of the calls on the way are these. -/
def Runs (stack : List String) (calls : List String → Prop) (work : Nat → Work α)
    (x : Logged α) : Prop :=
  ∃ n noted, (∀ v, v ∈ noted ↔ calls v) ∧
    ∀ k, n ≤ k → ∀ log seen,
      work k ⟨stack, log, seen⟩ = some (x.value, ⟨stack, log ++ x.events, seen ++ noted⟩)

/-! ### Work put together -/

theorem run_pure (a : α) (m : Mapper) : (pure a : Work α) m = some (a, m) := rfl

theorem run_bind (w : Work α) (f : α → Work β) (m : Mapper) :
    (w >>= f) m = (w m).bind fun r => f r.1 r.2 := rfl

theorem run_map (f : α → β) (w : Work α) (m : Mapper) :
    (f <$> w) m = (w m).map fun r => (f r.1, r.2) := by
  rw [map_eq_pure_bind, run_bind]
  cases w m <;> rfl

theorem runs_pure (a : α) : Runs stack (fun _ => False) (fun _ => pure a) ⟨a, []⟩ := by
  refine ⟨0, [], by simp, fun k _ log seen => ?_⟩
  beta_reduce
  rw [run_pure, List.append_nil, List.append_nil]

theorem runs_report (e : ReferenceEvent) (a : α) :
    Runs stack (fun _ => False) (fun _ => do report e; pure a) ⟨a, [e]⟩ := by
  refine ⟨0, [], by simp, fun k _ log seen => ?_⟩
  rw [List.append_nil]
  rfl

/-- The calls may be told in another way. -/
theorem Runs.of_calls {work : Nat → Work α} {x : Logged α} (h : Runs stack calls work x)
    (heq : ∀ v, calls v ↔ calls' v) : Runs stack calls' work x := by
  obtain ⟨n, noted, hnoted, hrun⟩ := h
  exact ⟨n, noted, fun v => (hnoted v).trans (heq v), hrun⟩

theorem Runs.map {work : Nat → Work α} {x : Logged α} (h : Runs stack calls work x) (f : α → β) :
    Runs stack calls (fun k => f <$> work k) (x.map f) := by
  obtain ⟨n, noted, hnoted, hrun⟩ := h
  refine ⟨n, noted, hnoted, fun k hk log seen => ?_⟩
  beta_reduce
  rw [run_map, hrun k hk]
  rfl

theorem Runs.cons {work : Nat → Work α} {works : Nat → Work (List α)} {x : Logged α}
    {xs : Logged (List α)} (h : Runs stack calls work x) (hs : Runs stack calls' works xs) :
    Runs stack (fun v => calls v ∨ calls' v) (fun k => do return (← work k) :: (← works k))
      (x.cons xs) := by
  obtain ⟨n, noted, hnoted, hrun⟩ := h
  obtain ⟨n', noted', hnoted', hrun'⟩ := hs
  refine ⟨max n n', noted ++ noted', fun v => ?_, fun k hk log seen => ?_⟩
  · rw [List.mem_append, hnoted, hnoted']
  · beta_reduce
    rw [run_bind, hrun k (Nat.le_trans (Nat.le_max_left n n') hk), Option.bind_some, run_bind,
      hrun' k (Nat.le_trans (Nat.le_max_right n n') hk), Option.bind_some, run_pure, List.append_assoc,
      List.append_assoc]
    rfl

/-- Work on a list, entry by entry. -/
theorem runs_mapM {γ : Type} {f : Nat → γ → Work α} {g : γ → Logged α}
    {calls : γ → List String → Prop} (l : List γ)
    (h : ∀ a ∈ l, Runs stack (calls a) (fun k => f k a) (g a)) :
    Runs stack (fun v => ∃ a ∈ l, calls a v) (fun k => l.mapM (f k))
      ⟨l.map fun a => (g a).value, l.flatMap fun a => (g a).events⟩ := by
  induction l with
  | nil => exact (runs_pure []).of_calls (by simp)
  | cons a l ih =>
    have hl := ih fun b hb => h b (List.mem_cons_of_mem a hb)
    simp only [List.mapM_cons]
    exact ((h a List.mem_cons_self).cons hl).of_calls (by simp)

theorem run_push (n : String) (log : List ReferenceEvent) (calls : List (List String)) :
    push n ⟨stack, log, calls⟩ = some ((), ⟨stack ++ [n], log, calls⟩) := rfl

/-- What was pushed last is popped. -/
theorem run_pop (n : String) (log : List ReferenceEvent) (calls : List (List String)) :
    pop ⟨stack ++ [n], log, calls⟩ = some ((), ⟨stack, log, calls⟩) := by
  change some ((), (⟨(stack ++ [n]).dropLast, log, calls⟩ : Mapper)) = _
  rw [List.dropLast_concat]

/-- Work inside of the schema of a name. -/
theorem Runs.pushed {work : Nat → Work α} {x : Logged α} {n : String}
    (h : Runs (stack ++ [n]) calls work x) :
    Runs stack calls (fun k => do push n; let a ← work k; pop; pure a) x := by
  obtain ⟨k₀, noted, hnoted, hrun⟩ := h
  refine ⟨k₀, noted, hnoted, fun k hk log seen => ?_⟩
  beta_reduce
  rw [run_bind, run_push, Option.bind_some, run_bind, hrun k hk, Option.bind_some, run_bind,
    run_pop, Option.bind_some, run_pure]

/-- Work after a call is noted. -/
theorem Runs.noted {work : Nat → Work α} {x : Logged α} (h : Runs stack calls work x) :
    Runs stack (fun v => v = stack ∨ calls v) (fun k => do enter; work k) x := by
  obtain ⟨n, noted, hnoted, hrun⟩ := h
  refine ⟨n, stack :: noted, fun v => ?_, fun k hk log seen => ?_⟩
  · rw [List.mem_cons, hnoted]
  · have henter : enter ⟨stack, log, seen⟩ = some ((), ⟨stack, log, seen ++ [stack]⟩) := rfl
    beta_reduce
    rw [run_bind, henter, Option.bind_some, hrun k hk, List.append_assoc, List.singleton_append]

/-- Work with one nested call in hand. -/
theorem Runs.of_succ {work : Nat → Work α} {x : Logged α}
    (h : Runs stack calls (fun k => work (k + 1)) x) : Runs stack calls work x := by
  obtain ⟨n, noted, hnoted, hrun⟩ := h
  refine ⟨n + 1, noted, hnoted, fun k hk => ?_⟩
  obtain ⟨k, rfl⟩ : ∃ k', k = k' + 1 := ⟨k - 1, by omega⟩
  exact hrun k (by omega)

/-- Only what the work does on the stack counts. -/
theorem Runs.of_eq {work work' : Nat → Work α} {x : Logged α} (h : Runs stack calls work' x)
    (heq : ∀ k log seen, work k ⟨stack, log, seen⟩ = work' k ⟨stack, log, seen⟩) :
    Runs stack calls work x := by
  obtain ⟨n, noted, hnoted, hrun⟩ := h
  exact ⟨n, noted, hnoted, fun k hk log seen => (heq k log seen).trans (hrun k hk log seen)⟩

/-! ### The work of a mapper -/

/-- Where references are expanded, the stack is asked first, then the catalog. -/
theorem referenceWith_inlined (hi : o.inlineRefs = true) (call : Option Schema → Work TypeTerm)
    (r : String) (log : List ReferenceEvent) (seen : List (List String)) :
    referenceWith c o call r ⟨stack, log, seen⟩ =
      (if Reference.target r ∈ stack then do
          report (.cycle r)
          return Typing.named o r
        else
          match Reference.resolve? r c with
          | none => do
            report (.unknownExpanded r)
            return .object []
          | some s => do
            push (Reference.target r)
            let t ← call (some s)
            pop
            return t : Work TypeTerm) ⟨stack, log, seen⟩ := by
  rw [referenceWith, if_pos hi]
  rfl

/-- A reference runs if expanding its target does, and makes its calls. -/
theorem runs_reference (r : String)
    (h : ∀ t, Reference.resolve? r c = some t → Reference.target r ∉ stack →
      Runs (stack ++ [Reference.target r]) (Calls c o (stack ++ [Reference.target r]) (some t))
        (fun k => term c o k (some t))
        (Typing.term c o (stack ++ [Reference.target r]) (some t))) :
    Runs stack
      (fun v => ∃ t, o.inlineRefs = true ∧ Reference.target r ∉ stack ∧
        Reference.resolve? r c = some t ∧ Calls c o (stack ++ [Reference.target r]) (some t) v)
      (fun k => referenceWith c o (term c o k) r) (Typing.reference c o stack r) := by
  cases hi : o.inlineRefs with
  | false =>
    rw [Typing.reference_kept hi]
    cases hc : c.contains (Reference.target r) with
    | true =>
      exact ((runs_pure _).of_calls (by simp)).of_eq fun k log seen => by
        simp [referenceWith, hi, hc]
    | false =>
      exact ((runs_report (.unknown r) _).of_calls (by simp)).of_eq fun k log seen => by
        simp [referenceWith, hi, hc]
  | true =>
    by_cases hs : Reference.target r ∈ stack
    · rw [Typing.reference_cut hi hs]
      exact ((runs_report (.cycle r) _).of_calls (by simp [hs])).of_eq fun k log seen => by
        rw [referenceWith_inlined hi, if_pos hs]
    · cases hc : Reference.resolve? r c with
      | none =>
        rw [Typing.reference_missing hi hs hc]
        exact ((runs_report (.unknownExpanded r) _).of_calls (by simp)).of_eq fun k log seen => by
          rw [referenceWith_inlined hi, if_neg hs, hc]
      | some t =>
        rw [Typing.reference_expanded hi hs hc]
        exact ((h t hc hs).pushed.of_calls (by simp [hs])).of_eq fun k log seen => by
          rw [referenceWith_inlined hi, if_neg hs, hc]

/-- The fields of properties run if their types do. -/
theorem runs_fields {s : Schema}
    (h : ∀ ps, s.properties = some ps → ∀ p ∈ ps,
      Runs stack (Calls c o stack (some p.2)) (fun k => term c o k (some p.2))
        (Typing.term c o stack (some p.2))) :
    Runs stack ((Request.fields s).Calls c o stack) (fun k => fieldsWith (term c o k) s)
      (Typing.fields c o stack s) := by
  unfold fieldsWith Typing.fields Schema.fieldsWith
  refine Runs.noted ?_
  cases hp : s.properties with
  | none => exact (runs_pure []).of_calls (by simp)
  | some ps =>
    have hfield : ∀ p ∈ ps, Runs stack (Calls c o stack (some p.2))
        (fun k => do
          let t ← term c o k (some p.2)
          return (⟨Identifier.propertyKey p.1, !s.requires p.1, t⟩ : Field))
        ((Typing.term c o stack (some p.2)).map fun t =>
          ⟨Identifier.propertyKey p.1, !s.requires p.1, t⟩) := by
      intro p hmem
      simp only [← map_eq_pure_bind]
      exact (h ps hp p hmem).map _
    have heq : Schema.propertiesWith (Typing.reference c o stack) s.required ps =
        ⟨ps.map (Schema.fieldWith (Typing.reference c o stack) s.required),
          ps.flatMap fun p => (p.2.termWith (Typing.reference c o stack)).events⟩ := by
      rw [← Schema.value_propertiesWith, ← Schema.events_propertiesWith]
    simp only [heq]
    exact runs_mapM ps hfield

theorem runs_object {s : Schema}
    (h : Runs stack ((Request.fields s).Calls c o stack) (fun k => fieldsWith (term c o k) s)
      (Typing.fields c o stack s)) :
    Runs stack ((Request.object s).Calls c o stack) (fun k => objectWith (term c o k) s)
      (Typing.object c o stack s) := by
  simp only [objectWith, ← map_eq_pure_bind]
  exact (h.map _).noted.of_calls fun v => or_self_left

/-- Members run if each of them does. -/
theorem runs_members {ms : List Schema}
    (h : ∀ m ∈ ms, Runs stack (Calls c o stack (some m)) (fun k => term c o k (some m))
      (Typing.term c o stack (some m))) :
    Runs stack (fun v => ∃ m ∈ ms, Calls c o stack (some m) v)
      (fun k => ms.mapM fun m => term c o k (some m))
      (Schema.membersWith (Typing.reference c o stack) ms) := by
  have heq : Schema.membersWith (Typing.reference c o stack) ms =
      ⟨ms.map fun m => (m.termWith (Typing.reference c o stack)).value,
        ms.flatMap fun m => (m.termWith (Typing.reference c o stack)).events⟩ := by
    rw [← Schema.value_membersWith, ← Schema.events_membersWith]
  rw [heq]
  exact runs_mapM ms h

/-- A call runs if the rule of its schema does. -/
theorem runs_call {s : Schema} {rule : Schema.Rule} (hr : s.rule = rule)
    (h : Runs stack calls (fun k => ruleTermWith c o (term c o k) s rule)
      (rule.termWith (Typing.reference c o stack) s.required))
    (hcalls : ∀ v, Calls c o stack (some s) v ↔ v = stack ∨ calls v) :
    Runs stack (Calls c o stack (some s)) (fun k => term c o k (some s))
      (Typing.term c o stack (some s)) := by
  subst hr
  rw [Typing.term, Schema.termWith_eq_rule]
  refine (Runs.of_succ ?_).of_calls fun v => (hcalls v).symm
  simp only [term, termWith_eq_rule]
  exact h.noted

/-- A schema that is not a reference runs if its parts do. -/
theorem runs_parts {s : Schema} (hr : ∀ r, s.rule ≠ .reference r)
    (hparts : ∀ t ∈ s.rule.parts, Runs stack (Calls c o stack (some t))
      (fun k => term c o k (some t)) (Typing.term c o stack (some t))) :
    Runs stack (Calls c o stack (some s)) (fun k => term c o k (some s))
      (Typing.term c o stack (some s)) := by
  have hcalls : ∀ v, Calls c o stack (some s) v ↔
      v = stack ∨ ∃ t ∈ s.rule.parts, Calls c o stack (some t) v :=
    fun v => calls_of_parts hr
  have hk := Schema.keyword_of_rule s
  cases hrule : s.rule with
  | reference r => exact absurd hrule (hr r)
  | literals _ | plain _ =>
    rw [hrule] at hcalls
    exact runs_call hrule (runs_pure _) fun v => (hcalls v).trans (by simp [Schema.Rule.parts])
  | union ms | intersection ms =>
    rw [hrule] at hparts hcalls
    refine runs_call hrule ?_ hcalls
    simp only [ruleTermWith, ← map_eq_pure_bind]
    exact (runs_members hparts).map _
  | array item =>
    rw [hrule] at hparts hcalls
    have hitem : Runs stack (fun v => ∃ t ∈ [item], Calls c o stack (some t) v)
        (fun k => term c o k (some item)) (Typing.term c o stack (some item)) :=
      (hparts item (List.mem_singleton_self item)).of_calls (by simp)
    refine runs_call hrule ?_ hcalls
    simp only [ruleTermWith, ← map_eq_pure_bind]
    exact hitem.map _
  | object ps =>
    rw [hrule] at hparts hcalls hk
    have hterm : (Schema.Rule.object ps).termWith (Typing.reference c o stack) s.required =
        Typing.object c o stack s := by
      rw [Typing.object, Typing.fields, Schema.fieldsWith, hk]
      rfl
    have hobject : Runs stack ((Request.object s).Calls c o stack)
        (fun k => objectWith (term c o k) s) (Typing.object c o stack s) := by
      refine runs_object (runs_fields fun ps' hps' p hp => ?_)
      rw [hk] at hps'
      cases hps'
      exact hparts p.2 (List.mem_map_of_mem hp)
    rw [← hterm] at hobject
    -- The stack is noted again for the object and for its fields, and it is the
    -- same stack.
    refine runs_call hrule hobject fun v => (hcalls v).trans ?_
    simp only [Request.Calls, Schema.Rule.parts, hk, Option.getD_some, List.mem_map,
      exists_exists_and_eq_and, or_self_left]

/-- **A mapper agrees with the stackless typing** on every schema, and makes
just the calls that the schema asks for. -/
theorem runs_term (stack : List String) :
    ∀ s, Runs stack (Calls c o stack s) (fun k => term c o k s) (Typing.term c o stack s) := by
  induction stack using c.stack_induction with
  | step stack ih =>
    intro s
    cases s with
    | none =>
      refine (Runs.of_succ ?_).of_calls fun v => calls_none.symm
      exact (runs_pure TypeTerm.any).noted.of_calls (by simp)
    | some s =>
      induction s using Schema.part_induction with
      | step s ihs =>
        by_cases hr : ∃ r, s.rule = .reference r
        · obtain ⟨r, hr⟩ := hr
          refine runs_call hr (runs_reference r fun t ht hs => ?_) fun v => calls_of_reference hr
          exact ih _ (Catalog.mem_names_of_resolve? ht) hs (some t)
        · exact runs_parts (fun r h => hr ⟨r, h⟩) ihs

theorem runs_fieldsWith (stack : List String) (s : Schema) :
    Runs stack ((Request.fields s).Calls c o stack) (fun k => fieldsWith (term c o k) s)
      (Typing.fields c o stack s) :=
  runs_fields fun _ _ p _ => runs_term stack (some p.2)

theorem runs_objectWith (stack : List String) (s : Schema) :
    Runs stack ((Request.object s).Calls c o stack) (fun k => objectWith (term c o k) s)
      (Typing.object c o stack s) :=
  runs_object (runs_fieldsWith stack s)

theorem runs_serve (stack : List String) (q : Request) :
    Runs stack (q.Calls c o stack) (fun k => serve c o k q) (q.answer c o stack) := by
  cases q with
  | term s =>
    simp only [serve, ← map_eq_pure_bind]
    exact (runs_term stack s).map _
  | object s =>
    simp only [serve, ← map_eq_pure_bind]
    exact (runs_objectWith stack s).map _
  | fields s =>
    simp only [serve, ← map_eq_pure_bind]
    exact (runs_fieldsWith stack s).map _
  | name r => exact runs_pure _

/-- **A mapper terminates.** From a stack without repetition it answers every
request within some number of nested calls, whatever more it is allowed, with
the answer of the stackless typing and its stack as before. It notes the stack
of every call that the request asks for, and of no other. At every call its
stack has no repetition and consists of the stack it started with and then
names of the catalog, so that it grows by at most the number of entries. -/
theorem serve_terminates (c : Catalog) (o : Settings) {stack : List String} (hs : stack.Nodup)
    (q : Request) :
    ∃ n, ∀ k, n ≤ k → ∃ m,
      serve c o k q { expanding := stack } = some ((q.answer c o stack).value, m) ∧
        m.expanding = stack ∧ m.log = (q.answer c o stack).events ∧
        (∀ v, v ∈ m.calls ↔ q.Calls c o stack v) ∧
        ∀ v ∈ m.calls, v.Nodup ∧ v.length ≤ stack.length + c.size ∧
          ∃ pushed, v = stack ++ pushed ∧ ∀ n ∈ pushed, n ∈ c.names := by
  obtain ⟨n, noted, hnoted, hrun⟩ := runs_serve (c := c) (o := o) stack q
  refine ⟨n, fun k hk => ⟨_, hrun k hk [] [], rfl, rfl, hnoted, fun v hv => ?_⟩⟩
  have hv : Stacked c stack v := ((hnoted v).1 hv).stacked
  obtain ⟨pushed, hpushed, -, hmem⟩ := id hv
  exact ⟨hv.nodup hs, hv.length_le, pushed, hpushed, fun n hn => (hmem n hn).1⟩

/-- To type a schema with one property, a reference, is to type the reference
on the same stack. -/
theorem calls_link {key r : String} {v : List String} :
    Calls c o stack (some (.link key r)) v ↔
      v = stack ∨ Calls c o stack (some (.ofReference r)) v := by
  have hparts : (Schema.link key r).rule.parts = [.ofReference r] := rfl
  rw [calls_of_parts (fun r' h => by cases h), hparts]
  simp

/-- The ring is gone around once. -/
theorem calls_ring {v : List String} :
    Calls .ring { inlineRefs := true } ["A"] (some (.link "b" "#/components/schemas/B")) v ↔
      v = ["A"] ∨ v = ["A", "B"] := by
  have hback : Calls .ring { inlineRefs := true } ["A", "B"]
      (some (.link "a" "#/components/schemas/A")) v ↔ v = ["A", "B"] := by
    rw [calls_link, calls_of_reference rfl]
    constructor
    · rintro (h | h | ⟨t, -, hs, -⟩)
      · exact h
      · exact h
      · exact absurd (by decide) hs
    · exact .inl
  rw [calls_link, calls_of_reference rfl]
  constructor
  · rintro (h | h | ⟨t, -, -, ht, hv⟩)
    · exact .inl h
    · exact .inl h
    · cases ht
      exact .inr (hback.1 hv)
  · rintro (h | h)
    · exact .inl h
    · exact .inr (.inr ⟨_, rfl, by decide, rfl, hback.2 h⟩)

/-- Inside of the declaration of `A` the ring is cut at depth two. -/
theorem ring_terminates :
    ["A"].Nodup ∧ ∃ n, ∀ k, n ≤ k → ∃ m,
      serve .ring { inlineRefs := true } k (.term (some (.link "b" "#/components/schemas/B")))
          { expanding := ["A"] } =
        some (.term (.object [⟨"b", true, .object [⟨"a", true, .named "IA"⟩]⟩]), m) ∧
      m.expanding = ["A"] ∧ m.log = [.cycle "#/components/schemas/A"] ∧
      (∀ v, v ∈ m.calls ↔ v = ["A"] ∨ v = ["A", "B"]) ∧
      ∀ v ∈ m.calls, v.Nodup ∧ v.length ≤ 3 ∧
        ∃ pushed, v = ["A"] ++ pushed ∧ ∀ n ∈ pushed, n ∈ Catalog.ring.names := by
  have hnodup : ["A"].Nodup := by decide
  have hring := Typing.term_ring
  obtain ⟨n, h⟩ := serve_terminates .ring { inlineRefs := true } hnodup
    (.term (some (.link "b" "#/components/schemas/B")))
  rw [Request.answer, hring] at h
  refine ⟨hnodup, n, fun k hk => ?_⟩
  obtain ⟨m, hanswer, hstack, hlog, hcalls, hv⟩ := h k hk
  exact ⟨m, hanswer, hstack, hlog, fun v => (hcalls v).trans calls_ring, hv⟩

end SchemaTypes.Mapper
