/-
# Steps that may fail

What is known of a result is passed on to what goes on from it: a chain of
steps has a result exactly if each step has, and what it gives without the
reasons of failures (`toOption`) follows from what its steps give. Two results
agree if they give the same, whatever the reasons of failures, and steps that
agree make chains that agree.

Key definitions: `Agree`.
Key theorems: `Except.exists_of_bind_eq_ok`, `Agree.bind`.
-/

namespace SchemaTypes

section

variable {ε α β : Type}

@[simp] theorem isOk_ok (a : α) : (.ok a : Except ε α).isOk = true := rfl

@[simp] theorem isOk_error (e : ε) : (.error e : Except ε α).isOk = false := rfl

@[simp] theorem isOk_map (f : α → β) (x : Except ε α) : (x.map f).isOk = x.isOk := by
  cases x <;> rfl

@[simp] theorem toOption_ok (a : α) : (.ok a : Except ε α).toOption = some a := rfl

@[simp] theorem toOption_error (e : ε) : (.error e : Except ε α).toOption = none := rfl

@[simp] theorem toOption_map (f : α → β) (x : Except ε α) :
    (x.map f).toOption = x.toOption.map f := by
  cases x <;> rfl

theorem toOption_bind (x : Except ε α) (f : α → Except ε β) :
    (x >>= f).toOption = x.toOption.bind fun a => (f a).toOption := by
  cases x <;> rfl

theorem toOption_eq_some_iff {x : Except ε α} {a : α} : x.toOption = some a ↔ x = .ok a := by
  cases x <;> simp [Except.toOption]

/-- What goes on from a result has a result itself. -/
theorem Except.exists_of_bind_eq_ok {x : Except ε α} {f : α → Except ε β} {b : β}
    (h : x >>= f = .ok b) : ∃ a, x = .ok a ∧ f a = .ok b := by
  cases x with
  | error e => cases h
  | ok a => exact ⟨a, rfl, h⟩

theorem Except.exists_of_map_eq_ok {x : Except ε α} {f : α → β} {b : β}
    (h : x.map f = .ok b) : ∃ a, x = .ok a ∧ f a = b := by
  cases x with
  | error e => cases h
  | ok a => exact ⟨a, rfl, Except.ok.inj h⟩

/-- What goes on from a result goes on with it. -/
@[simp] theorem Except.ok_bind (a : α) (f : α → Except ε β) :
    (.ok a : Except ε α) >>= f = f a :=
  rfl

/-- The results are the same, or both are failures; and if `P` holds, so are the
reasons of the failures. -/
structure Agree (P : Prop) (x y : Except ε α) : Prop where
  value : x.toOption = y.toOption
  fault : P → x = y

namespace Agree

variable {P : Prop} {x y : Except ε α}

theorem refl (x : Except ε α) : Agree P x x := ⟨rfl, fun _ => rfl⟩

theorem errors {e e' : ε} (h : P → e = e') : Agree P (.error e : Except ε α) (.error e') :=
  ⟨rfl, fun hP => congrArg _ (h hP)⟩

theorem ok_or_errors (h : Agree P x y) :
    (∃ a, x = .ok a ∧ y = .ok a) ∨ ∃ e e', x = .error e ∧ y = .error e' ∧ (P → e = e') := by
  obtain ⟨hvalue, hfault⟩ := h
  cases x with
  | ok a => exact .inl ⟨a, rfl, toOption_eq_some_iff.1 hvalue.symm⟩
  | error e =>
    cases y with
    | ok a => cases hvalue
    | error e' => exact .inr ⟨e, e', rfl, rfl, fun hP => Except.error.inj (hfault hP)⟩

theorem bind {f g : α → Except ε β} (h : Agree P x y) (hfg : ∀ a, x = .ok a → Agree P (f a) (g a)) :
    Agree P (x >>= f) (y >>= g) := by
  rcases h.ok_or_errors with ⟨a, rfl, rfl⟩ | ⟨e, e', rfl, rfl, he⟩
  · exact hfg a rfl
  · exact errors he

theorem mapError {δ : Type} (h : Agree P x y) (f : ε → δ) :
    Agree P (x.mapError f) (y.mapError f) := by
  rcases h.ok_or_errors with ⟨a, rfl, rfl⟩ | ⟨e, e', rfl, rfl, he⟩
  · exact refl _
  · exact errors fun hP => congrArg f (he hP)

end Agree

end

end SchemaTypes
