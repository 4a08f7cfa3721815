/-
# Named entries in order

A list of named values in which a name keeps the place where it first came:
giving it a new value replaces the old one there. `names` lists the names,
and `put` never makes a name occur twice.

Key definitions: `Entries.put`, `Entries.find?`, `Entries.erase`,
`Entries.collect`.
Key theorems: `Entries.find?_eq_some_iff`, `Entries.collect_of_nodup`,
`Entries.nodup_put`, `Entries.nodup_erase`, `Entries.nodup_collect`.
-/

namespace SchemaTypes

/-- Named values, in order. -/
abbrev Entries (α : Type) := List (String × α)

namespace Entries

variable {α : Type}

/-- The names, in order. -/
def names (es : Entries α) : List String :=
  es.map Prod.fst

/-- The value of the first entry with this name. -/
def find? (name : String) : Entries α → Option α
  | [] => none
  | (n, a) :: es => if n = name then some a else find? name es

/-- Replaces the value of a name in place, or adds the name at the end. -/
def put (name : String) (value : α) : Entries α → Entries α
  | [] => [(name, value)]
  | (n, a) :: es => if n = name then (n, value) :: es else (n, a) :: put name value es

/-- The entries without the name; the others keep their order. -/
def erase (name : String) (es : Entries α) : Entries α :=
  es.filter fun e => e.1 != name

/-- Puts entries one after another: of a repeated name the first place and
the last value stay. -/
def collect (new : List (String × α)) (es : Entries α) : Entries α :=
  new.foldl (fun acc e => put e.1 e.2 acc) es

theorem mem_names_put {name n : String} {value : α} {es : Entries α} :
    n ∈ names (put name value es) ↔ n = name ∨ n ∈ names es := by
  induction es with
  | nil => simp [put, names]
  | cons e es ih =>
    obtain ⟨k, a⟩ := e
    simp only [put, names, List.map_cons, List.mem_cons] at ih ⊢
    split
    · rename_i hk
      subst hk
      simp
    · simp only [List.map_cons, List.mem_cons, ih]
      constructor
      · rintro (h | h | h) <;> simp [h]
      · rintro (h | h | h) <;> simp [h]

theorem mem_of_find? {name : String} {value : α} {es : Entries α}
    (h : find? name es = some value) : (name, value) ∈ es := by
  induction es with
  | nil => cases h
  | cons e es ih =>
    obtain ⟨k, a⟩ := e
    unfold find? at h
    split at h
    · rename_i hk
      cases h
      exact hk ▸ List.mem_cons_self
    · exact List.mem_cons_of_mem _ (ih h)

theorem mem_names_of_find? {name : String} {value : α} {es : Entries α}
    (h : find? name es = some value) : name ∈ names es :=
  List.mem_map_of_mem (mem_of_find? h)

theorem exists_find?_of_mem_names {name : String} {es : Entries α} (h : name ∈ names es) :
    ∃ value, find? name es = some value := by
  induction es with
  | nil => cases h
  | cons e es ih =>
    obtain ⟨k, a⟩ := e
    unfold find?
    split
    · exact ⟨a, rfl⟩
    · rename_i hk
      exact ih ((List.mem_cons.1 h).resolve_left (Ne.symm hk))

theorem find?_of_not_mem {name : String} {es : Entries α} (h : name ∉ names es) :
    find? name es = none :=
  Option.eq_none_iff_forall_ne_some.2 fun _ ha => h (mem_names_of_find? ha)

/-- Where no name comes twice, the entries are what is found. -/
theorem find?_eq_some_iff {name : String} {value : α} {es : Entries α} (h : (names es).Nodup) :
    find? name es = some value ↔ (name, value) ∈ es := by
  refine ⟨mem_of_find?, fun hm => ?_⟩
  induction es with
  | nil => cases hm
  | cons e es ih =>
    obtain ⟨k, a⟩ := e
    have hk : k ∉ names es := (List.nodup_cons.1 h).1
    unfold find?
    split
    · rename_i hk'
      subst hk'
      rcases List.mem_cons.1 hm with hm | hm
      · cases hm
        rfl
      · exact absurd (List.mem_map_of_mem hm) hk
    · rename_i hk'
      refine ih (List.nodup_cons.1 h).2 ((List.mem_cons.1 hm).resolve_left fun he => hk' ?_)
      cases he
      rfl

/-- Where no name comes twice, the order of the entries has no say in what is
found. -/
theorem find?_eq_of_perm {name : String} {es es' : Entries α} (h : (names es).Nodup)
    (hp : es.Perm es') : find? name es = find? name es' := by
  have h' : (names es').Nodup := (hp.map Prod.fst).nodup_iff.1 h
  refine Option.ext fun value => ?_
  rw [find?_eq_some_iff h, find?_eq_some_iff h', hp.mem_iff]

/-- Values under a function are found where they were. -/
theorem find?_map {β : Type} (f : α → β) (name : String) (es : Entries α) :
    find? name (es.map fun e => (e.1, f e.2)) = (find? name es).map f := by
  induction es with
  | nil => rfl
  | cons e es ih =>
    obtain ⟨k, a⟩ := e
    rw [List.map_cons, find?, find?, ih]
    split
    · rfl
    · rfl

theorem names_map {β : Type} (f : α → β) (es : Entries α) :
    names (es.map fun e => (e.1, f e.2)) = names es := by
  rw [names, names, List.map_map]
  rfl

theorem find?_put_self (name : String) (value : α) (es : Entries α) :
    find? name (put name value es) = some value := by
  induction es with
  | nil => simp [put, find?]
  | cons e es ih =>
    obtain ⟨k, a⟩ := e
    unfold put
    split
    · rename_i hk
      simp [find?, hk]
    · rename_i hk
      simp [find?, hk, ih]

theorem find?_put_of_ne {name n : String} {value : α} {es : Entries α} (h : n ≠ name) :
    find? n (put name value es) = find? n es := by
  induction es with
  | nil => simp [put, find?, h.symm]
  | cons e es ih =>
    obtain ⟨k, a⟩ := e
    unfold put
    split
    · rename_i hk
      subst hk
      simp [find?, h.symm]
    · simp [find?, ih]

/-- A new name comes to stand at the end. -/
theorem put_of_not_mem {name : String} {value : α} {es : Entries α} (h : name ∉ names es) :
    put name value es = es ++ [(name, value)] := by
  induction es with
  | nil => rfl
  | cons e es ih =>
    obtain ⟨k, a⟩ := e
    have hk : k ≠ name := fun hk => h (hk ▸ List.mem_cons_self)
    rw [put, if_neg hk, ih fun hm => h (List.mem_cons_of_mem _ hm)]
    rfl

/-- Entries whose names are all new and differ come to stand at the end. -/
theorem collect_of_nodup {new : List (String × α)} {es : Entries α}
    (h : (names (es ++ new)).Nodup) : collect new es = es ++ new := by
  induction new generalizing es with
  | nil => exact (List.append_nil es).symm
  | cons e new ih =>
    have hput : put e.1 e.2 es = es ++ [e] := by
      refine put_of_not_mem fun hm => ?_
      rw [names, List.map_append, List.map_cons] at h
      exact (List.nodup_append.1 h).2.2 e.1 hm e.1 List.mem_cons_self rfl
    rw [List.append_cons] at h ⊢
    rw [← ih h, ← hput]
    rfl

/-- Every value after `put` is the new one or was there before. -/
theorem value_of_mem_put {name : String} {value : α} {es : Entries α} {e : String × α}
    (h : e ∈ put name value es) : e.2 = value ∨ e ∈ es := by
  induction es with
  | nil => exact .inl (List.mem_singleton.1 h ▸ rfl)
  | cons e' es ih =>
    obtain ⟨k, a⟩ := e'
    unfold put at h
    split at h
    · rcases List.mem_cons.1 h with rfl | h
      · exact .inl rfl
      · exact .inr (List.mem_cons_of_mem _ h)
    · rcases List.mem_cons.1 h with rfl | h
      · exact .inr List.mem_cons_self
      · exact (ih h).imp_right (List.mem_cons_of_mem _)

/-- Every value after `collect` is one of the new ones or was there before. -/
theorem value_of_mem_collect {new : List (String × α)} {es : Entries α} {e : String × α}
    (h : e ∈ collect new es) : (∃ e' ∈ new, e.2 = e'.2) ∨ e ∈ es := by
  induction new generalizing es with
  | nil => exact .inr h
  | cons e' new ih =>
    rcases ih h with ⟨e'', he'', hvalue⟩ | h
    · exact .inl ⟨e'', List.mem_cons_of_mem _ he'', hvalue⟩
    · exact (value_of_mem_put h).imp_left fun hvalue => ⟨e', List.mem_cons_self, hvalue⟩

/-- `put` keeps the names distinct. -/
theorem nodup_put {name : String} {value : α} {es : Entries α} (h : (names es).Nodup) :
    (names (put name value es)).Nodup := by
  induction es with
  | nil => simp [put, names]
  | cons e es ih =>
    obtain ⟨k, a⟩ := e
    have hk : k ∉ names es := (List.nodup_cons.1 h).1
    have hes : (names es).Nodup := (List.nodup_cons.1 h).2
    unfold put
    split
    · exact List.nodup_cons.2 ⟨hk, hes⟩
    · rename_i hne
      refine List.nodup_cons.2 ⟨fun hm => ?_, ih hes⟩
      rcases mem_names_put.1 hm with hm | hm
      · exact hne hm
      · exact hk hm

/-- `erase` keeps the names distinct. -/
theorem nodup_erase {name : String} {es : Entries α} (h : (names es).Nodup) :
    (names (erase name es)).Nodup :=
  h.sublist (List.Sublist.map _ List.filter_sublist)

/-- `collect` keeps the names distinct. -/
theorem nodup_collect {new : List (String × α)} {es : Entries α} (h : (names es).Nodup) :
    (names (collect new es)).Nodup := by
  induction new generalizing es with
  | nil => exact h
  | cons e new ih => exact ih (nodup_put h)

end Entries
end SchemaTypes
