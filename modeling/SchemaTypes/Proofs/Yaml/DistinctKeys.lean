/-
# Keys of mappings are distinct

A YAML mapping becomes an object that is collected as one of a JSON text is,
so no key comes twice in it, and a scalar becomes a value with nothing inside.
An alias is followed to a node that is made into a value like any other. The
induction is on how many collections may still be inside each other.

Key definitions: `Yaml.MakesDistinct`.
Key theorems: `Yaml.distinctKeys_of_parse`.
-/
import SchemaTypes.Proofs.Json.DistinctKeys
import SchemaTypes.Yaml.Value

namespace SchemaTypes.Yaml

open Json (DistinctKeys distinctKeys_flat)

/-! ### Scalars -/

/-- If there is a value, there is nothing inside of it. -/
def IsFlat (x : Except Fault Json) : Prop :=
  ∀ v, x = .ok v → v.keys = [] ∧ v.inside = []

theorem isFlat_error (e : Fault) : IsFlat (.error e) :=
  nofun

theorem isFlat_ok {v : Json} (hkeys : v.keys = []) (h : v.inside = []) : IsFlat (.ok v) := by
  intro w hw
  cases hw
  exact ⟨hkeys, h⟩

theorem isFlat_ite {p : Prop} [Decidable p] {x y : Except Fault Json} (hx : IsFlat x)
    (hy : IsFlat y) : IsFlat (if p then x else y) := by
  by_cases hp : p
  · rw [if_pos hp]
    exact hx
  · rw [if_neg hp]
    exact hy

theorem isFlat_float {x : FloatReading} {v : Json} (h : x.value? = some v) : IsFlat (.ok v) := by
  cases x with
  | finite x => cases h; exact isFlat_ok rfl rfl
  | notFinite => cases h; exact isFlat_ok rfl rfl
  | none => cases h

theorem isFlat_plainValue (text : String) : IsFlat (plainValue text) := by
  unfold plainValue
  refine isFlat_ite (isFlat_ok rfl rfl) ?_
  cases boolean? text with
  | some b => exact isFlat_ok rfl rfl
  | none =>
    cases readInteger text with
    | number n => exact isFlat_ok rfl rfl
    | tooLarge => exact isFlat_error _
    | none =>
      refine isFlat_ite (isFlat_ok rfl rfl) ?_
      cases hfloat : (readFloat text).value? with
      | some v => exact isFlat_float hfloat
      | none => exact isFlat_ok rfl rfl

/-- There is nothing inside of the value of a scalar. -/
theorem isFlat_scalarValue (tag : Option TagText) (isPlain : Bool) (text : String) :
    IsFlat (scalarValue tag isPlain text) := by
  cases tag with
  | none => exact isFlat_ite (isFlat_plainValue text) (isFlat_ok rfl rfl)
  | some t =>
    refine isFlat_ite (isFlat_error _) ?_
    refine isFlat_ite ?bool (isFlat_ite ?int (isFlat_ite ?float ?other))
    case bool =>
      cases boolean? text with
      | some b => exact isFlat_ok rfl rfl
      | none => exact isFlat_error _
    case int =>
      cases readInteger text with
      | number n => exact isFlat_ok rfl rfl
      | _ => exact isFlat_error _
    case float =>
      cases hv : (readFloat text).value? with
      | some v => exact isFlat_float hv
      | none => exact isFlat_error _
    case other =>
      refine isFlat_ite (isFlat_ite (isFlat_ok rfl rfl) (isFlat_error _)) ?_
      exact isFlat_ite (isFlat_plainValue text) (isFlat_ok rfl rfl)

/-! ### Nodes -/

section

variable {α β : Type} {k k' : Nat}

theorem exists_of_bind_eq_ok {x : Make α} {f : α → Make β} {b : β}
    (h : (x >>= f) k = .ok (b, k')) : ∃ a k₁, x k = .ok (a, k₁) ∧ f a k₁ = .ok (b, k') := by
  obtain ⟨⟨a, k₁⟩, hx, h⟩ := Except.exists_of_bind_eq_ok h
  exact ⟨a, k₁, hx, h⟩

/-- What is made of a list is made of its entries. -/
theorem exists_of_mapM_eq_ok {f : α → Make β} {l : List α} {bs : List β}
    (h : l.mapM f k = .ok (bs, k')) : ∀ b ∈ bs, ∃ a ∈ l, ∃ k₁ k₂, f a k₁ = .ok (b, k₂) := by
  induction l generalizing k bs with
  | nil => cases h; nofun
  | cons a l ih =>
    rw [List.mapM_cons] at h
    obtain ⟨b, k₁, hb, h⟩ := exists_of_bind_eq_ok h
    obtain ⟨bs', k₂, hbs, h⟩ := exists_of_bind_eq_ok h
    cases h
    intro b' hb'
    rcases List.mem_cons.1 hb' with rfl | hb'
    · exact ⟨a, List.mem_cons_self, k, k₁, hb⟩
    · obtain ⟨a', ha', h⟩ := ih hbs b' hb'
      exact ⟨a', List.mem_cons_of_mem _ ha', h⟩

end

/-- What is made has no key twice. -/
def MakesDistinct (work : Make Json) : Prop :=
  ∀ k v k', work k = .ok (v, k') → DistinctKeys v

/-- The value of a node has no key twice if the values inside of it have
none. -/
theorem makesDistinct_valueWith {anchors : Anchors} {inner : Option (Node → Make Json)}
    (hinner : ∀ value, inner = some value → ∀ n, MakesDistinct (value n)) (n : Node) :
    MakesDistinct (n.valueWith anchors inner) := by
  intro k v k' h
  unfold Node.valueWith at h
  obtain ⟨target, k₁, -, h⟩ := exists_of_bind_eq_ok h
  cases target with
  | scalar tag isPlain text =>
    have hflat := isFlat_scalarValue tag isPlain text
    cases hs : scalarValue tag isPlain text with
    | error e =>
      simp only [hs] at h
      cases h
    | ok w =>
      simp only [hs] at h
      cases h
      obtain ⟨hkeys, hinside⟩ := hflat _ hs
      exact distinctKeys_flat hkeys hinside
  | sequence tag items =>
    simp only at h
    split at h
    · cases h
    · cases inner with
      | none => cases h
      | some value =>
        obtain ⟨vs, k₂, hvs, h⟩ := exists_of_bind_eq_ok h
        cases h
        refine Json.distinctKeys_array fun v hv => ?_
        obtain ⟨n, -, k₁, k₂, hn⟩ := exists_of_mapM_eq_ok hvs v hv
        exact hinner value rfl n _ _ _ hn
  | mapping tag pairs =>
    simp only at h
    split at h
    · cases h
    · cases inner with
      | none => cases h
      | some value =>
        obtain ⟨ms, k₂, hms, h⟩ := exists_of_bind_eq_ok h
        cases h
        refine Json.distinctKeys_collect fun m hm => ?_
        obtain ⟨p, -, k₁, k₂, hp⟩ := exists_of_mapM_eq_ok hms m hm
        obtain ⟨key, k₃, -, hp⟩ := exists_of_bind_eq_ok hp
        obtain ⟨v, k₄, hv, hp⟩ := exists_of_bind_eq_ok hp
        cases hp
        exact hinner value rfl p.2 _ _ _ hv
  | aliasOf slot => cases h

theorem makesDistinct_value (anchors : Anchors) (depth : Nat) :
    ∀ n, MakesDistinct (Node.value anchors depth n) := by
  induction depth with
  | zero => exact makesDistinct_valueWith nofun
  | succ depth ih =>
    refine makesDistinct_valueWith fun value hvalue => ?_
    cases hvalue
    exact ih

/-- **What is read from a YAML text has no key twice.** -/
theorem distinctKeys_of_parse {text : String} {v : Json} (h : parse text = .ok v) :
    DistinctKeys v := by
  obtain ⟨ts, -, h⟩ := Except.exists_of_bind_eq_ok h
  obtain ⟨⟨root, anchors⟩, -, h⟩ := Except.exists_of_bind_eq_ok h
  obtain ⟨⟨v', k⟩, hv, h⟩ := Except.exists_of_bind_eq_ok h
  cases h
  exact makesDistinct_value anchors maxDepth root _ _ _ hv

end SchemaTypes.Yaml
