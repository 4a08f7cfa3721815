/-
# What a write changes in a tree of files

Where a path leads is a matter of the folders alone: the files have a say only
in why a path leads nowhere, and there only by being there or not. So two trees
that differ in the file at one place differ for no path that leads elsewhere
(`FileTree.SameBut`, `FileTree.bytesAt_agree`), and to write both at that place
makes them the same.

Key definitions: `FileTree.contents`, `FileTree.LeadsTo`, `FileTree.SameBut`,
`FileTree.Written`.
Key theorems: `FileTree.written_of_write`, `FileTree.locate_agree`,
`FileTree.read_agree`, `FileTree.write_agree`.
-/
import SchemaTypes.FileTree
import SchemaTypes.Proofs.Except

namespace SchemaTypes

/-- The bytes of a text are that text again. -/
theorem textOfBytes_toUTF8 (text : String) : textOfBytes text.toUTF8 = .ok text := by
  have htext : String.fromUTF8? text.toUTF8 = some text := by
    simp [String.fromUTF8?, String.fromUTF8, text.isValidUTF8]
  rw [textOfBytes, htext]

namespace FileTree

/-- The bytes of the file at a place. -/
def contents (t : FileTree) (p : Place) : Option ByteArray :=
  Entries.find? p.text t.files

/-- The path leads to the file at the place. -/
def LeadsTo (t : FileTree) (path : String) (p : Place) : Prop :=
  ∃ q, t.locate path = .ok q ∧ q.text = p.text

/-- The trees have the same folders and, but for the one at the place, the same
files. -/
structure SameBut (p : Place) (t u : FileTree) : Prop where
  folders : t.folders = u.folders
  files : ∀ q : Place, q.text ≠ p.text → t.contents q = u.contents q

/-- The tree `t` has become `t'` by the text having been written into the file
that the path leads to. -/
structure Written (path text : String) (t t' : FileTree) (p : Place) : Prop where
  place : t.locate path = .ok p
  contents : t'.contents p = some text.toUTF8
  read : t'.read path = .ok text
  rest : t.SameBut p t'

variable {P : Prop} {t u t' : FileTree} {p : Place} {path text : String}

/-! ### Where paths lead, and what is there -/

theorem SameBut.isFolderAt (h : t.SameBut p u) (q : Place) : t.isFolderAt q = u.isFolderAt q := by
  rw [FileTree.isFolderAt, FileTree.isFolderAt, h.folders]

section

-- The reasons why paths lead nowhere are compared only if the file at the place
-- is in both trees or in neither.
variable (h : t.SameBut p u) (hP : P → (t.contents p).isSome = (u.contents p).isSome)
include h hP

theorem enter_agree (q : Place) : Agree P (t.enter q) (u.enter q) := by
  unfold enter
  rw [h.isFolderAt q]
  by_cases hfolder : u.isFolderAt q = true
  · rw [if_pos hfolder, if_pos hfolder]
    exact .refl _
  · rw [if_neg hfolder, if_neg hfolder]
    have hthere : P → (t.contents q).isSome = (u.contents q).isSome := by
      intro hholds
      by_cases hq : q.text = p.text
      · have hcontents : ∀ t : FileTree, t.contents q = t.contents p := by
          intro t
          rw [contents, contents, hq]
        rw [hcontents, hcontents]
        exact hP hholds
      · rw [h.files q hq]
    show Agree P (if (t.contents q).isSome then .error FileFault.notFolder else .error .notFound)
      (if (u.contents q).isSome then .error FileFault.notFolder else .error .notFound)
    cases ht : (t.contents q).isSome <;> cases hu : (u.contents q).isSome
    · exact .refl _
    · exact .errors fun hholds => by simpa [ht, hu] using hthere hholds
    · exact .errors fun hholds => by simpa [ht, hu] using hthere hholds
    · exact .refl _

theorem walk_agree (q : Place) (names : List String) :
    Agree P (t.walk q names) (u.walk q names) := by
  match names with
  | [] => exact .refl _
  | [name] => exact .refl _
  | name :: name' :: names =>
    refine Agree.bind (.refl _) fun q' _ => ?_
    exact Agree.bind (enter_agree h hP q') fun q'' _ => walk_agree q'' (name' :: names)

/-- Trees that differ in one file agree on where paths lead. -/
theorem locate_agree (path : String) : Agree P (t.locate path) (u.locate path) := by
  unfold locate
  split
  · exact .refl _
  · exact walk_agree h hP _ _

/-- Trees that differ in one file agree on what is in the others. -/
theorem bytesAt_agree (hpath : ¬ t.LeadsTo path p) :
    Agree P (t.bytesAt path) (u.bytesAt path) := by
  refine Agree.bind (locate_agree h hP path) fun q hq => ?_
  have hfile : Entries.find? q.text t.files = Entries.find? q.text u.files :=
    h.files q fun htext => hpath ⟨q, hq, htext⟩
  rw [h.isFolderAt q, hfile]
  exact .refl _

theorem read_agree (hpath : ¬ t.LeadsTo path p) :
    Agree P (t.read path) (u.read path) :=
  Agree.bind (bytesAt_agree h hP hpath) fun _ _ => .refl _

end

theorem locate_of_sameBut (h : t.SameBut p u) {q : Place} (hq : t.locate path = .ok q) :
    u.locate path = .ok q := by
  have hagree : Agree False (t.locate path) (u.locate path) := locate_agree h False.elim path
  rw [← toOption_eq_some_iff, ← hagree.value, hq]
  rfl

theorem isFile_of_sameBut (h : t.SameBut p u) (hpath : ¬ t.LeadsTo path p) :
    t.isFile path = u.isFile path := by
  have hagree : Agree False (t.bytesAt path) (u.bytesAt path) := bytesAt_agree h False.elim hpath
  rw [isFile, isFile]
  rcases hagree.ok_or_errors with ⟨b, ht, hu⟩ | ⟨e, e', ht, hu, -⟩
  · rw [ht, hu]
  · rw [ht, hu]
    rfl

/-! ### Writing -/

theorem write_of_locate (hp : t.locate path = .ok p) (text : String) :
    t.write path text = if t.isFolderAt p || asksForFolder path then .error .isFolder
      else .ok { t with files := Entries.put p.text text.toUTF8 t.files } := by
  rw [write, hp, Except.ok_bind]
  split <;> rfl

/-- A write puts the text into the file that the path leads to, and changes
nothing else. -/
theorem written_of_write (h : t.write path text = .ok t') : ∃ p, Written path text t t' p := by
  obtain ⟨p, hp, -⟩ := Except.exists_of_bind_eq_ok h
  rw [write_of_locate hp] at h
  split at h
  · cases h
  · rename_i hfree
    rw [Bool.or_eq_true, not_or] at hfree
    obtain ⟨hfolder, hasks⟩ := hfree
    cases h
    have hrest : t.SameBut p { t with files := Entries.put p.text text.toUTF8 t.files } :=
      ⟨rfl, fun q hq => (Entries.find?_put_of_ne hq).symm⟩
    have hcontents : Entries.find? p.text (Entries.put p.text text.toUTF8 t.files) =
        some text.toUTF8 := Entries.find?_put_self _ _ _
    have hbytes : bytesAt { t with files := Entries.put p.text text.toUTF8 t.files } path =
        .ok text.toUTF8 := by
      rw [bytesAt, locate_of_sameBut hrest hp, Except.ok_bind, ← hrest.isFolderAt p, if_neg hfolder,
        hcontents]
      exact if_neg hasks
    refine ⟨p, hp, hcontents, ?_, hrest⟩
    rw [read, hbytes, Except.ok_bind, textOfBytes_toUTF8]

/-- Trees that differ in the file that is written differ in nothing after
that. -/
theorem write_agree (h : t.SameBut p u) (hp : t.locate path = .ok p) (text : String) :
    (∃ e, t.write path text = .error e ∧ u.write path text = .error e) ∨
      ∃ t' u', t.write path text = .ok t' ∧ u.write path text = .ok u' ∧ t'.SameBut p u' ∧
        t'.contents p = u'.contents p := by
  rw [write_of_locate hp, write_of_locate (locate_of_sameBut h hp), h.isFolderAt p]
  split
  · exact .inl ⟨_, rfl, rfl⟩
  · refine .inr ⟨_, _, rfl, rfl, ⟨h.folders, fun q hq => ?_⟩, ?_⟩
    · calc Entries.find? q.text (Entries.put p.text text.toUTF8 t.files)
          _ = t.contents q := Entries.find?_put_of_ne hq
          _ = u.contents q := h.files q hq
          _ = _ := (Entries.find?_put_of_ne hq).symm
    · rw [contents, contents, Entries.find?_put_self, Entries.find?_put_self]

end FileTree
end SchemaTypes
