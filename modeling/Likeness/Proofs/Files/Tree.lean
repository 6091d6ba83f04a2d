import Mathlib.Data.List.Basic
import Likeness.Files.Tree
import Likeness.Proofs.Except
import Likeness.Proofs.Files.Host

/-!
# Likeness.Proofs.Files.Tree

A file tree that is a value is a steady host (`FileTree.steady`): a path along which a file was written
leads to that file from then on.
-/

namespace Likeness.FileTree

variable {t t' : FileTree} {place : List String} {e : FileEntry}

/-! ### Entries -/

theorem find?_insert_self (hplace : place ≠ []) : (t.insert place e).find? place = some e := by
  simp [find?, insert, hplace]

/-- What is looked up among entries of some places. -/
theorem lookup_filter (keep : List String → Bool) {q : List String} (hq : keep q = true)
    (entries : List (List String × FileEntry)) :
    (entries.filter fun e => keep e.1).lookup q = entries.lookup q := by
  induction entries with
  | nil => rfl
  | cons entry entries ih =>
      rw [List.filter_cons, List.lookup_cons]
      cases hkeep : keep entry.1 with
      | true => rw [if_pos rfl, List.lookup_cons, ih]
      | false =>
          have hne : q ≠ entry.1 := fun heq => by rw [← heq, hq] at hkeep; cases hkeep
          rw [if_neg Bool.false_ne_true, ih, beq_false_of_ne hne]

theorem find?_insert_of_ne {other : List String} (h : other ≠ place) :
    (t.insert place e).find? other = t.find? other := by
  by_cases hroot : other = []
  · simp [find?, hroot]
  · rw [find?, if_neg hroot, find?, if_neg hroot, insert, List.lookup_cons, beq_false_of_ne h]
    exact lookup_filter (fun q => q ≠ place) (decide_eq_true h) t.entries

/-! ### Paths -/

/-- A path that could be followed only led through directories, so that it leads to the same place as
long as these are there. -/
theorem follow_mono {base pieces : List String} {g : Target} (h : t.follow base pieces = .ok g)
    (hkept : ∀ q, t.find? q = some .directory → t'.find? q = some .directory) :
    t'.follow base pieces = .ok g := by
  induction pieces generalizing base with
  | nil => exact h
  | cons piece rest ih =>
      rw [follow] at h ⊢
      by_cases hdot : piece = "" ∨ piece = "."
      · rw [if_pos hdot] at h ⊢
        exact ih h
      rw [if_neg hdot] at h ⊢
      by_cases hup : piece = ".."
      · rw [if_pos hup] at h ⊢
        exact ih h
      rw [if_neg hup] at h ⊢
      by_cases hlong : longestName < piece.utf8ByteSize
      · rw [if_pos hlong] at h
        cases h
      rw [if_neg hlong] at h ⊢
      by_cases hlast : rest.all (· = "") = true
      · rw [if_pos hlast] at h ⊢
        exact h
      rw [if_neg hlast] at h ⊢
      cases hfind : t.find? (base ++ [piece]) with
      | none =>
          rw [hfind] at h
          cases h
      | some entry =>
          rw [hfind] at h
          cases entry with
          | file content modified => cases h
          | directory =>
              rw [hkept _ hfind]
              exact ih h

theorem target_mono {p : Path} {g : Target} (h : t.target p = .ok g)
    (hkept : ∀ q, t.find? q = some .directory → t'.find? q = some .directory) :
    t'.target p = .ok g := by
  unfold target at h ⊢
  by_cases hempty : p.text = ""
  · rw [if_pos hempty] at h
    cases h
  · rw [if_neg hempty] at h ⊢
    obtain ⟨pieces, hpieces, hfollow⟩ := Except.bind_eq_ok.mp h
    rw [hpieces]
    exact follow_mono hfollow hkept

/-- A path leads to the same place after something other than a directory was replaced. -/
theorem target_insert {p : Path} {g : Target} (h : t.target p = .ok g)
    (hplace : t.find? place ≠ some .directory) : (t.insert place e).target p = .ok g := by
  refine target_mono h fun q hq => ?_
  have hne : q ≠ place := by
    rintro rfl
    exact hplace hq
  rwa [find?_insert_of_ne hne]

/-! ### Writing -/

/-- What is written is put where the path leads, which is not a directory. -/
theorem write_eq_ok {p : Path} {content : ByteArray} (h : t.write p content = .ok t') :
    ∃ g, t.target p = .ok g ∧ g.asDirectory = false ∧ t.find? g.place ≠ some .directory ∧
      t' = t.insert g.place (.written content t.time) := by
  unfold write at h
  obtain ⟨g, htarget, h⟩ := Except.bind_eq_ok.mp h
  refine ⟨g, htarget, ?_⟩
  cases hfind : t.find? g.place with
  | none =>
      rw [hfind] at h
      cases hdirectory : g.asDirectory with
      | true =>
          simp only [hdirectory, if_true] at h
          cases h
      | false =>
          simp only [hdirectory, Bool.false_eq_true, if_false] at h
          exact ⟨rfl, nofun, (Except.ok.inj h).symm⟩
  | some entry =>
      rw [hfind] at h
      cases entry with
      | directory => cases h
      | file old modified =>
          cases hdirectory : g.asDirectory with
          | true =>
              simp only [hdirectory, if_true] at h
              cases h
          | false =>
              simp only [hdirectory, Bool.false_eq_true, if_false] at h
              exact ⟨rfl, nofun, (Except.ok.inj h).symm⟩

/-- What a path leads to, when that is a file. -/
theorem look_file {p : Path} {g : Target} {content : ByteArray} {modified : Moment}
    (htarget : t.target p = .ok g) (hdirectory : g.asDirectory = false)
    (hfind : t.find? g.place = some (.file content modified)) :
    Host.look t p = (some .file, .ok content) := by
  have hkind : t.kind? p = some .file := by
    simp [kind?, htarget, hfind, hdirectory]
  have hread : t.read p = .ok content := by
    simp [read, htarget, hfind, hdirectory, bind, Except.bind, pure, Except.pure]
  exact Prod.ext hkind hread

/-- **What was written is there.** -/
theorem look_write {p : Path} {content : ByteArray} (h : t.write p content = .ok t') :
    Host.look t' p = (some .file, .ok content) := by
  obtain ⟨g, htarget, hdirectory, hfind, rfl⟩ := write_eq_ok h
  have hplace : g.place ≠ [] := by
    intro hroot
    rw [hroot] at hfind
    exact hfind rfl
  exact look_file (target_insert htarget hfind) hdirectory (find?_insert_self hplace)

theorem run_change_ok {f : FileTree → Except FileFault FileTree} (h : f t = .ok t') :
    (change f).run t = (.ok (), t') := by
  rw [change, StateT.run_modifyGet, h]
  rfl

theorem run_change_error {f : FileTree → Except FileFault FileTree} {fault : FileFault}
    (h : f t = .error fault) : (change f).run t = (.error fault, t) := by
  rw [change, StateT.run_modifyGet, h]
  rfl

/-- An operation changes the tree as it should, or leaves it as it is. -/
theorem change_cases (f : FileTree → Except FileFault FileTree) (t : FileTree) :
    ((change f).run t).2 = t ∨ f t = .ok ((change f).run t).2 := by
  cases hf : f t with
  | ok t' =>
      rw [run_change_ok hf]
      exact .inr rfl
  | error fault =>
      rw [run_change_error hf]
      exact .inl rfl

/-- An operation that changed the tree succeeded. -/
theorem eq_ok_of_change {f : FileTree → Except FileFault FileTree}
    (h : (change f).run t = (.ok (), t')) : f t = .ok t' := by
  cases hf : f t with
  | ok t'' =>
      rw [run_change_ok hf] at h
      exact congrArg Except.ok (Prod.mk.inj h).2
  | error e =>
      rw [run_change_error hf] at h
      cases (Prod.mk.inj h).1

/-- The text in what was read of a file. -/
def textOf (answer : Except FileFault ByteArray) : Except FileFault String :=
  answer.bind fun bytes => (Text.Utf8.decode bytes).mapError fun _ =>
    .other "stream did not contain valid UTF-8"

/-- Text is read without changing the tree. -/
theorem run_readText (p : Path) (t : FileTree) :
    (Host.readText p : StateM FileTree _).run t = (textOf (t.read p), t) := by
  rw [Host.readText, Host.run_bind_eq (show (Host.read p : StateM FileTree _).run t = (t.read p, t)
    from rfl)]
  cases t.read p <;> rfl

/-- A file tree is a steady host. -/
theorem steady (p : Path) : Host.Steady FileTree p where
  kind? _ := rfl
  read _ := rfl
  ticks _ := rfl
  write _ _ _ h := look_write (eq_ok_of_change h)

end Likeness.FileTree
