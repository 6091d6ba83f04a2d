import Likeness.Proofs.Files.Growth
import Likeness.Proofs.Store.File

/-!
# Likeness.Proofs.Store.Placement

The store in a file of a file tree: where it changes the tree, and what it finds there.

A save makes room for the file and writes it (`FileStore.save_cases_tree`). All that opening and saving
change lies at the places of the store (`FileStore.places`), and if a save fails, what could be read
before is read as before. The records that a store starts with are those that are seen at its path
(`FileStore.recordsIn`), or none, if it cannot be opened.
-/

namespace Likeness

open FileTree

namespace FileStore

variable {p : Path} {s s' : FileStore} {t u v : FileTree}

/-- The places where the store in a file may change a file tree, or that decide what its path shows. -/
def places (p : Path) : List (List String) := trail p ++ (p.parent?.map trail).getD []

/-! ### Room -/

/-- The second tree is the first after room was made for the file of a store. -/
structure Roomier (p : Path) (t u : FileTree) : Prop where
  grown : Grown (t.vacant (places p)) t u
  files : ∀ q content modified, u.find? q = some (.file content modified) →
    t.find? q = some (.file content modified)

theorem Roomier.refl (p : Path) (t : FileTree) : Roomier p t t := ⟨.refl _ t, fun _ _ _ h => h⟩

/-- A file that can be read is left as it is. -/
theorem Roomier.look_eq (h : Roomier p t u) {q : Path} {content : ByteArray}
    (hread : t.read q = .ok content) : Host.look u q = (some .file, .ok content) := by
  obtain ⟨g, modified, htarget, hdirectory, hfind⟩ := read_eq_ok hread
  obtain ⟨e, hfind', hkind⟩ := h.grown.kinds _ _ hfind
  cases e with
  | directory => cases hkind
  | file content' modified' =>
      rw [h.files _ _ _ hfind'] at hfind
      cases hfind
      exact look_file (target_mono htarget fun q hq => h.grown.directory hq) hdirectory hfind'

theorem roomier_of_makeDirectories {d : Path} (hparent : p.parent? = some d)
    (h : t.makeDirectories d = .ok u) : Roomier p t u := by
  obtain ⟨-, hgrown, -, hfiles⟩ := makeDirectories_eq_ok h
  refine ⟨hgrown.mono fun q hq => ?_, hfiles⟩
  obtain ⟨hmem, hnone⟩ := List.mem_filter.mp hq
  refine mem_vacant.mpr ⟨List.mem_append_right _ ?_, ?_⟩
  · rw [hparent]
    exact hmem
  · rw [Option.isNone_iff_eq_none.mp hnone]
    nofun

/-- Room is made, or the tree is left as it is. -/
theorem makeRoom_cases (p : Path) (t : FileTree) :
    (∃ f, (makeRoom p : StateM FileTree _).run t = (.error f, t)) ∨
      ∃ u, (makeRoom p : StateM FileTree _).run t = (.ok (), u) ∧ Roomier p t u := by
  unfold makeRoom
  split
  · exact .inr ⟨t, rfl, .refl p t⟩
  next d hparent =>
    split
    · exact .inr ⟨t, rfl, .refl p t⟩
    · cases hmade : t.makeDirectories d with
      | error f => exact .inl ⟨f, run_change_error hmade⟩
      | ok u => exact .inr ⟨u, run_change_ok hmade, roomier_of_makeDirectories hparent hmade⟩

/-! ### Saving -/

/-- A file that can be read can be written. -/
theorem write_of_read {content : ByteArray} (h : t.read p = .ok content) (new : ByteArray) :
    ∃ u, t.write p new = .ok u := by
  obtain ⟨g, modified, htarget, hdirectory, hfind⟩ := read_eq_ok h
  refine ⟨t.insert g.place (.written new t.time), ?_⟩
  rw [write, htarget]
  simp only [bind, Except.bind, hfind, hdirectory, Bool.false_eq_true, if_false]
  rfl

/-- A save makes room and writes the records. If it fails there is nothing to be read at the path, unless
the tree was left as it was. -/
theorem save_cases_tree (s : FileStore) (t : FileTree) : ∃ u, Roomier s.path t u ∧
    (((u = t ∨ ∀ content, u.read s.path ≠ .ok content) ∧
        ∃ f, (s.save : StateM FileTree _).run t = ((.error f, s), u)) ∨
      ∃ u', u.write s.path (StoreDocument.ofRecords s.records).toUTF8 = .ok u' ∧
        (s.save : StateM FileTree _).run t = ((.ok (), s.saved 0), u')) := by
  rcases makeRoom_cases s.path t with ⟨f, hroom⟩ | ⟨u, hroom, hroomier⟩
  · refine ⟨t, .refl _ t, .inl ⟨.inl rfl, .writeFailed s.path f, ?_⟩⟩
    rw [save, Host.run_bind_eq hroom]
    rfl
  · refine ⟨u, hroomier, ?_⟩
    cases hwrite : u.write s.path (StoreDocument.ofRecords s.records).toUTF8 with
    | error f =>
        have hwritten : (Host.writeText s.path (StoreDocument.ofRecords s.records) :
            StateM FileTree _).run u = (.error f, u) := run_change_error hwrite
        refine .inl ⟨.inr fun content hread => ?_, .writeFailed s.path f, ?_⟩
        · obtain ⟨u', hwrite'⟩ := write_of_read hread (StoreDocument.ofRecords s.records).toUTF8
          rw [hwrite] at hwrite'
          cases hwrite'
        · rw [save, Host.run_bind_eq hroom]
          dsimp only
          rw [Host.run_bind_eq hwritten]
          rfl
    | ok u' =>
        have hwritten : (Host.writeText s.path (StoreDocument.ofRecords s.records) :
            StateM FileTree _).run u = (.ok (), u') := run_change_ok hwrite
        refine .inr ⟨u', rfl, ?_⟩
        rw [save, Host.run_bind_eq hroom]
        dsimp only
        rw [Host.run_bind_eq hwritten]
        rfl

/-- A save changes the tree at the places of the store. -/
theorem grown_save (s : FileStore) (t : FileTree) :
    Grown (t.vacant (places s.path)) t ((s.save : StateM FileTree _).run t).2 := by
  obtain ⟨u, hroom, ⟨-, f, hsave⟩ | ⟨u', hwrite, hsave⟩⟩ := save_cases_tree s t
  · rw [hsave]
    exact hroom.grown
  · rw [hsave]
    obtain ⟨hgrown, hplace⟩ := grown_write hwrite
    refine hroom.grown.trans (hgrown.mono fun q hq => ?_)
    rw [List.mem_singleton.mp hq]
    obtain ⟨hmem, hfree⟩ := mem_vacant.mp (hroom.grown.mem_vacant hplace)
    exact mem_vacant.mpr ⟨List.mem_append_left _ hmem, hfree⟩

/-! ### Opening -/

/-- The records in what was read of a file. -/
def readRecords (p : Path) (answer : Except FileFault ByteArray) : Except StoreFault Records :=
  match textOf answer with
  | .error f => .error (.unavailable ("cannot read " ++ p.text ++ ": " ++ f.message))
  | .ok text => recordsOf p text

/-- The records that are seen at a path, if what is there can be read as records. -/
def recordsIn (p : Path) (seen : Option FileKind × Except FileFault ByteArray) : Records :=
  match seen.1 with
  | none => .empty
  | some _ => (readRecords p seen.2).toOption.getD .empty

theorem Backed.recordsIn_eq (h : s.Backed t) : recordsIn s.path (Host.look t s.path) = s.records := by
  obtain ⟨kind, content, text, hlook, hdecode, hrecords⟩ := h
  have hread : readRecords s.path (.ok content) = .ok s.records := by
    rw [readRecords, textOf, Except.bind, hdecode]
    exact hrecords
  rw [hlook, recordsIn]
  dsimp only
  rw [hread]
  rfl

theorem recordsIn_of_unread (h : ∀ content, t.read p ≠ .ok content) :
    recordsIn p (Host.look t p) = .empty := by
  have hlook : Host.look t p = (t.kind? p, t.read p) := rfl
  rw [hlook]
  cases hread : t.read p with
  | ok content => exact absurd hread (h content)
  | error f => cases t.kind? p <;> rfl

/-- What opening a store comes to where something is there. -/
theorem run_open_there {kind : FileKind} (h : t.kind? p = some kind) (interval : Nat) :
    (open? p interval : StateM FileTree _).run t =
      ((readRecords p (t.read p)).map fun rs => ⟨p, rs, interval, 0, false⟩, t) := by
  rw [open?, Host.run_bind_eq (show (Host.ticks : StateM FileTree _).run t = (0, t) from rfl)]
  dsimp only
  rw [Host.run_bind_eq (show (Host.exists? p : StateM FileTree _).run t = ((t.kind? p).isSome, t)
    from rfl), h, if_pos (show (some kind).isSome = true from rfl),
    Host.run_bind_eq (run_readText p t), readRecords]
  cases textOf (t.read p) <;> rfl

/-- What opening a store comes to where nothing is there. -/
theorem run_open_missing (h : t.kind? p = none) {interval : Nat} {written : Except StoreFault Unit}
    (hsave : ((FileStore.mk p .empty interval 0 false).save : StateM FileTree _).run t =
      ((written, s), u)) :
    (open? p interval : StateM FileTree _).run t = (written.map fun _ => s, u) := by
  rw [open?, Host.run_bind_eq (show (Host.ticks : StateM FileTree _).run t = (0, t) from rfl)]
  dsimp only
  rw [Host.run_bind_eq (show (Host.exists? p : StateM FileTree _).run t = ((t.kind? p).isSome, t)
    from rfl), h, if_neg (by decide), Host.run_bind_eq hsave]
  rfl

/-- A store that is opened starts with the records that are seen at its path. If it cannot be opened, no
records are seen there, neither before nor afterwards. -/
theorem open_cases_tree (p : Path) (interval : Nat) (t : FileTree) :
    (∃ s u, (open? p interval : StateM FileTree _).run t = (.ok s, u) ∧
      Grown (t.vacant (places p)) t u ∧ s.Sound p u ∧ s.dirty = false ∧
      s.records = recordsIn p (Host.look t p)) ∨
    ∃ f u, (open? p interval : StateM FileTree _).run t = (.error f, u) ∧ Roomier p t u ∧
      recordsIn p (Host.look t p) = .empty ∧ recordsIn p (Host.look u p) = .empty := by
  have hlook : Host.look t p = (t.kind? p, t.read p) := rfl
  cases hkind : t.kind? p with
  | none =>
      have hnone : recordsIn p (Host.look t p) = .empty := by
        rw [hlook, hkind]
        rfl
      have hgrown := grown_save (FileStore.mk p .empty interval 0 false) t
      obtain ⟨u, hroom, ⟨hunread, f, hsave⟩ | ⟨u', hwrite, hsave⟩⟩ :=
        save_cases_tree (FileStore.mk p .empty interval 0 false) t
      · refine .inr ⟨f, u, run_open_missing hkind hsave, hroom, hnone, ?_⟩
        rcases hunread with rfl | hunread
        · exact hnone
        · exact recordsIn_of_unread hunread
      · rw [hsave] at hgrown
        have hopen := run_open_missing hkind hsave
        obtain ⟨hsound, hclean⟩ := sound_of_open (steady p) hopen
        exact .inl ⟨_, u', hopen, hgrown, hsound, hclean, hnone.symm⟩
  | some kind =>
      have hopen := run_open_there hkind interval
      have hrecords : recordsIn p (Host.look t p) =
          (readRecords p (t.read p)).toOption.getD .empty := by rw [hlook, hkind, recordsIn]
      cases hread : readRecords p (t.read p) with
      | error f =>
          rw [hread] at hopen hrecords
          exact .inr ⟨f, t, hopen, .refl p t, hrecords, hrecords⟩
      | ok rs =>
          rw [hread] at hopen hrecords
          obtain ⟨hsound, hclean⟩ := sound_of_open (steady p) hopen
          exact .inl ⟨_, t, hopen, .refl _ t, hsound, hclean, hrecords.symm⟩

end FileStore

end Likeness
