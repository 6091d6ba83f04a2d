import Likeness.Proofs.Files.Paths

/-!
# Likeness.Proofs.Files.Growth

What a file tree keeps while files are written and directories made in it.

Of a tree that has only grown at some places (`FileTree.Grown`), a path whose trail stays clear of them
shows what it showed before. Writing a file and making directories are such growth, at places that can be
read off the path.
-/

namespace Likeness

/-- Whether an entry is a directory. -/
def FileEntry.isDirectory : FileEntry → Bool
  | file .. => false
  | directory => true

namespace FileTree

variable {t u v : FileTree} {W W' : List (List String)} {p root : Path} {q : List String}
  {base pieces : List String} {name : String}

/-- The second tree has what the first has, but for files at some places that were written, and
directories there that were made. -/
structure Grown (W : List (List String)) (t u : FileTree) : Prop where
  elsewhere : u.entries.filter (·.1 ∉ W) = t.entries.filter (·.1 ∉ W)
  kinds : ∀ q e, t.find? q = some e → ∃ e', u.find? q = some e' ∧ e'.isDirectory = e.isDirectory

namespace Grown

theorem refl (W : List (List String)) (t : FileTree) : Grown W t t :=
  ⟨rfl, fun _ e h => ⟨e, h, rfl⟩⟩

theorem trans (h : Grown W t u) (h' : Grown W u v) : Grown W t v := by
  refine ⟨h'.elsewhere.trans h.elsewhere, ?_⟩
  intro q e hfind
  obtain ⟨e', hfind', hkind⟩ := h.kinds q e hfind
  obtain ⟨e'', hfind'', hkind'⟩ := h'.kinds q e' hfind'
  exact ⟨e'', hfind'', hkind'.trans hkind⟩

theorem mono (h : Grown W t u) (hW : ∀ q ∈ W, q ∈ W') : Grown W' t u := by
  refine ⟨?_, h.kinds⟩
  have hfilter (es : List (List String × FileEntry)) :
      (es.filter (·.1 ∉ W)).filter (·.1 ∉ W') = es.filter (·.1 ∉ W') := by
    rw [List.filter_filter]
    refine List.filter_congr fun e _ => ?_
    by_cases he : e.1 ∈ W'
    · simp [he]
    · have hout : e.1 ∉ W := fun hmem => he (hW _ hmem)
      simp [he, hout]
  rw [← hfilter u.entries, h.elsewhere, hfilter]

/-- The time may pass. -/
theorem clock (h : Grown W t u) (now : Moment) : Grown W t { u with time := now } :=
  ⟨h.elsewhere, h.kinds⟩

theorem find?_eq (h : Grown W t u) (hq : q ∉ W) : u.find? q = t.find? q := by
  have hlookup (es : List (List String × FileEntry)) :
      (es.filter (·.1 ∉ W)).lookup q = es.lookup q :=
    lookup_filter (· ∉ W) (decide_eq_true hq) es
  rw [find?, find?, ← hlookup u.entries, h.elsewhere, hlookup]

theorem directory (h : Grown W t u) (hq : t.find? q = some .directory) :
    u.find? q = some .directory := by
  obtain ⟨e, hfind, hkind⟩ := h.kinds q _ hq
  cases e with
  | file content modified => cases hkind
  | directory => exact hfind

theorem missing (h : Grown W t u) (hq : u.find? q = none) : t.find? q = none := by
  cases hfind : t.find? q with
  | none => rfl
  | some e =>
      obtain ⟨e', hfind', -⟩ := h.kinds q e hfind
      rw [hq] at hfind'
      cases hfind'

/-- What decides what a path shows that stays clear of the places where the tree has grown. -/
theorem clear (h : Grown W t u) (hclear : ∀ q ∈ trail p, q ∉ W) :
    ∀ q ∈ trail p, u.find? q = t.find? q := fun q hq => h.find?_eq (hclear q hq)

theorem kind?_directory (h : Grown W t u) (hp : t.kind? p = some .directory) :
    u.kind? p = some .directory := by
  obtain ⟨g, htarget, hfind⟩ := kind?_eq_directory.mp hp
  exact kind?_eq_directory.mpr ⟨g, target_mono htarget fun q hq => h.directory hq, h.directory hfind⟩

theorem isOpen (h : Grown W t u) (hroot : t.IsOpen root) : u.IsOpen root := by
  obtain ⟨pieces, hpieces, hpassable⟩ := hroot
  exact ⟨pieces, hpieces, fun q hq => h.directory (hpassable.directories q hq), hpassable.short⟩

/-- What is read in an open directory, elsewhere than where the tree has grown. -/
theorem read_join (h : Grown W t u) (hroot : t.IsOpen root) (hname : Plain name)
    (hclear : placeOf root ++ [name] ∉ W) : u.read (root.join name) = t.read (root.join name) := by
  rw [read, read, hroot.target_join hname, (h.isOpen hroot).target_join hname]
  simp only [bind, Except.bind, h.find?_eq hclear]

/-- The files below a place that are looked for elsewhere than where the tree has grown. -/
theorem filesFrom_eq (h : Grown W t u) {place : List String} {wanted : List String → Bool}
    (hclear : ∀ q ∈ W, place <+: q → wanted (q.drop place.length) = false) :
    (u.filesFrom place).filter wanted = (t.filesFrom place).filter wanted := by
  have hfiles (v : FileTree) : (v.filesFrom place).filter wanted =
      ({ v with entries := v.entries.filter (·.1 ∉ W) }.filesFrom place).filter wanted := by
    rw [filesFrom, filesFrom, List.filter_filterMap, List.filter_filterMap, List.filterMap_filter]
    refine List.filterMap_congr fun e _ => ?_
    obtain ⟨q, entry⟩ := e
    by_cases hq : q ∈ W
    · simp only [hq, not_true_eq_false, decide_false, Bool.false_eq_true, if_false]
      cases entry with
      | directory => rfl
      | file content modified =>
          dsimp only
          split
          next hbelow =>
            have hunwanted := hclear q hq (List.isPrefixOf_iff_prefix.mp hbelow)
            simp [Option.filter, hunwanted]
          · rfl
    · simp [hq]
  rw [hfiles u, hfiles t]
  simp only [filesFrom, h.elsewhere]

end Grown

/-! ### Vacant places -/

/-- Those of some places where a file or a directory may be put: a directory that is there stays. -/
def vacant (t : FileTree) (places : List (List String)) : List (List String) :=
  places.filter fun q => !(t.find? q).any FileEntry.isDirectory

theorem mem_vacant {places : List (List String)} :
    q ∈ t.vacant places ↔ q ∈ places ∧ t.find? q ≠ some .directory := by
  rw [vacant, List.mem_filter]
  refine and_congr_right fun _ => ?_
  cases t.find? q with
  | none => simp
  | some e => cases e <;> simp [FileEntry.isDirectory]

theorem Grown.mem_vacant {places : List (List String)} (h : Grown W t u) (hq : q ∈ u.vacant places) :
    q ∈ t.vacant places := by
  obtain ⟨hmem, hfree⟩ := FileTree.mem_vacant.mp hq
  exact FileTree.mem_vacant.mpr ⟨hmem, fun hdirectory => hfree (h.directory hdirectory)⟩

/-! ### Writing -/

theorem grown_insert {e : FileEntry} (hq : q ∈ W)
    (hkind : ∀ old, t.find? q = some old → e.isDirectory = old.isDirectory) :
    Grown W t (t.insert q e) := by
  constructor
  · rw [insert, List.filter_cons_of_neg (by simpa using hq), List.filter_filter]
    refine List.filter_congr fun d _ => ?_
    by_cases hd : d.1 ∈ W
    · simp [hd]
    · have hne : d.1 ≠ q := fun heq => hd (heq ▸ hq)
      simp [hd, hne]
  · intro other old hold
    by_cases hother : other = q
    · subst hother
      by_cases hroot : other = []
      · subst hroot
        exact ⟨old, hold, rfl⟩
      · exact ⟨e, find?_insert_self hroot, hkind old hold⟩
    · exact ⟨old, (find?_insert_of_ne hother).trans hold, rfl⟩

/-- Writing a file changes the tree where the path leads, which is not a directory. -/
theorem grown_write {content : ByteArray} (h : t.write p content = .ok u) :
    Grown [placeOf p] t u ∧ placeOf p ∈ t.vacant (trail p) := by
  obtain ⟨g, htarget, -, hfind, rfl⟩ := write_eq_ok h
  obtain ⟨hplace, hmem⟩ := place_of_target htarget
  rw [hplace] at hfind hmem ⊢
  refine ⟨grown_insert (List.mem_singleton_self _) ?_, mem_vacant.mpr ⟨hmem, hfind⟩⟩
  intro old hold
  cases old with
  | file content modified => rfl
  | directory => exact absurd hold hfind

/-- What is written is found where the path leads. -/
theorem find?_write {content : ByteArray} (h : t.write p content = .ok u) :
    u.find? (placeOf p) = some (.written content t.time) := by
  obtain ⟨g, htarget, -, hfind, rfl⟩ := write_eq_ok h
  rw [← (place_of_target htarget).1]
  refine find?_insert_self ?_
  intro hroot
  rw [hroot] at hfind
  exact hfind rfl

/-! ### Making directories -/

/-- Making directories changes the tree where there was nothing on the way. -/
theorem grown_makeAlong (h : t.makeAlong base pieces = .ok u) :
    Grown ((steps base pieces).filter fun q => (t.find? q).isNone) t u := by
  induction base, pieces using steps.induct generalizing t with
  | case1 base =>
      cases h
      exact .refl _ _
  | case2 base piece rest hdot ih =>
      rw [makeAlong, if_pos hdot] at h
      rw [steps, if_pos hdot]
      exact ih h
  | case3 base rest hdot ih =>
      rw [makeAlong, if_neg hdot, if_pos rfl] at h
      rw [steps, if_neg hdot, if_pos rfl]
      exact ih h
  | case4 base piece rest hdot hup ih =>
      rw [makeAlong, if_neg hdot, if_neg hup] at h
      rw [steps, if_neg hdot, if_neg hup]
      split at h
      · cases h
      have hrest (t₁ : FileTree) (hgrown : Grown [base ++ [piece]] t t₁) :
          ∀ q ∈ (steps (base ++ [piece]) rest).filter (fun q => (t₁.find? q).isNone),
            q ∈ ((base ++ [piece]) :: steps (base ++ [piece]) rest).filter
              fun q => (t.find? q).isNone := by
        intro q hq
        obtain ⟨hmem, hnone⟩ := List.mem_filter.mp hq
        refine List.mem_filter.mpr ⟨List.mem_cons_of_mem _ hmem, ?_⟩
        rw [hgrown.missing (Option.isNone_iff_eq_none.mp hnone)]
        rfl
      dsimp only at h
      split at h
      · exact (ih h).mono (hrest t (.refl _ _))
      · cases h
      next hfind =>
        have hmade {W : List (List String)} (hW : base ++ [piece] ∈ W) :
            Grown W t (t.insert (base ++ [piece]) .directory) :=
          grown_insert hW fun old hold => by cases hfind.symm.trans hold
        have hhere : base ++ [piece] ∈
            ((base ++ [piece]) :: steps (base ++ [piece]) rest).filter
              fun q => (t.find? q).isNone :=
          List.mem_filter.mpr ⟨List.mem_cons_self, by rw [hfind]; rfl⟩
        exact (hmade hhere).trans ((ih h).mono (hrest _ (hmade (List.mem_singleton_self _))))

/-- Making directories adds no files. -/
theorem file_of_makeAlong {content : ByteArray} {modified : Moment}
    (h : t.makeAlong base pieces = .ok u) (hq : u.find? q = some (.file content modified)) :
    t.find? q = some (.file content modified) := by
  induction base, pieces using steps.induct generalizing t with
  | case1 base =>
      cases h
      exact hq
  | case2 base piece rest hdot ih =>
      rw [makeAlong, if_pos hdot] at h
      exact ih h
  | case3 base rest hdot ih =>
      rw [makeAlong, if_neg hdot, if_pos rfl] at h
      exact ih h
  | case4 base piece rest hdot hup ih =>
      rw [makeAlong, if_neg hdot, if_neg hup] at h
      split at h
      · cases h
      dsimp only at h
      split at h
      · exact ih h
      · cases h
      · have hfind := ih h
        by_cases hhere : q = base ++ [piece]
        · subst hhere
          rw [find?_insert_self (by simp)] at hfind
          cases hfind
        · rwa [find?_insert_of_ne hhere] at hfind

/-- Directories that were made are there. -/
theorem passable_of_makeAlong (h : t.makeAlong base pieces = .ok u) : u.Passable base pieces := by
  induction base, pieces using steps.induct generalizing t with
  | case1 base => exact .nil u base
  | case2 base piece rest hdot ih =>
      rw [makeAlong, if_pos hdot] at h
      exact (ih h).dot hdot
  | case3 base rest hdot ih =>
      rw [makeAlong, if_neg hdot, if_pos rfl] at h
      exact (ih h).up
  | case4 base piece rest hdot hup ih =>
      rw [makeAlong, if_neg hdot, if_neg hup] at h
      split at h
      · cases h
      next hshort =>
        dsimp only at h
        split at h
        next hhere => exact (ih h).enter hdot hup hshort ((grown_makeAlong h).directory hhere)
        · cases h
        · refine (ih h).enter hdot hup hshort ((grown_makeAlong h).directory ?_)
          exact find?_insert_self (by simp)

/-- Making directories takes no time, and does not depend on it. -/
theorem makeAlong_clock (now : Moment) : ({ t with time := now } : FileTree).makeAlong base pieces =
    (t.makeAlong base pieces).map fun u => { u with time := now } := by
  induction base, pieces using steps.induct generalizing t with
  | case1 base => rfl
  | case2 base piece rest hdot ih => rw [makeAlong, makeAlong, if_pos hdot, if_pos hdot, ih]
  | case3 base rest hdot ih =>
      rw [makeAlong, makeAlong, if_neg hdot, if_neg hdot, if_pos rfl, if_pos rfl, ih]
  | case4 base piece rest hdot hup ih =>
      rw [makeAlong, makeAlong, if_neg hdot, if_neg hdot, if_neg hup, if_neg hup]
      have hfind : ({ t with time := now } : FileTree).find? (base ++ [piece]) =
          t.find? (base ++ [piece]) := rfl
      dsimp only
      rw [hfind]
      split
      · rfl
      · cases t.find? (base ++ [piece]) with
        | none => exact @ih (t.insert (base ++ [piece]) .directory)
        | some e =>
            cases e with
            | file content modified => rfl
            | directory => exact ih

theorem makeDirectories_clock (root : Path) (t : FileTree) (now : Moment) :
    ({ t with time := now } : FileTree).makeDirectories root =
      (t.makeDirectories root).map fun u => { u with time := now } := by
  rw [makeDirectories, makeDirectories]
  cases piecesOf root with
  | error f => rfl
  | ok pieces => exact makeAlong_clock now

/-- Directories that are made are there then. Nothing else changes, and nothing that was there. -/
theorem makeDirectories_eq_ok (h : t.makeDirectories root = .ok u) :
    u.IsOpen root ∧ Grown ((trail root).filter fun q => (t.find? q).isNone) t u ∧
      u.time = t.time ∧ ∀ q content modified, u.find? q = some (.file content modified) →
        t.find? q = some (.file content modified) := by
  have htime : (.ok u : Except FileFault FileTree) = .ok { u with time := t.time } := by
    have hclock := makeDirectories_clock root t t.time
    rwa [h] at hclock
  have hkept := congrArg FileTree.time (Except.ok.inj htime)
  obtain ⟨pieces, hpieces, hmade⟩ := Except.bind_eq_ok.mp h
  refine ⟨⟨pieces, hpieces, passable_of_makeAlong hmade⟩, ?_,
    hkept, fun _ _ _ => file_of_makeAlong hmade⟩
  refine (grown_makeAlong hmade).mono fun q hq => ?_
  rw [trail, hpieces, List.filter_append]
  exact List.mem_append_left _ hq

end FileTree

end Likeness
