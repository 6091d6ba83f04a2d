import Likeness.Proofs.Files.Tree

/-!
# Likeness.Proofs.Files.Paths

Where paths lead in a file tree. If the way there is free, that can be read off the pieces of a path
(`FileTree.placeOf`), and what a path shows depends only on what stands at the places that its names go
through (`FileTree.trail`).
-/

namespace Likeness

namespace Path

/-! ### Pieces -/

theorem pieces_ne_nil (cs : List Char) : pieces cs ≠ [] := by
  cases cs with
  | nil => exact List.cons_ne_nil _ _
  | cons c cs =>
      rw [pieces]
      split
      · exact List.cons_ne_nil _ _
      · split <;> exact List.cons_ne_nil _ _

/-- A slash ends a piece. -/
theorem pieces_append_slash (cs ds : List Char) :
    pieces (cs ++ '/' :: ds) = pieces cs ++ pieces ds := by
  induction cs with
  | nil => rfl
  | cons c cs ih =>
      rw [List.cons_append, pieces, pieces]
      by_cases hslash : c = '/'
      · rw [if_pos hslash, if_pos hslash, ih]
        rfl
      · rw [if_neg hslash, if_neg hslash, ih]
        cases hpieces : pieces cs with
        | nil => exact absurd hpieces (pieces_ne_nil cs)
        | cons piece rest => rfl

theorem pieces_eq_singleton {cs : List Char} (h : '/' ∉ cs) : pieces cs = [cs] := by
  induction cs with
  | nil => rfl
  | cons c cs ih =>
      obtain ⟨hc, hcs⟩ := not_or.mp (List.mem_cons.not.mp h)
      rw [pieces, if_neg (Ne.symm hc), ih hcs]

/-- A piece has no slash, and its characters are some of all. -/
theorem chars_of_mem_pieces {cs piece : List Char} (h : piece ∈ pieces cs) :
    '/' ∉ piece ∧ piece ⊆ cs := by
  induction cs generalizing piece with
  | nil =>
      obtain rfl := List.mem_singleton.mp h
      exact ⟨List.not_mem_nil, List.nil_subset _⟩
  | cons c cs ih =>
      rw [pieces] at h
      split at h
      · rcases List.mem_cons.mp h with rfl | h
        · exact ⟨List.not_mem_nil, List.nil_subset _⟩
        · exact ⟨(ih h).1, List.subset_cons_of_subset c (ih h).2⟩
      next hslash =>
        split at h
        next hnone => exact absurd hnone (pieces_ne_nil cs)
        next first others heq =>
          rw [heq] at ih
          rcases List.mem_cons.mp h with rfl | h
          · obtain ⟨hfirst, hsubset⟩ := ih List.mem_cons_self
            exact ⟨List.not_mem_cons_of_ne_of_not_mem (Ne.symm hslash) hfirst,
              List.cons_subset_cons c hsubset⟩
          · obtain ⟨hother, hsubset⟩ := ih (List.mem_cons_of_mem _ h)
            exact ⟨hother, List.subset_cons_of_subset c hsubset⟩

theorem join_text_ne_empty {root : Path} {name : String} (h : name ≠ "") :
    (root.join name).text ≠ "" := by
  rw [join]
  split
  · exact h
  · split <;> simp [h]

end Path

namespace FileTree

variable {t u : FileTree} {p root : Path} {base pieces : List String} {name : String}

theorem piecesOf_eq_ok : piecesOf p = .ok pieces ↔
    '\x00' ∉ p.text.toList ∧ (Path.pieces p.text.toList).map String.ofList = pieces := by
  unfold piecesOf
  dsimp only
  by_cases hzero : p.text.toList.contains '\x00' = true
  · rw [if_pos hzero]
    simp [List.contains_iff_mem.mp hzero]
  · rw [if_neg hzero]
    rw [List.contains_iff_mem] at hzero
    simp [hzero]

/-! ### Places -/

/-- The places of the names that the pieces of a path go through, from a place on. -/
def steps (place : List String) : List String → List (List String)
  | [] => []
  | piece :: rest =>
    if piece = "" ∨ piece = "." then steps place rest
    else if piece = ".." then steps place.dropLast rest
    else (place ++ [piece]) :: steps (place ++ [piece]) rest

/-- The place that the pieces of a path lead to, from a place on. -/
def placeAfter (place : List String) : List String → List String
  | [] => place
  | piece :: rest =>
    if piece = "" ∨ piece = "." then placeAfter place rest
    else if piece = ".." then placeAfter place.dropLast rest
    else placeAfter (place ++ [piece]) rest

/-- The place that a path leads to, if the way there is free. -/
def placeOf (p : Path) : List String :=
  match piecesOf p with
  | .error _ => []
  | .ok pieces => placeAfter [] pieces

/-- The places that decide what a path shows. -/
def trail (p : Path) : List (List String) :=
  match piecesOf p with
  | .error _ => []
  | .ok pieces => steps [] pieces ++ [placeAfter [] pieces]

theorem placeOf_mem_trail (p : Path) : placeOf p = [] ∨ placeOf p ∈ trail p := by
  rw [placeOf, trail]
  cases piecesOf p with
  | error f => exact .inl rfl
  | ok pieces => exact .inr (List.mem_append_right _ (List.mem_singleton_self _))

theorem placeAfter_blank (h : pieces.all (· = "") = true) : placeAfter base pieces = base := by
  induction pieces with
  | nil => rfl
  | cons piece rest ih =>
      obtain ⟨hpiece, hrest⟩ := Bool.and_eq_true_iff.mp (List.all_cons ▸ h)
      rw [placeAfter, if_pos (.inl (of_decide_eq_true hpiece)), ih hrest]

theorem steps_concat_blank : steps base (pieces ++ [""]) = steps base pieces := by
  induction base, pieces using steps.induct with
  | case1 base => rfl
  | case2 base piece rest hdot ih => rw [List.cons_append, steps, if_pos hdot, ih, steps, if_pos hdot]
  | case3 base rest hdot ih =>
      rw [List.cons_append, steps, if_neg hdot, if_pos rfl, ih, steps, if_neg hdot, if_pos rfl]
  | case4 base piece rest hdot hup ih =>
      rw [List.cons_append, steps, if_neg hdot, if_neg hup, ih, steps, if_neg hdot, if_neg hup]

theorem placeAfter_append (later : List String) :
    placeAfter base (pieces ++ later) = placeAfter (placeAfter base pieces) later := by
  induction base, pieces using steps.induct with
  | case1 base => rfl
  | case2 base piece rest hdot ih =>
      have hpiece (rest : List String) : placeAfter base (piece :: rest) = placeAfter base rest := by
        rw [placeAfter, if_pos hdot]
      rw [List.cons_append, hpiece, hpiece, ih]
  | case3 base rest hdot ih =>
      have hpiece (rest : List String) :
          placeAfter base (".." :: rest) = placeAfter base.dropLast rest := by
        rw [placeAfter, if_neg hdot, if_pos rfl]
      rw [List.cons_append, hpiece, hpiece, ih]
  | case4 base piece rest hdot hup ih =>
      have hpiece (rest : List String) :
          placeAfter base (piece :: rest) = placeAfter (base ++ [piece]) rest := by
        rw [placeAfter, if_neg hdot, if_neg hup]
      rw [List.cons_append, hpiece, hpiece, ih]

theorem placeAfter_concat_blank : placeAfter base (pieces ++ [""]) = placeAfter base pieces :=
  placeAfter_append [""]

/-! ### Following paths -/

theorem place_of_follow {g : Target} (h : t.follow base pieces = .ok g) :
    g.place = placeAfter base pieces := by
  induction base, pieces using steps.induct with
  | case1 base =>
      cases h
      rfl
  | case2 base piece rest hdot ih =>
      rw [follow, if_pos hdot] at h
      rw [placeAfter, if_pos hdot, ih h]
  | case3 base rest hdot ih =>
      rw [follow, if_neg hdot, if_pos rfl] at h
      rw [placeAfter, if_neg hdot, if_pos rfl, ih h]
  | case4 base piece rest hdot hup ih =>
      rw [follow, if_neg hdot, if_neg hup] at h
      rw [placeAfter, if_neg hdot, if_neg hup]
      split at h
      · cases h
      · split at h
        next hlast =>
          cases h
          exact (placeAfter_blank hlast).symm
        · split at h
          · exact ih h
          · cases h
          · cases h

theorem follow_congr (h : ∀ q ∈ steps base pieces, u.find? q = t.find? q) :
    u.follow base pieces = t.follow base pieces := by
  induction base, pieces using steps.induct with
  | case1 base => rfl
  | case2 base piece rest hdot ih =>
      rw [steps, if_pos hdot] at h
      rw [follow, follow, if_pos hdot, if_pos hdot, ih h]
  | case3 base rest hdot ih =>
      rw [steps, if_neg hdot, if_pos rfl] at h
      rw [follow, follow, if_neg hdot, if_neg hdot, if_pos rfl, if_pos rfl, ih h]
  | case4 base piece rest hdot hup ih =>
      rw [steps, if_neg hdot, if_neg hup] at h
      rw [follow, follow, if_neg hdot, if_neg hdot, if_neg hup, if_neg hup,
        h _ List.mem_cons_self, ih fun q hq => h q (List.mem_cons_of_mem _ hq)]

/-- A path that leads somewhere leads to its place. -/
theorem place_of_target {g : Target} (h : t.target p = .ok g) :
    g.place = placeOf p ∧ g.place ∈ trail p := by
  unfold target at h
  split at h
  · cases h
  · obtain ⟨pieces, hpieces, hfollow⟩ := Except.bind_eq_ok.mp h
    rw [place_of_follow hfollow, placeOf, trail, hpieces]
    exact ⟨rfl, List.mem_append_right _ (List.mem_singleton_self _)⟩

theorem target_congr (h : ∀ q ∈ trail p, u.find? q = t.find? q) : u.target p = t.target p := by
  unfold target
  split
  · rfl
  · rw [trail] at h
    cases hpieces : piecesOf p with
    | error f => rfl
    | ok pieces =>
        rw [hpieces] at h
        exact follow_congr fun q hq => h q (List.mem_append_left _ hq)

theorem kind?_congr (h : ∀ q ∈ trail p, u.find? q = t.find? q) : u.kind? p = t.kind? p := by
  rw [kind?, kind?, target_congr h]
  cases htarget : t.target p with
  | error f => rfl
  | ok g =>
      dsimp only
      rw [h _ (place_of_target htarget).2]

theorem read_congr (h : ∀ q ∈ trail p, u.find? q = t.find? q) : u.read p = t.read p := by
  rw [read, read, target_congr h]
  cases htarget : t.target p with
  | error f => rfl
  | ok g => simp only [bind, Except.bind, h _ (place_of_target htarget).2]

theorem look_congr (h : ∀ q ∈ trail p, u.find? q = t.find? q) : Host.look u p = Host.look t p :=
  Prod.ext (kind?_congr h) (read_congr h)

/-- What is read is the content of a file. -/
theorem read_eq_ok {content : ByteArray} (h : t.read p = .ok content) :
    ∃ g modified, t.target p = .ok g ∧ g.asDirectory = false ∧
      t.find? g.place = some (.file content modified) := by
  obtain ⟨g, htarget, h⟩ := Except.bind_eq_ok.mp h
  refine ⟨g, ?_⟩
  split at h
  · cases h
  · cases h
  next found modified hfind =>
    split at h
    · cases h
    next hdirectory =>
      obtain rfl := Except.ok.inj h
      exact ⟨modified, htarget, eq_false_of_ne_true hdirectory, hfind⟩

theorem kind?_eq_directory : t.kind? p = some .directory ↔
    ∃ g, t.target p = .ok g ∧ t.find? g.place = some .directory := by
  rw [kind?]
  cases htarget : t.target p with
  | error f => simp
  | ok g =>
      dsimp only
      cases hfind : t.find? g.place with
      | none => simp [hfind]
      | some e =>
          cases e with
          | directory => simp [hfind]
          | file content modified =>
              cases hdirectory : g.asDirectory <;> simp [hfind]

/-- When a file was written is kept with the file. -/
theorem modified?_congr {content : ByteArray} (h : ∀ q ∈ trail p, u.find? q = t.find? q)
    (hread : t.read p = .ok content) : u.modified? p = t.modified? p := by
  obtain ⟨g, modified, htarget, -, hfind⟩ := read_eq_ok hread
  have hfind' := (h _ (place_of_target htarget).2).trans hfind
  rw [modified?, modified?, target_congr h, htarget]
  dsimp only
  rw [hfind, hfind']

/-! ### Directories that are there -/

/-- The directories that pieces of a path name are there, from a place on. -/
structure Passable (t : FileTree) (base pieces : List String) : Prop where
  directories : ∀ q ∈ steps base pieces, t.find? q = some .directory
  short : ∀ piece ∈ pieces, piece.utf8ByteSize ≤ longestName

theorem Passable.nil (t : FileTree) (base : List String) : t.Passable base [] :=
  ⟨List.forall_mem_nil _, List.forall_mem_nil _⟩

theorem Passable.dot {piece : String} {rest : List String} (h : t.Passable base rest)
    (hdot : piece = "" ∨ piece = ".") : t.Passable base (piece :: rest) := by
  refine ⟨by rw [steps, if_pos hdot]; exact h.directories, List.forall_mem_cons.mpr ⟨?_, h.short⟩⟩
  rcases hdot with rfl | rfl <;> decide

theorem Passable.up {rest : List String} (h : t.Passable base.dropLast rest) :
    t.Passable base (".." :: rest) := by
  refine ⟨?_, List.forall_mem_cons.mpr ⟨by decide, h.short⟩⟩
  rw [steps, if_neg (by decide), if_pos rfl]
  exact h.directories

theorem Passable.enter {piece : String} {rest : List String} (h : t.Passable (base ++ [piece]) rest)
    (hdot : ¬(piece = "" ∨ piece = ".")) (hup : piece ≠ "..")
    (hshort : ¬ longestName < piece.utf8ByteSize)
    (hhere : t.find? (base ++ [piece]) = some .directory) : t.Passable base (piece :: rest) := by
  refine ⟨?_, List.forall_mem_cons.mpr ⟨Nat.le_of_not_lt hshort, h.short⟩⟩
  rw [steps, if_neg hdot, if_neg hup]
  exact List.forall_mem_cons.mpr ⟨hhere, h.directories⟩

/-- There is nothing to make where the directories are there. -/
theorem Passable.makeAlong_eq (h : t.Passable base pieces) : t.makeAlong base pieces = .ok t := by
  obtain ⟨hdirectories, hshort⟩ := h
  induction base, pieces using steps.induct with
  | case1 base => rfl
  | case2 base piece rest hdot ih =>
      rw [steps, if_pos hdot] at hdirectories
      rw [makeAlong, if_pos hdot, ih hdirectories (List.forall_mem_cons.mp hshort).2]
  | case3 base rest hdot ih =>
      rw [steps, if_neg hdot, if_pos rfl] at hdirectories
      rw [makeAlong, if_neg hdot, if_pos rfl, ih hdirectories (List.forall_mem_cons.mp hshort).2]
  | case4 base piece rest hdot hup ih =>
      rw [steps, if_neg hdot, if_neg hup] at hdirectories
      obtain ⟨hhere, hdirectories⟩ := List.forall_mem_cons.mp hdirectories
      obtain ⟨hpiece, hshort⟩ := List.forall_mem_cons.mp hshort
      rw [makeAlong, if_neg hdot, if_neg hup, if_neg (Nat.not_lt.mpr hpiece)]
      dsimp only
      rw [hhere]
      exact ih hdirectories hshort

/-- A path goes on behind directories that are there. -/
theorem Passable.follow_append {rest : List String} (h : t.Passable base pieces)
    (hrest : rest.all (· = "") = false) :
    t.follow base (pieces ++ rest) = t.follow (placeAfter base pieces) rest := by
  obtain ⟨hdirectories, hshort⟩ := h
  induction base, pieces using steps.induct with
  | case1 base => rfl
  | case2 base piece pieces hdot ih =>
      rw [steps, if_pos hdot] at hdirectories
      rw [List.cons_append, follow, if_pos hdot, placeAfter, if_pos hdot,
        ih hdirectories (List.forall_mem_cons.mp hshort).2]
  | case3 base pieces hdot ih =>
      rw [steps, if_neg hdot, if_pos rfl] at hdirectories
      rw [List.cons_append, follow, if_neg hdot, if_pos rfl, placeAfter, if_neg hdot, if_pos rfl,
        ih hdirectories (List.forall_mem_cons.mp hshort).2]
  | case4 base piece pieces hdot hup ih =>
      rw [steps, if_neg hdot, if_neg hup] at hdirectories
      obtain ⟨hhere, hdirectories⟩ := List.forall_mem_cons.mp hdirectories
      obtain ⟨hpiece, hshort⟩ := List.forall_mem_cons.mp hshort
      have hlast : (pieces ++ rest).all (· = "") = false := by
        rw [List.all_append, hrest, Bool.and_false]
      rw [List.cons_append, follow, if_neg hdot, if_neg hup, if_neg (Nat.not_lt.mpr hpiece), hlast,
        if_neg Bool.false_ne_true, hhere, placeAfter, if_neg hdot, if_neg hup]
      exact ih hdirectories hshort

/-- A directory that can be used: all that its path names is there. -/
def IsOpen (t : FileTree) (root : Path) : Prop :=
  ∃ pieces, piecesOf root = .ok pieces ∧ t.Passable [] pieces

theorem IsOpen.makeDirectories_eq (h : t.IsOpen root) : t.makeDirectories root = .ok t := by
  obtain ⟨pieces, hpieces, hpassable⟩ := h
  rw [makeDirectories, hpieces]
  exact hpassable.makeAlong_eq

/-! ### Names in a directory -/

/-- A name that a file can have in a directory. -/
structure Plain (name : String) : Prop where
  slash : '/' ∉ name.toList
  zero : '\x00' ∉ name.toList
  ne_empty : name ≠ ""
  ne_here : name ≠ "."
  ne_parent : name ≠ ".."
  short : name.utf8ByteSize ≤ longestName

/-- The pieces of the path of a name in a directory: those of the directory, but for a slash at its end,
and the name. -/
theorem piecesOf_join (hroot : piecesOf root = .ok pieces) (hname : Plain name) :
    ∃ before, piecesOf (root.join name) = .ok (before ++ [name]) ∧
      (pieces = before ∨ pieces = before ++ [""]) := by
  obtain ⟨hzero, rfl⟩ := piecesOf_eq_ok.mp hroot
  have hhead : name.toList.head? ≠ some '/' := fun h => hname.slash (List.mem_of_head? h)
  have hpiece : (Path.pieces name.toList).map String.ofList = [name] := by
    rw [Path.pieces_eq_singleton hname.slash, List.map_singleton, String.ofList_toList]
  rw [Path.join]
  by_cases hempty : root.text = ""
  · refine ⟨[], ?_, .inr ?_⟩
    · rw [if_pos (.inr hempty)]
      exact piecesOf_eq_ok.mpr ⟨hname.zero, hpiece⟩
    · rw [hempty]
      rfl
  rw [if_neg (not_or.mpr ⟨hhead, hempty⟩)]
  by_cases hlast : root.text.toList.getLast? = some '/'
  · obtain ⟨front, hfront⟩ := List.getLast?_eq_some_iff.mp hlast
    have hjoined : (root.text ++ name).toList = front ++ '/' :: name.toList := by
      rw [String.toList_append, hfront, List.append_assoc]
      rfl
    refine ⟨(Path.pieces front).map String.ofList, ?_, .inr ?_⟩
    · rw [if_pos hlast]
      refine piecesOf_eq_ok.mpr ⟨?_, ?_⟩
      · rw [String.toList_append, List.mem_append, not_or]
        exact ⟨hzero, hname.zero⟩
      · rw [hjoined, Path.pieces_append_slash, List.map_append, hpiece]
    · rw [hfront, Path.pieces_append_slash, List.map_append]
      rfl
  · have hjoined : (root.text ++ "/" ++ name).toList = root.text.toList ++ '/' :: name.toList := by
      rw [String.toList_append, String.toList_append, List.append_assoc]
      rfl
    refine ⟨(Path.pieces root.text.toList).map String.ofList, ?_, .inl rfl⟩
    rw [if_neg hlast]
    refine piecesOf_eq_ok.mpr ⟨?_, ?_⟩
    · rw [hjoined, List.mem_append, List.mem_cons]
      simp [hzero, hname.zero]
    · rw [hjoined, Path.pieces_append_slash, List.map_append, hpiece]

/-- In an open directory the path of a name leads to the place of that name. -/
theorem IsOpen.target_join (h : t.IsOpen root) (hname : Plain name) :
    t.target (root.join name) = .ok ⟨placeOf root ++ [name], false⟩ := by
  obtain ⟨pieces, hpieces, hdirectories, hshort⟩ := h
  obtain ⟨before, hjoin, hbefore⟩ := piecesOf_join hpieces hname
  have hopen : t.Passable [] before ∧ placeAfter [] before = placeOf root := by
    rw [placeOf, hpieces]
    rcases hbefore with rfl | rfl
    · exact ⟨⟨hdirectories, hshort⟩, rfl⟩
    · rw [steps_concat_blank] at hdirectories
      exact ⟨⟨hdirectories, fun piece hpiece => hshort piece (List.mem_append_left _ hpiece)⟩,
        placeAfter_concat_blank.symm⟩
  rw [target, if_neg (Path.join_text_ne_empty hname.ne_empty), hjoin]
  change t.follow [] (before ++ [name]) = _
  rw [hopen.1.follow_append (by simp [hname.ne_empty]), hopen.2, follow,
    if_neg (not_or.mpr ⟨hname.ne_empty, hname.ne_here⟩), if_neg hname.ne_parent,
    if_neg (Nat.not_lt.mpr hname.short)]
  rfl

end FileTree

end Likeness
