import Likeness.Proofs.Files.WellFormed
import Likeness.Proofs.Store.Records
import Likeness.Files.Loader

/-!
# Likeness.Proofs.Files.Below

Paths of what is below a directory.

The names that lead from a directory to a file, put behind the path of the directory, make a path whose
components are those of the directory and the names (`Path.key_below`). So different files have paths
that are not the same, and in a well-formed tree the files below a directory are those that these paths
lead to (`FileTree.mem_filesBelow`), each once (`FileTree.nodup_filesBelow`).
-/

namespace Likeness

open FileTree (Plain)
open Loader (below)

namespace Path

variable {p d : Path} {name : String} {names names' : List String} {first piece : List Char}
  {rest : List (List Char)}

/-! ### Components -/

/-- What the first piece of a path stands for, if it is not the only one or not empty. -/
def lead : List Char → List Component
  | [] => [.root]
  | ['.'] => [.here]
  | first => (ofPiece first).toList

/-- The components of a path by its pieces. -/
theorem components_of_pieces (h : pieces p.text.toList = first :: rest)
    (hne : first ≠ [] ∨ rest ≠ []) : p.components = lead first ++ rest.filterMap ofPiece := by
  rw [components, h]
  split
  next heq => cases heq
  next heq =>
    obtain ⟨rfl, rfl⟩ := List.cons.inj heq
    rw [if_neg (hne.resolve_left (not_not.mpr rfl))]
    rfl
  next heq =>
    obtain ⟨rfl, rfl⟩ := List.cons.inj heq
    rfl
  next hroot hhere heq =>
    obtain ⟨rfl, rfl⟩ := List.cons.inj heq
    have hlead : lead first = (ofPiece first).toList := by
      unfold lead
      split
      · exact absurd rfl hroot
      · exact absurd rfl hhere
      · rfl
    rw [hlead, List.filterMap_cons]
    cases ofPiece first <;> rfl

theorem ofPiece_of_plain (h : Plain name) : ofPiece name.toList = some (.name name) := by
  have hempty : name.toList ≠ [] := by simpa using h.ne_empty
  have hhere : name.toList ≠ ['.'] := fun heq => h.ne_here (String.toList_inj.mp heq)
  have hparent : name.toList ≠ ['.', '.'] := fun heq => h.ne_parent (String.toList_inj.mp heq)
  rw [ofPiece, if_neg (not_or.mpr ⟨hempty, hhere⟩), if_neg hparent, String.ofList_toList]

/-- Only the empty path has nothing but an empty piece. -/
theorem eq_nil_of_pieces {cs : List Char} (h : pieces cs = [[]]) : cs = [] := by
  cases cs with
  | nil => rfl
  | cons c cs =>
      rw [pieces] at h
      split at h
      · exact absurd (List.cons.inj h).2 (pieces_ne_nil cs)
      · split at h <;> cases h

/-- A name in a directory is one component more. -/
theorem components_join (hp : p.text ≠ "") (hname : Plain name) :
    (p.join name).components = p.components ++ [.name name] := by
  have hhead : name.toList.head? ≠ some '/' := fun h => hname.slash (List.mem_of_head? h)
  have hpiece := pieces_eq_singleton hname.slash
  have hcomponent := ofPiece_of_plain hname
  rw [join, if_neg (not_or.mpr ⟨hhead, hp⟩)]
  split
  next hlast =>
    obtain ⟨front, hfront⟩ := List.getLast?_eq_some_iff.mp hlast
    obtain ⟨first, rest, hpieces⟩ := List.exists_cons_of_ne_nil (pieces_ne_nil front)
    have hp : pieces p.text.toList = first :: (rest ++ [[]]) := by
      rw [hfront, pieces_append_slash, hpieces]
      rfl
    have hjoined : pieces (p.text ++ name).toList = first :: (rest ++ [name.toList]) := by
      rw [String.toList_append, hfront, List.append_assoc, List.singleton_append,
        pieces_append_slash, hpieces, hpiece]
      rfl
    rw [components_of_pieces hp (by simp), components_of_pieces hjoined (by simp)]
    have hblank : ofPiece [] = none := rfl
    simp [hcomponent, hblank]
  next =>
    obtain ⟨first, rest, hpieces⟩ := List.exists_cons_of_ne_nil (pieces_ne_nil p.text.toList)
    have hjoined : pieces (p.text ++ "/" ++ name).toList = first :: (rest ++ [name.toList]) := by
      rw [String.toList_append, String.toList_append, List.append_assoc]
      change pieces (p.text.toList ++ '/' :: name.toList) = _
      rw [pieces_append_slash, hpieces, hpiece]
      rfl
    have hne : first ≠ [] ∨ rest ≠ [] := by
      by_contra! hnone
      obtain ⟨rfl, rfl⟩ := hnone
      exact hp (String.toList_inj.mp (eq_nil_of_pieces hpieces))
    rw [components_of_pieces hpieces hne, components_of_pieces hjoined (by simp)]
    simp [hcomponent]

/-! ### Names below a directory -/

theorem key_below (hd : d.text ≠ "") (hnames : ∀ name ∈ names, Plain name) :
    (below d names).key = d.key ++ names.map fun name => (Component.name name).key := by
  induction names generalizing d with
  | nil => exact (List.append_nil _).symm
  | cons name names ih =>
      obtain ⟨hname, hnames⟩ := List.forall_mem_cons.mp hnames
      have hjoin : (d.join name).key = d.key ++ [(Component.name name).key] := by
        rw [key, components_join hd hname, List.map_append]
        rfl
      change (below (d.join name) names).key = _
      rw [ih (join_text_ne_empty hname.ne_empty) hnames, hjoin, List.append_assoc]
      rfl

/-- Different names lead to different paths. -/
theorem eq_of_same_below (hd : d.text ≠ "") (hnames : ∀ name ∈ names, Plain name)
    (hnames' : ∀ name ∈ names', Plain name)
    (hsame : (below d names).same (below d names') = true) : names = names' := by
  rw [same, beq_iff_eq, key_below hd hnames, key_below hd hnames'] at hsame
  refine List.map_injective_iff.mpr (fun a b hab => ?_) (List.append_cancel_left hsame)
  exact Component.name.inj (Component.key_inj hab)

end Path

namespace FileTree

variable {t : FileTree} {d p : Path} {base pieces names : List String} {name : String} {e : FileEntry}

/-! ### Where they lead -/

theorem placeAfter_concat (hname : Plain name) :
    placeAfter base (pieces ++ [name]) = placeAfter base pieces ++ [name] := by
  rw [placeAfter_append, placeAfter, if_neg (not_or.mpr ⟨hname.ne_empty, hname.ne_here⟩),
    if_neg hname.ne_parent]
  rfl

/-- The place of a name in a directory. -/
theorem placeOf_join (hd : piecesOf d = .ok pieces) (hname : Plain name) :
    placeOf (d.join name) = placeOf d ++ [name] := by
  obtain ⟨before, hjoin, hbefore⟩ := piecesOf_join hd hname
  rw [placeOf, hjoin, placeOf, hd]
  dsimp only
  rw [placeAfter_concat hname]
  rcases hbefore with rfl | rfl
  · rfl
  · rw [placeAfter_concat_blank]

theorem placeOf_below (hd : piecesOf d = .ok pieces) (hnames : ∀ name ∈ names, Plain name) :
    placeOf (below d names) = placeOf d ++ names := by
  induction names generalizing d pieces with
  | nil => exact (List.append_nil _).symm
  | cons name names ih =>
      obtain ⟨hname, hnames⟩ := List.forall_mem_cons.mp hnames
      obtain ⟨before, hjoin, -⟩ := piecesOf_join hd hname
      change placeOf (below (d.join name) names) = _
      rw [ih hjoin hnames, placeOf_join hd hname, List.append_assoc]
      rfl

/-- Behind a name there may be slashes. -/
theorem passable_blank (h : pieces.all (· = "") = true) : t.Passable base pieces := by
  induction pieces with
  | nil => exact .nil t base
  | cons piece rest ih =>
      obtain ⟨hpiece, hrest⟩ := Bool.and_eq_true_iff.mp (List.all_cons ▸ h)
      exact (ih hrest).dot (.inl (of_decide_eq_true hpiece))

/-- The way to a directory leads through directories. -/
theorem passable_of_follow {g : Target} (hfollow : t.follow base pieces = .ok g)
    (hplace : t.find? g.place = some .directory) : t.Passable base pieces := by
  induction base, pieces using steps.induct with
  | case1 base => exact .nil t base
  | case2 base piece rest hdot ih =>
      rw [follow, if_pos hdot] at hfollow
      exact (ih hfollow).dot hdot
  | case3 base rest hdot ih =>
      rw [follow, if_neg hdot, if_pos rfl] at hfollow
      exact (ih hfollow).up
  | case4 base piece rest hdot hup ih =>
      rw [follow, if_neg hdot, if_neg hup] at hfollow
      split at hfollow
      · cases hfollow
      next hshort =>
        split at hfollow
        next hlast =>
          cases hfollow
          exact (passable_blank hlast).enter hdot hup hshort hplace
        · split at hfollow
          next hhere => exact (ih hfollow).enter hdot hup hshort hhere
          · cases hfollow
          · cases hfollow

/-- A path that leads to a directory leads through directories. -/
theorem isOpen_of_target {g : Target} (htarget : t.target p = .ok g)
    (hplace : t.find? g.place = some .directory) : t.IsOpen p := by
  unfold target at htarget
  split at htarget
  · cases htarget
  · obtain ⟨pieces, hpieces, hfollow⟩ := Except.bind_eq_ok.mp htarget
    exact ⟨pieces, hpieces, passable_of_follow hfollow hplace⟩

/-- In a well-formed tree, what is below an open directory is where its path leads. -/
theorem WellFormed.target_below (h : t.WellFormed) (hd : t.IsOpen d) (hnames : names ≠ [])
    (hfind : t.find? (placeOf d ++ names) = some e) :
    t.target (below d names) = .ok ⟨placeOf d ++ names, false⟩ := by
  induction names generalizing d with
  | nil => exact absurd rfl hnames
  | cons name names ih =>
      have hname : Plain name := h.plain_of_find? hfind name (by simp)
      have htarget := hd.target_join hname
      cases names with
      | nil => exact htarget
      | cons other names =>
          rw [List.append_cons] at hfind
          have hhere := h.directory_of_find? hfind (List.cons_ne_nil _ _)
          have hplace : placeOf d ++ [name] = placeOf (d.join name) := (place_of_target htarget).1
          change t.target (below (d.join name) (other :: names)) = _
          rw [List.append_cons]
          rw [hplace] at hfind ⊢
          exact ih (isOpen_of_target htarget hhere) (List.cons_ne_nil _ _) hfind

/-! ### Files below a directory -/

theorem kind?_eq_file : t.kind? p = some .file ↔ ∃ g content modified, t.target p = .ok g ∧
    g.asDirectory = false ∧ t.find? g.place = some (.file content modified) := by
  rw [kind?]
  cases htarget : t.target p with
  | error f => simp
  | ok g =>
      dsimp only
      cases hfind : t.find? g.place with
      | none => simp [hfind]
      | some e =>
          cases e with
          | directory => simp [hfind]
          | file content modified =>
              cases hdirectory : g.asDirectory <;> simp [hfind, hdirectory]

theorem mem_filesFrom {place : List String} : names ∈ t.filesFrom place ↔
    ∃ content modified, (place ++ names, .file content modified) ∈ t.entries := by
  rw [filesFrom, List.mem_filterMap]
  constructor
  · rintro ⟨⟨q, e⟩, hmem, hnames⟩
    cases e with
    | directory => cases hnames
    | file content modified =>
        dsimp only at hnames
        split at hnames
        next hbegins =>
          obtain ⟨rest, rfl⟩ := List.isPrefixOf_iff_prefix.mp hbegins
          rw [List.drop_left] at hnames
          obtain rfl := Option.some.inj hnames
          exact ⟨content, modified, hmem⟩
        · cases hnames
  · rintro ⟨content, modified, hmem⟩
    refine ⟨_, hmem, ?_⟩
    have hbegins : place.isPrefixOf (place ++ names) = true :=
      List.isPrefixOf_iff_prefix.mpr (List.prefix_append _ _)
    simp [hbegins]

/-- **The files below a directory** are those that a path goes to which puts some names behind the path of
the directory. -/
theorem WellFormed.mem_filesBelow (h : t.WellFormed) (hd : t.kind? d = some .directory) :
    names ∈ t.filesBelow d ↔ names ≠ [] ∧ (∀ name ∈ names, Plain name) ∧
      t.kind? (below d names) = some .file := by
  obtain ⟨g, htarget, hplace⟩ := kind?_eq_directory.mp hd
  have hopen := isOpen_of_target htarget hplace
  have hplaceOf := (place_of_target htarget).1
  rw [filesBelow, htarget]
  dsimp only
  rw [mem_filesFrom]
  rw [hplaceOf] at hplace ⊢
  constructor
  · rintro ⟨content, modified, hmem⟩
    have hfind := h.find?_of_mem hmem
    have hnames : names ≠ [] := by
      rintro rfl
      rw [List.append_nil, hplace] at hfind
      cases hfind
    refine ⟨hnames, fun name hname => ?_, ?_⟩
    · exact h.plain_of_find? hfind name (List.mem_append_right _ hname)
    · exact kind?_eq_file.mpr ⟨_, content, modified, h.target_below hopen hnames hfind, rfl, hfind⟩
  · rintro ⟨hnames, hplain, hkind⟩
    obtain ⟨g', content, modified, htarget', -, hfind⟩ := kind?_eq_file.mp hkind
    obtain ⟨pieces, hpieces, -⟩ := hopen
    rw [(place_of_target htarget').1, placeOf_below hpieces hplain] at hfind
    exact ⟨content, modified, mem_of_find? (by simp [hnames]) hfind⟩

theorem filesFrom_sublist (t : FileTree) (place : List String) :
    ((t.filesFrom place).map (place ++ ·)).Sublist (t.entries.map Prod.fst) := by
  obtain ⟨entries, time⟩ := t
  unfold filesFrom
  induction entries with
  | nil => exact List.Sublist.slnil
  | cons entry entries ih =>
      obtain ⟨q, e⟩ := entry
      cases e with
      | directory => exact ih.cons _
      | file content modified =>
          rw [List.filterMap_cons]
          dsimp only
          split
          · exact ih.cons _
          next names heq =>
            split at heq
            next hbegins =>
              obtain ⟨rest, rfl⟩ := List.isPrefixOf_iff_prefix.mp hbegins
              rw [List.drop_left] at heq
              obtain rfl := Option.some.inj heq
              exact ih.cons_cons _
            · cases heq

/-- A walk goes through every file below a directory once. -/
theorem WellFormed.nodup_filesBelow (h : t.WellFormed) (d : Path) : (t.filesBelow d).Nodup := by
  unfold filesBelow
  split
  · exact List.nodup_nil
  next g _ => exact (h.once.sublist (t.filesFrom_sublist g.place)).of_map

end FileTree

end Likeness
