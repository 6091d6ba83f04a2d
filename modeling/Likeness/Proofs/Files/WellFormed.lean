import Mathlib.Data.List.Induction
import Likeness.Proofs.Files.Growth

/-!
# Likeness.Proofs.Files.WellFormed

Trees as file systems have them.

In a well-formed tree (`FileTree.WellFormed`) every place has at most one entry, and an entry has a name
that a file can have, in a directory that is there. The empty tree is well-formed, and writing files,
making directories and taking things away keep a tree so.
-/

namespace Likeness.FileTree

variable {t u : FileTree} {p : Path} {q parent rest base pieces : List String} {name : String}
  {e : FileEntry}

/-- No place has two entries, and every entry has a name that a file can have, in a directory that is
there. -/
structure WellFormed (t : FileTree) : Prop where
  once : (t.entries.map Prod.fst).Nodup
  placed : ∀ q ∈ t.entries.map Prod.fst, ∃ parent name, q = parent ++ [name] ∧ Plain name ∧
    t.find? parent = some .directory

theorem wellFormed_empty : empty.WellFormed := ⟨List.nodup_nil, by simp [empty]⟩

/-! ### Entries -/

theorem mem_of_find? (hq : q ≠ []) (h : t.find? q = some e) : (q, e) ∈ t.entries := by
  rw [find?, if_neg hq] at h
  obtain ⟨before, after, hentries, -⟩ := List.lookup_eq_some_iff.mp h
  rw [hentries]
  exact List.mem_append_right _ List.mem_cons_self

namespace WellFormed

/-- An entry is what stands at its place. -/
theorem find?_of_mem (h : t.WellFormed) (hmem : (q, e) ∈ t.entries) : t.find? q = some e := by
  obtain ⟨parent, name, rfl, -⟩ := h.placed q (List.mem_map_of_mem hmem)
  rw [find?, if_neg (by simp)]
  obtain ⟨before, after, hentries⟩ := List.append_of_mem hmem
  refine List.lookup_eq_some_iff.mpr ⟨before, after, hentries, fun d hd => ?_⟩
  have honce := h.once
  rw [hentries, List.map_append, List.map_cons] at honce
  have hne := (List.nodup_append.mp honce).2.2 d.1 (List.mem_map_of_mem hd) _ List.mem_cons_self
  exact bne_iff_ne.mpr hne.symm

/-- What is there has a name, in a directory that is there. -/
theorem placed_of_find? (h : t.WellFormed) (hfind : t.find? (parent ++ [name]) = some e) :
    Plain name ∧ t.find? parent = some .directory := by
  have hmem := mem_of_find? (by simp) hfind
  obtain ⟨parent', name', heq, hname, hparent⟩ := h.placed _ (List.mem_map_of_mem hmem)
  obtain ⟨rfl, hlast⟩ := List.append_inj' heq rfl
  obtain rfl := List.singleton_inj.mp hlast
  exact ⟨hname, hparent⟩

theorem plain_of_find? (h : t.WellFormed) (hfind : t.find? q = some e) : ∀ name ∈ q, Plain name := by
  induction q using List.reverseRecOn generalizing e with
  | nil => exact List.forall_mem_nil _
  | append_singleton parent name ih =>
      obtain ⟨hname, hparent⟩ := h.placed_of_find? hfind
      refine List.forall_mem_append.mpr ⟨ih hparent, ?_⟩
      exact List.forall_mem_singleton.mpr hname

/-- The way to what is there leads through directories. -/
theorem directory_of_find? (h : t.WellFormed) (hfind : t.find? (q ++ rest) = some e)
    (hrest : rest ≠ []) : t.find? q = some .directory := by
  induction rest using List.reverseRecOn generalizing e with
  | nil => exact absurd rfl hrest
  | append_singleton rest name ih =>
      rw [← List.append_assoc] at hfind
      obtain ⟨-, hparent⟩ := h.placed_of_find? hfind
      cases rest with
      | nil => rwa [List.append_nil] at hparent
      | cons first rest => exact ih hparent (List.cons_ne_nil _ _)

/-- The directory above a directory is there. -/
theorem find?_dropLast (h : t.WellFormed) (hfind : t.find? q = some .directory) :
    t.find? q.dropLast = some .directory := by
  induction q using List.reverseRecOn with
  | nil => exact hfind
  | append_singleton parent name =>
      rw [List.dropLast_concat]
      exact (h.placed_of_find? hfind).2

/-! ### Changes -/

/-- What is put into a directory, other than in place of a directory. -/
theorem insert (h : t.WellFormed) (hparent : t.find? parent = some .directory) (hname : Plain name)
    (hold : t.find? (parent ++ [name]) ≠ some .directory) (e : FileEntry) :
    (t.insert (parent ++ [name]) e).WellFormed := by
  have hkept {q : List String} (hq : t.find? q = some .directory) :
      (t.insert (parent ++ [name]) e).find? q = some .directory := by
    have hne : q ≠ parent ++ [name] := by
      rintro rfl
      exact hold hq
    rwa [find?_insert_of_ne hne]
  have hsublist : ((t.entries.filter (·.1 ≠ parent ++ [name])).map Prod.fst).Sublist
      (t.entries.map Prod.fst) := List.filter_sublist.map _
  constructor
  · refine List.nodup_cons.mpr ⟨?_, h.once.sublist hsublist⟩
    intro hmem
    obtain ⟨d, hd, hplace⟩ := List.mem_map.mp hmem
    exact of_decide_eq_true (List.mem_filter.mp hd).2 hplace
  · intro q hq
    rcases List.mem_cons.mp hq with rfl | hq
    · exact ⟨parent, name, rfl, hname, hkept hparent⟩
    · obtain ⟨parent', name', rfl, hname', hparent'⟩ := h.placed q (hsublist.subset hq)
      exact ⟨parent', name', rfl, hname', hkept hparent'⟩

/-- What is taken away goes with all that is below it. -/
theorem erase (h : t.WellFormed) (place : List String) : (t.erase place).WellFormed := by
  have hsublist : ((t.erase place).entries.map Prod.fst).Sublist (t.entries.map Prod.fst) :=
    List.filter_sublist.map _
  refine ⟨h.once.sublist hsublist, fun q hq => ?_⟩
  obtain ⟨parent, name, rfl, hname, hparent⟩ := h.placed q (hsublist.subset hq)
  refine ⟨parent, name, rfl, hname, ?_⟩
  obtain ⟨⟨_, e⟩, hmem, rfl⟩ := List.mem_map.mp hq
  have hkept : (!place.isPrefixOf (parent ++ [name])) = true := (List.mem_filter.mp hmem).2
  rw [Bool.not_eq_true', ← Bool.not_eq_true, List.isPrefixOf_iff_prefix] at hkept
  have habove : (!place.isPrefixOf parent) = true := by
    rw [Bool.not_eq_true', ← Bool.not_eq_true, List.isPrefixOf_iff_prefix]
    exact fun hbegins => hkept (hbegins.trans (List.prefix_append _ _))
  by_cases hroot : parent = []
  · rw [find?, if_pos hroot]
  · rw [find?, if_neg hroot] at hparent ⊢
    exact (lookup_filter (fun q => !place.isPrefixOf q) habove t.entries).trans hparent

theorem remove (h : t.WellFormed) (p : Path) : (t.remove p).WellFormed := by
  unfold FileTree.remove
  split
  · exact h
  · exact h.erase _

end WellFormed

/-! ### Places that paths lead to -/

/-- The pieces of a path have no character that a name cannot have. -/
theorem chars_of_piecesOf (h : piecesOf p = .ok pieces) :
    ∀ piece ∈ pieces, '/' ∉ piece.toList ∧ '\x00' ∉ piece.toList := by
  obtain ⟨hzero, rfl⟩ := piecesOf_eq_ok.mp h
  intro piece hpiece
  obtain ⟨chars, hchars, rfl⟩ := List.mem_map.mp hpiece
  obtain ⟨hslash, hsubset⟩ := Path.chars_of_mem_pieces hchars
  rw [String.toList_ofList]
  exact ⟨hslash, fun hmem => hzero (hsubset hmem)⟩

/-- A piece that is followed by name is a name that a file can have. -/
theorem plain_of_piece {piece : String} (hchars : '/' ∉ piece.toList ∧ '\x00' ∉ piece.toList)
    (hdot : ¬(piece = "" ∨ piece = ".")) (hup : piece ≠ "..")
    (hshort : ¬ longestName < piece.utf8ByteSize) : Plain piece :=
  ⟨hchars.1, hchars.2, fun h => hdot (.inl h), fun h => hdot (.inr h), hup, Nat.le_of_not_lt hshort⟩

/-- A path leads to a directory, or to a name in a directory that is there. -/
theorem WellFormed.placed_of_follow (h : t.WellFormed) {g : Target}
    (hbase : t.find? base = some .directory)
    (hchars : ∀ piece ∈ pieces, '/' ∉ piece.toList ∧ '\x00' ∉ piece.toList)
    (hfollow : t.follow base pieces = .ok g) (hplace : t.find? g.place ≠ some .directory) :
    ∃ parent name, g.place = parent ++ [name] ∧ Plain name ∧ t.find? parent = some .directory := by
  induction base, pieces using steps.induct with
  | case1 base =>
      cases hfollow
      exact absurd hbase hplace
  | case2 base piece rest hdot ih =>
      rw [follow, if_pos hdot] at hfollow
      exact ih hbase (List.forall_mem_cons.mp hchars).2 hfollow
  | case3 base rest hdot ih =>
      rw [follow, if_neg hdot, if_pos rfl] at hfollow
      exact ih (h.find?_dropLast hbase) (List.forall_mem_cons.mp hchars).2 hfollow
  | case4 base piece rest hdot hup ih =>
      rw [follow, if_neg hdot, if_neg hup] at hfollow
      obtain ⟨hpiece, hchars⟩ := List.forall_mem_cons.mp hchars
      split at hfollow
      · cases hfollow
      next hshort =>
        split at hfollow
        · cases hfollow
          exact ⟨base, piece, rfl, plain_of_piece hpiece hdot hup hshort, hbase⟩
        · split at hfollow
          next hhere => exact ih hhere hchars hfollow
          · cases hfollow
          · cases hfollow

/-! ### Operations -/

namespace WellFormed

theorem write (h : t.WellFormed) {content : ByteArray} (hwrite : t.write p content = .ok u) :
    u.WellFormed := by
  obtain ⟨g, htarget, -, hold, rfl⟩ := write_eq_ok hwrite
  unfold target at htarget
  split at htarget
  · cases htarget
  · obtain ⟨pieces, hpieces, hfollow⟩ := Except.bind_eq_ok.mp htarget
    obtain ⟨parent, name, hplace, hname, hparent⟩ :=
      h.placed_of_follow rfl (chars_of_piecesOf hpieces) hfollow hold
    rw [hplace] at hold ⊢
    exact h.insert hparent hname hold _

theorem makeAlong (h : t.WellFormed) (hbase : t.find? base = some .directory)
    (hchars : ∀ piece ∈ pieces, '/' ∉ piece.toList ∧ '\x00' ∉ piece.toList)
    (hmade : t.makeAlong base pieces = .ok u) : u.WellFormed := by
  induction base, pieces using steps.induct generalizing t with
  | case1 base =>
      cases hmade
      exact h
  | case2 base piece rest hdot ih =>
      rw [FileTree.makeAlong, if_pos hdot] at hmade
      exact ih h hbase (List.forall_mem_cons.mp hchars).2 hmade
  | case3 base rest hdot ih =>
      rw [FileTree.makeAlong, if_neg hdot, if_pos rfl] at hmade
      exact ih h (h.find?_dropLast hbase) (List.forall_mem_cons.mp hchars).2 hmade
  | case4 base piece rest hdot hup ih =>
      rw [FileTree.makeAlong, if_neg hdot, if_neg hup] at hmade
      obtain ⟨hpiece, hchars⟩ := List.forall_mem_cons.mp hchars
      split at hmade
      · cases hmade
      next hshort =>
        dsimp only at hmade
        split at hmade
        next hhere => exact ih h hhere hchars hmade
        · cases hmade
        next hhere =>
          have hname := plain_of_piece hpiece hdot hup hshort
          have hfree : t.find? (base ++ [piece]) ≠ some .directory := by
            rw [hhere]
            exact (Option.some_ne_none _).symm
          have hinserted := h.insert hbase hname hfree .directory
          exact ih hinserted (find?_insert_self (by simp)) hchars hmade

theorem makeDirectories (h : t.WellFormed) (hmade : t.makeDirectories p = .ok u) : u.WellFormed := by
  obtain ⟨pieces, hpieces, hmade⟩ := Except.bind_eq_ok.mp hmade
  exact h.makeAlong rfl (chars_of_piecesOf hpieces) hmade

end WellFormed

end Likeness.FileTree
