import Mathlib.Data.String.Basic
import Likeness.Files.Loader
import Likeness.Proofs.Files.Growth
import Likeness.Proofs.Store.Records
import Likeness.Proofs.Text.Utf8
import Likeness.Proofs.Work.Record

/-!
# Likeness.Proofs.Files.Loading

Loading works from a file tree twice.

Loading changes the tree only where the cache of the loader has the records of the works that are loaded
(`Loader.kept`). What a loader finds in directories, and what it gets from each file, is the same in a
tree that has only grown at places that are apart from the sources (`Loader.Settled`), and it stays the
same when a record is put into the cache: the record that is found from then on is that of the work that
was extracted. So all of what is loaded is the same (`Loader.Repeats.load`), and all of it is what the
loader gets from the sources (`Loader.Gives.load`).
-/

namespace Likeness

open FileTree

/-! ### Records in the cache -/

namespace FeatureCache

/-- The name of the record of a path. -/
def entryName (p : Path) : String := hexadecimal 16 (Xxh3.hash p.text.toUTF8).toNat ++ ".json"

theorem entry_eq (c : FeatureCache) (p : Path) : c.entry p = c.root.join (entryName p) := rfl

theorem length_hexadecimal (digits n : Nat) : (hexadecimal digits n).toList.length = digits := by
  rw [hexadecimal, String.toList_ofList, List.length_map, List.length_range]

theorem mem_hexadecimal {digits n : Nat} {c : Char} (h : c ∈ (hexadecimal digits n).toList) :
    ∃ d < 16, c = Nat.digitChar d := by
  rw [hexadecimal, String.toList_ofList] at h
  obtain ⟨i, -, rfl⟩ := List.mem_map.mp h
  exact ⟨_, Nat.mod_lt _ (by decide), rfl⟩

theorem utf8Len_le (cs : List Char) : String.utf8Len cs ≤ 4 * cs.length := by
  induction cs with
  | nil => exact Nat.le_refl 0
  | cons c cs ih =>
      have hsize := c.utf8Size_le_four
      rw [String.utf8Len_cons, List.length_cons]
      omega

theorem plain_entryName (p : Path) : Plain (entryName p) := by
  have hlist : (entryName p).toList =
      (hexadecimal 16 (Xxh3.hash p.text.toUTF8).toNat).toList ++ ['.', 'j', 's', 'o', 'n'] :=
    String.toList_append ..
  have hlength : (entryName p).toList.length = 21 := by
    rw [hlist, List.length_append, length_hexadecimal]
    rfl
  have hdigits : ∀ d < 16, Nat.digitChar d ≠ '/' ∧ Nat.digitChar d ≠ '\x00' := by decide
  have hchar {c : Char} (hc : ∀ d < 16, Nat.digitChar d ≠ c) (hend : c ∉ ['.', 'j', 's', 'o', 'n']) :
      c ∉ (entryName p).toList := by
    rw [hlist, List.mem_append, not_or]
    refine ⟨fun hmem => ?_, hend⟩
    obtain ⟨d, hd, rfl⟩ := mem_hexadecimal hmem
    exact hc d hd rfl
  have hne {name : String} (hname : name.toList.length ≠ 21) : entryName p ≠ name := by
    rintro rfl
    exact hname hlength
  refine ⟨hchar (fun d hd => (hdigits d hd).1) (by decide),
    hchar (fun d hd => (hdigits d hd).2) (by decide), hne (by decide), hne (by decide),
    hne (by decide), ?_⟩
  have hsize := utf8Len_le (entryName p).toList
  rw [← String.utf8ByteSize_ofList, String.ofList_toList, hlength] at hsize
  exact hsize.trans (by decide)

variable {c : FeatureCache} {t u : FileTree} {W : List (List String)}

/-- Where the record of a path is kept. -/
theorem target_entry (h : t.IsOpen c.root) (p : Path) :
    t.target (c.entry p) = .ok ⟨placeOf c.root ++ [entryName p], false⟩ :=
  h.target_join (plain_entryName p)

theorem placeOf_entry (h : t.IsOpen c.root) (p : Path) :
    placeOf (c.entry p) = placeOf c.root ++ [entryName p] :=
  (place_of_target (target_entry h p)).1.symm

/-- Paths whose records are kept in the same place have the same entry. -/
theorem entry_inj {p q : Path} (hp : t.IsOpen c.root) (h : placeOf (c.entry p) = placeOf (c.entry q)) :
    c.entry p = c.entry q := by
  rw [placeOf_entry hp, placeOf_entry hp] at h
  rw [entry_eq, entry_eq, (List.singleton_inj.mp (List.append_cancel_left h))]

/-- A record is as it was where the tree has not grown. -/
theorem read_entry (hgrown : Grown W t u) (h : t.IsOpen c.root) {p : Path}
    (hclear : placeOf (c.entry p) ∉ W) : u.read (c.entry p) = t.read (c.entry p) := by
  rw [placeOf_entry h] at hclear
  exact hgrown.read_join h (plain_entryName p) hclear

/-- What the cache gives depends only on the record, and asking for it changes nothing. -/
theorem run_get? {i : Identity} (h : u.read (c.entry i.path) = t.read (c.entry i.path)) :
    (c.get? i : StateM FileTree _).run u = (((c.get? i : StateM FileTree _).run t).1, u) := by
  rw [get?, Host.run_bind_eq (run_readText _ u), Host.run_bind_eq (run_readText _ t), h]
  split
  · rfl
  · split <;> rfl

/-- Where the record of a work is, the cache gives the work for its identity, if it passes the checks. -/
theorem get?_eq_of_read {i : Identity} {w : Work}
    (h : t.read (c.entry i.path) = .ok w.recordText.toUTF8) :
    ((c.get? i : StateM FileTree _).run t).1 =
      if w.check.toBool && w.identity.same i then some w else none := by
  have hrun : (Host.readText (c.entry i.path) : StateM FileTree _).run t = (.ok w.recordText, t) := by
    rw [run_readText, h, textOf, Except.bind, Text.Utf8.decode_toUTF8]
    rfl
  rw [get?, Host.run_bind_eq hrun]
  dsimp only
  rw [Work.ofRecord_recordText]
  cases w.check with
  | error m => rfl
  | ok _ =>
      change (if w.identity.same i then some w else none) = _
      rw [Except.toBool, Bool.true_and]

/-- Where the record of a work is, the cache gives that work or nothing. -/
theorem get?_of_read {i : Identity} {w : Work}
    (h : t.read (c.entry i.path) = .ok w.recordText.toUTF8) :
    ((c.get? i : StateM FileTree _).run t).1 = none ∨
      ((c.get? i : StateM FileTree _).run t).1 = some w := by
  rw [get?_eq_of_read h]
  split
  · exact .inr rfl
  · exact .inl rfl

/-- The cache only gives what it has read, for the identity that is asked for. -/
theorem get?_eq_some {i : Identity} {w : Work}
    (h : ((c.get? i : StateM FileTree _).run t).1 = some w) :
    (∃ content, t.read (c.entry i.path) = .ok content) ∧ w.identity.same i = true := by
  rw [get?, Host.run_bind_eq (run_readText _ t)] at h
  cases hread : t.read (c.entry i.path) with
  | error f =>
      rw [hread] at h
      cases h
  | ok content =>
      refine ⟨⟨content, rfl⟩, ?_⟩
      split at h
      · cases h
      next text _ =>
        split at h
        · cases h
        next w' _ =>
          change (if w'.identity.same i then some w' else none) = some w at h
          split at h
          next hsame =>
            obtain rfl := Option.some.inj h
            exact hsame
          · cases h

/-- Saving a work writes its record, or changes nothing. -/
theorem run_save (c : FeatureCache) (w : Work) (t : FileTree) :
    ((c.save w : StateM FileTree _).run t).2 = t ∨
      t.write (c.entry w.path) w.recordText.toUTF8 = .ok ((c.save w : StateM FileTree _).run t).2 := by
  cases hwrite : t.write (c.entry w.path) w.recordText.toUTF8 with
  | error f =>
      have hrun : (Host.writeText (c.entry w.path) w.recordText : StateM FileTree _).run t =
          (.error f, t) := run_change_error hwrite
      left
      rw [save, Host.run_bind_eq hrun]
      rfl
  | ok t' =>
      have hrun : (Host.writeText (c.entry w.path) w.recordText : StateM FileTree _).run t =
          (.ok (), t') := run_change_ok hwrite
      right
      rw [save, Host.run_bind_eq hrun]
      rfl

end FeatureCache

/-! ### Extractors -/

/-- An extractor that stamps works with the identity that it is given, and that looks at nothing but the
text: the path may stand in its messages, but how it is written makes no other difference. -/
def Extractor.Faithful (e : Extractor) : Prop :=
  ∀ text i j w, i.same j = true → e.extract text i = .ok w → e.extract text j = .ok { w with identity := j }

namespace Extractor

theorem Faithful.identity {e : Extractor} (h : e.Faithful) {text : String} {i : Identity} {w : Work}
    (hextract : e.extract text i = .ok w) : w.identity = i := by
  have hself := h text i i w (Identity.same_refl i) hextract
  rw [Except.ok.inj (hextract.symm.trans hself)]

/-- Works are read from their records whatever their path. -/
theorem faithful_records : Extractor.records.Faithful := by
  intro text i j w _ h
  obtain ⟨w', hread, rfl⟩ := Except.map_eq_ok.mp h
  obtain ⟨w'', hdecode, hcheck⟩ := Except.bind_eq_ok.mp hread
  obtain ⟨⟨⟩, hchecked, hsame⟩ := Except.bind_eq_ok.mp hcheck
  obtain rfl := Except.ok.inj hsame
  refine Except.map_eq_ok.mpr ⟨w'', ?_, rfl⟩
  refine Except.bind_eq_ok.mpr ⟨w'', ?_, Except.bind_eq_ok.mpr ⟨(), ?_, rfl⟩⟩
  · exact Except.mapError_eq_ok.mpr (Except.mapError_eq_ok.mp hdecode)
  · exact Except.mapError_eq_ok.mpr (Except.mapError_eq_ok.mp hchecked)

end Extractor

/-! ### Files -/

namespace Loader

variable {l : Loader} {p : Path} {t u : FileTree} {W : List (List String)}

/-- What a loader gets from a file. -/
def resultAt (l : Loader) (t : FileTree) (p : Path) : Except LoadFault Work :=
  ((l.loadFile p : StateM FileTree _).run t).1

/-- What is extracted depends only on when the file was written, and extracting changes nothing. -/
theorem run_extract {e : Extractor} {content : ByteArray} (h : u.modified? p = t.modified? p) :
    (extract p e content : StateM FileTree _).run u =
      (((extract p e content : StateM FileTree _).run t).1, u) := by
  unfold extract
  split
  · rfl
  · split
    · rfl
    · split
      · rfl
      · change (Except.ok _, u) = (Except.ok _, u)
        rw [h]

/-- A work that is extracted is what the extractor gives, but perhaps for its date. -/
theorem extract_eq_ok {e : Extractor} {content : ByteArray} {w : Work}
    (h : ((extract p e content : StateM FileTree _).run t).1 = .ok w) :
    ∃ text w', Text.Utf8.decode content = .ok text ∧ e.extract text (.ofContent p content) = .ok w' ∧
      w = { w' with modified := w.modified } := by
  unfold extract at h
  split at h
  · cases h
  next text hdecode =>
    split at h
    · cases h
    next w' hextract =>
      refine ⟨text, w', hdecode, hextract, ?_⟩
      split at h <;> cases h <;> rfl

/-- What the extractor gives is extracted. -/
theorem exists_extract {e : Extractor} {content : ByteArray} {text : String} {w : Work}
    (hdecode : Text.Utf8.decode content = .ok text)
    (hextract : e.extract text (.ofContent p content) = .ok w) (t : FileTree) :
    ∃ modified, ((extract p e content : StateM FileTree _).run t).1 = .ok { w with modified } := by
  unfold extract
  rw [hdecode]
  dsimp only
  rw [hextract]
  dsimp only
  split
  · exact ⟨w.modified, rfl⟩
  · exact ⟨(t.modified? p).map Moment.textWithOffset, rfl⟩

/-- A work that is extracted has the path of the file and the digest of its content. -/
theorem identity_of_extract {e : Extractor} (hfaithful : e.Faithful) {content : ByteArray} {w : Work}
    (h : ((extract p e content : StateM FileTree _).run t).1 = .ok w) :
    w.identity = .ofContent p content := by
  obtain ⟨text, w', -, hextract, hw⟩ := extract_eq_ok h
  have hstamp := hfaithful.identity hextract
  rw [hw]
  exact hstamp

/-- What loading a file comes to, and the tree after it. -/
theorem run_loadWith (l : Loader) (p : Path) (e : Extractor) (t : FileTree) :
    (l.loadWith p e : StateM FileTree _).run t =
      match t.read p with
      | .error f => (.error (.unreadable p f), t)
      | .ok content =>
        match l.cache with
        | none => (((extract p e content : StateM FileTree _).run t).1, t)
        | some c =>
          match ((c.get? (.ofContent p content) : StateM FileTree _).run t).1 with
          | some w => (.ok w, t)
          | none =>
            match ((extract p e content : StateM FileTree _).run t).1 with
            | .ok w => (.ok w, ((c.save w : StateM FileTree _).run t).2)
            | .error f => (.error f, t) := by
  rw [loadWith, Host.run_bind_eq (show (Host.read p : StateM FileTree _).run t = (t.read p, t) from rfl)]
  cases t.read p with
  | error f => rfl
  | ok content =>
      dsimp only
      cases l.cache with
      | none => exact run_extract rfl
      | some c =>
          dsimp only
          rw [Host.run_bind_eq (FeatureCache.run_get? rfl)]
          cases ((c.get? (.ofContent p content) : StateM FileTree _).run t).1 with
          | some w => rfl
          | none =>
              dsimp only
              rw [Host.run_bind_eq (run_extract rfl)]
              cases ((extract p e content : StateM FileTree _).run t).1 with
              | ok w =>
                  dsimp only
                  exact Host.run_bind_eq (Prod.eta _).symm
              | error f => rfl

/-- What a loader gets from a file depends only on the file and its record in the cache. -/
theorem resultAt_congr (hfile : ∀ q ∈ trail p, u.find? q = t.find? q)
    (hentry : ∀ c ∈ l.cache, u.read (c.entry p) = t.read (c.entry p)) :
    l.resultAt u p = l.resultAt t p := by
  unfold resultAt loadFile
  split
  · rfl
  next e _ =>
    rw [run_loadWith, run_loadWith, read_congr hfile]
    cases hread : t.read p with
    | error f => rfl
    | ok content =>
        have hextract : (extract p e content : StateM FileTree _).run u =
            (((extract p e content : StateM FileTree _).run t).1, u) :=
          run_extract (modified?_congr hfile hread)
        dsimp only
        cases hcache : l.cache with
        | none =>
            dsimp only
            rw [hextract]
        | some c =>
            have hget := FeatureCache.run_get? (i := .ofContent p content) (hentry c hcache)
            dsimp only
            rw [hget, hextract]
            dsimp only
            split
            · rfl
            · split <;> rfl

theorem extractor?_eq_some (hrecords : l.extractors = Loader.default.extractors) {e : Extractor}
    (h : l.extractor? p = some e) : e = .records := by
  obtain ⟨extension, -, hlookup⟩ := Option.bind_eq_some_iff.mp h
  rw [hrecords] at hlookup
  change (List.lookup extension [("json", Extractor.records)]) = some e at hlookup
  rw [List.lookup_cons] at hlookup
  split at hlookup
  · exact (Option.some.inj hlookup).symm
  · cases hlookup

/-- Without a cache, loading a file changes nothing. -/
theorem run_loadFile_of_uncached (hcache : l.cache = none) (p : Path) (t : FileTree) :
    (l.loadFile p : StateM FileTree _).run t = (l.resultAt t p, t) := by
  unfold resultAt loadFile
  split
  · rfl
  · rw [run_loadWith, hcache]
    split <;> rfl

theorem identity_of_resultAt (hrecords : l.extractors = Loader.default.extractors)
    (hcache : l.cache = none) {w : Work} (h : l.resultAt t p = .ok w) :
    ∃ content, t.read p = .ok content ∧ w.identity = .ofContent p content := by
  unfold resultAt loadFile at h
  split at h
  · cases h
  next e hextractor =>
    obtain rfl := extractor?_eq_some hrecords hextractor
    rw [run_loadWith, hcache] at h
    split at h
    · cases h
    next content hread => exact ⟨content, hread, identity_of_extract Extractor.faithful_records h⟩

theorem path_of_resultAt {w : Work} (h : Loader.default.resultAt t p = .ok w) : w.path = p := by
  obtain ⟨content, -, hidentity⟩ := identity_of_resultAt rfl rfl h
  exact congrArg Identity.path hidentity

/-- Loading a file leaves the tree as it is, or puts the record of the work that it gets into the cache.
The loader gets the same work from then on. -/
theorem loadFile_cases (hrecords : l.extractors = Loader.default.extractors) (p : Path) (t : FileTree) :
    ((l.loadFile p : StateM FileTree _).run t).2 = t ∨ ∃ c ∈ l.cache, ∃ w : Work,
      l.resultAt t p = .ok w ∧
        t.write (c.entry p) w.recordText.toUTF8 = .ok ((l.loadFile p : StateM FileTree _).run t).2 ∧
        ∀ u : FileTree, (∀ q ∈ trail p, u.find? q = t.find? q) →
          u.read (c.entry p) = .ok w.recordText.toUTF8 → l.resultAt u p = .ok w := by
  unfold resultAt loadFile
  split
  · exact .inl rfl
  next e hextractor =>
    obtain rfl := extractor?_eq_some hrecords hextractor
    rw [run_loadWith]
    split
    · exact .inl rfl
    next content hread =>
      split
      · exact .inl rfl
      next c hcache =>
        split
        · exact .inl rfl
        next hget =>
          split
          next w hextract =>
            have hpath : w.path = p :=
              congrArg Identity.path (identity_of_extract Extractor.faithful_records hextract)
            have hsaved := FeatureCache.run_save c w t
            rw [hpath] at hsaved
            dsimp only
            refine hsaved.imp id fun hsave => ?_
            refine ⟨c, hcache, w, rfl, hsave, ?_⟩
            intro u hfile hentry
            -- Whether the record is found or not, it is the work that was extracted.
            have hextract' : (extract p .records content : StateM FileTree _).run u = (.ok w, u) := by
              rw [run_extract (modified?_congr hfile hread), hextract]
            rw [run_loadWith, read_congr hfile, hread]
            dsimp only
            rw [hcache]
            dsimp only
            rcases FeatureCache.get?_of_read (i := .ofContent p content) hentry with hget' | hget'
            · rw [hget']
              dsimp only
              rw [hextract']
            · rw [hget']
          · exact .inl rfl

/-! ### Sources -/

/-- Whether a file is loaded when it is found in a directory. -/
def wants (l : Loader) (p : Path) : Bool := l.supports p && !l.exclude p

/-- What may grow in a directory at some places is not loaded from there. -/
def Overlooks (l : Loader) (W : List (List String)) (directory : Path) : Prop :=
  ∀ q ∈ W, placeOf directory <+: q →
    l.wants (below directory (q.drop (placeOf directory).length)) = false

/-- Looking for files in a directory changes nothing. -/
theorem run_discover_eq (l : Loader) (d : Path) (t : FileTree) :
    (l.discover d : StateM FileTree _).run t =
      (if t.kind? d = some .directory then
        .ok ((((t.filesBelow d).map (below d)).filter l.wants).mergeSort fun a b => !(b.before a))
      else .error (.unreadable d (.other "not a directory")), t) := by
  rw [discover, Host.run_bind_eq (show (Host.isDirectory d : StateM FileTree _).run t =
    (decide (t.kind? d = some .directory), t) from rfl)]
  by_cases hkind : t.kind? d = some .directory
  · rw [if_pos (decide_eq_true hkind), if_pos hkind]
    rfl
  · rw [if_neg (by simpa using hkind), if_neg hkind]
    rfl

/-- What is found in a directory does not change with what grows at places that are overlooked, and
looking for it changes nothing. -/
theorem run_discover {d : Path} (h : Grown W t u) (hclear : ∀ q ∈ trail d, q ∉ W)
    (hoverlooks : l.Overlooks W d) : (l.discover d : StateM FileTree _).run u =
      (((l.discover d : StateM FileTree _).run t).1, u) := by
  have hfound : ((u.filesBelow d).map (below d)).filter l.wants =
      ((t.filesBelow d).map (below d)).filter l.wants := by
    rw [List.filter_map, List.filter_map, filesBelow, filesBelow, target_congr (h.clear hclear)]
    cases htarget : t.target d with
    | error f => rfl
    | ok g =>
        have hplace := (place_of_target htarget).1
        refine congrArg (List.map (below d)) (h.filesFrom_eq fun q hq hbelow => ?_)
        rw [hplace] at hbelow
        rw [Function.comp_apply, hplace]
        exact hoverlooks q hq hbelow
  rw [run_discover_eq, run_discover_eq, kind?_congr (h.clear hclear), hfound]

/-- The files that are found in a directory. -/
def found (l : Loader) (t : FileTree) (directory : Path) : List Path :=
  match ((l.discover directory : StateM FileTree _).run t).1 with
  | .error _ => []
  | .ok paths => paths

/-- The files that are loaded. -/
def sources (l : Loader) (t : FileTree) (files directories : List Path) : List Path :=
  files ++ directories.flatMap (l.found t)

/-- What is found in a directory is loaded. -/
theorem mem_sources {files directories paths : List Path} {d : Path} (hd : d ∈ directories)
    (hfound : ((l.discover d : StateM FileTree _).run t).1 = .ok paths) :
    ∀ p ∈ paths, p ∈ l.sources t files directories := by
  intro p hp
  refine List.mem_append_right _ (List.mem_flatMap.mpr ⟨d, hd, ?_⟩)
  rwa [found, hfound]

/-- The same files are loaded when what has grown is overlooked. -/
theorem sources_eq {files directories : List Path} (h : Grown W t u)
    (hclear : ∀ d ∈ directories, ∀ q ∈ trail d, q ∉ W)
    (hoverlooks : ∀ d ∈ directories, l.Overlooks W d) :
    l.sources u files directories = l.sources t files directories := by
  rw [sources, sources]
  congr 1
  refine List.flatMap_congr fun d hd => ?_
  rw [found, found, run_discover h (hclear d hd) (hoverlooks d hd)]

/-- Where the cache has the records of some files. -/
def entryPlaces (l : Loader) (paths : List Path) : List (List String) :=
  match l.cache with
  | none => []
  | some c => paths.map fun p => placeOf (c.entry p)

theorem mem_entryPlaces {paths : List Path} {c : FeatureCache} (hc : c ∈ l.cache) (hp : p ∈ paths) :
    placeOf (c.entry p) ∈ l.entryPlaces paths := by
  rw [entryPlaces, hc]
  exact List.mem_map.mpr ⟨p, hp, rfl⟩

/-- The places where the cache may get records of some files. -/
def kept (l : Loader) (paths : List Path) (t : FileTree) : List (List String) :=
  t.vacant (l.entryPlaces paths)

/-- What grows at some places is apart from the sources of a loader. -/
structure Settled (l : Loader) (W : List (List String)) (files directories : List Path)
    (t : FileTree) : Prop where
  records : l.extractors = Loader.default.extractors
  clear : ∀ p ∈ l.sources t files directories ++ directories, ∀ q ∈ trail p, q ∉ W
  overlooks : ∀ d ∈ directories, l.Overlooks W d
  /-- The cache is open, what it gets is apart from the sources, and no two sources share a record. -/
  opened : ∀ c ∈ l.cache, t.IsOpen c.root
  kept : ∀ q ∈ l.kept (l.sources t files directories) t, q ∈ W
  distinct : ∀ c ∈ l.cache, ∀ p ∈ l.sources t files directories,
    ∀ q ∈ l.sources t files directories, c.entry p = c.entry q → p = q

/-- A loader gets the same from two trees. -/
def SameFor (l : Loader) (paths : List Path) (t u : FileTree) : Prop :=
  ∀ p ∈ paths, l.resultAt u p = l.resultAt t p

namespace Settled

variable {files directories : List Path}

theorem run_discover (h : l.Settled W files directories t) (hgrown : Grown W t u) {d : Path}
    (hd : d ∈ directories) : (l.discover d : StateM FileTree _).run u =
      (((l.discover d : StateM FileTree _).run t).1, u) :=
  Loader.run_discover hgrown (h.clear d (List.mem_append_right _ hd)) (h.overlooks d hd)

theorem sources_eq (h : l.Settled W files directories t) (hgrown : Grown W t u) :
    l.sources u files directories = l.sources t files directories :=
  Loader.sources_eq hgrown (fun d hd => h.clear d (List.mem_append_right _ hd)) h.overlooks

theorem grown (h : l.Settled W files directories t) (hgrown : Grown W t u) :
    l.Settled W files directories u := by
  have hsources := h.sources_eq hgrown
  refine ⟨h.records, by rw [hsources]; exact h.clear, h.overlooks,
    fun c hc => hgrown.isOpen (h.opened c hc), ?_, by rw [hsources]; exact h.distinct⟩
  rw [hsources]
  exact fun q hq => h.kept q (hgrown.mem_vacant hq)

/-- What grows apart from the sources and their records makes no difference to a loader. -/
theorem sameFor (h : l.Settled W files directories t) {W' : List (List String)}
    (hgrown : Grown W' t u) (hW : ∀ q ∈ W', q ∈ W) (hentry : ∀ c ∈ l.cache,
      ∀ p ∈ l.sources t files directories, placeOf (c.entry p) ∉ W') :
    l.SameFor (l.sources t files directories) t u := by
  intro p hp
  refine resultAt_congr (hgrown.clear fun q hq hmem => ?_) fun c hc => ?_
  · exact h.clear p (List.mem_append_left _ hp) q hq (hW q hmem)
  · exact FeatureCache.read_entry hgrown (h.opened c hc) (hentry c hc p hp)

/-- Loading a source only changes the cache, and makes no difference to the loader. -/
theorem loadFile (h : l.Settled W files directories t) (hp : p ∈ l.sources t files directories) :
    Grown (l.kept (l.sources t files directories) t) t ((l.loadFile p : StateM FileTree _).run t).2 ∧
      l.SameFor (l.sources t files directories) t ((l.loadFile p : StateM FileTree _).run t).2 := by
  rcases loadFile_cases h.records p t with heq | ⟨c, hc, w, hw, hwrite, hagain⟩
  · rw [heq]
    exact ⟨.refl _ t, fun _ _ => rfl⟩
  obtain ⟨hgrown, hfree⟩ := grown_write hwrite
  have hkept : placeOf (c.entry p) ∈ l.kept (l.sources t files directories) t :=
    mem_vacant.mpr ⟨mem_entryPlaces hc hp, (mem_vacant.mp hfree).2⟩
  have hsub : ∀ q ∈ [placeOf (c.entry p)], q ∈ l.kept (l.sources t files directories) t := by
    intro q hq
    rw [List.mem_singleton.mp hq]
    exact hkept
  have hclear {p' : Path} (hp' : p' ∈ l.sources t files directories) :
      ∀ q ∈ trail p', q ∉ [placeOf (c.entry p)] := fun q hq hmem =>
    h.clear p' (List.mem_append_left _ hp') q hq (h.kept q (hsub q hmem))
  refine ⟨hgrown.mono hsub, fun p' hp' => ?_⟩
  by_cases heq : p' = p
  · subst heq
    rw [hw]
    exact hagain _ (hgrown.clear (hclear hp)) (congrArg Prod.snd (look_write hwrite))
  · refine resultAt_congr (hgrown.clear (hclear hp')) fun c' hc' => ?_
    obtain rfl : c' = c := Option.some.inj (hc'.symm.trans hc)
    refine FeatureCache.read_entry hgrown (h.opened c' hc) fun hmem => heq ?_
    exact h.distinct c' hc p' hp' p hp
      (FeatureCache.entry_inj (h.opened c' hc) (List.mem_singleton.mp hmem))

end Settled

/-! ### Loading -/

/-- What a loader does, from a tree on that may have grown: it changes only the cache, which makes no
difference to it, and its answer is the same in trees that make no difference to it. -/
structure Repeats (l : Loader) (W : List (List String)) (paths : List Path) (t : FileTree)
    (x : StateM FileTree α) : Prop where
  grown : ∀ u, Grown W t u → Grown (l.kept paths t) u (x.run u).2
  same : ∀ u, Grown W t u → l.SameFor paths u (x.run u).2
  time : ∀ u, Grown W t u → (x.run u).2.time = u.time
  answer : ∀ u v, Grown W t u → Grown W t v → l.SameFor paths u v → (x.run v).1 = (x.run u).1

namespace Repeats

variable {files directories paths : List Path} {α β : Type}

theorem of_look {x : StateM FileTree α} {a : α} (h : ∀ u, Grown W t u → x.run u = (a, u)) :
    l.Repeats W paths t x where
  grown u hu := by
    rw [h u hu]
    exact .refl _ u
  same u hu := by
    rw [h u hu]
    exact fun _ _ => rfl
  time u hu := by rw [h u hu]
  answer u v hu hv _ := by rw [h u hu, h v hv]

theorem pure (a : α) : l.Repeats W paths t (Pure.pure a : StateM FileTree α) := of_look fun _ _ => rfl

theorem bind {x : StateM FileTree α} {k : α → StateM FileTree β} (hkept : ∀ q ∈ l.kept paths t, q ∈ W)
    (hx : l.Repeats W paths t x) (hk : ∀ a, l.Repeats W paths t (k a)) :
    l.Repeats W paths t (x >>= k) := by
  have hrun (u : FileTree) : (x >>= k).run u = (k (x.run u).1).run (x.run u).2 := rfl
  have hafter (u : FileTree) (hu : Grown W t u) : Grown W t (x.run u).2 :=
    hu.trans ((hx.grown u hu).mono hkept)
  refine ⟨fun u hu => ?_, fun u hu p hp => ?_, fun u hu => ?_, fun u v hu hv hsame => ?_⟩
  · rw [hrun]
    exact (hx.grown u hu).trans ((hk _).grown _ (hafter u hu))
  · rw [hrun]
    exact ((hk _).same _ (hafter u hu) p hp).trans (hx.same u hu p hp)
  · rw [hrun]
    exact ((hk _).time _ (hafter u hu)).trans (hx.time u hu)
  · rw [hrun, hrun, hx.answer u v hu hv hsame]
    refine (hk _).answer _ _ (hafter u hu) (hafter v hv) fun p hp => ?_
    rw [hx.same u hu p hp, hx.same v hv p hp, hsame p hp]

/-- After something is looked up whose answer is known. -/
theorem bind_look {x : StateM FileTree α} {k : α → StateM FileTree β} {a : α}
    (hx : ∀ u, Grown W t u → x.run u = (a, u)) (hk : l.Repeats W paths t (k a)) :
    l.Repeats W paths t (x >>= k) := by
  have hrun (u : FileTree) (hu : Grown W t u) : (x >>= k).run u = (k a).run u :=
    Host.run_bind_eq (hx u hu)
  refine ⟨fun u hu => ?_, fun u hu => ?_, fun u hu => ?_, fun u v hu hv hsame => ?_⟩
  · rw [hrun u hu]
    exact hk.grown u hu
  · rw [hrun u hu]
    exact hk.same u hu
  · rw [hrun u hu]
    exact hk.time u hu
  · rw [hrun u hu, hrun v hv]
    exact hk.answer u v hu hv hsame

theorem loadFile (h : l.Settled W files directories t) (hp : p ∈ l.sources t files directories) :
    l.Repeats W (l.sources t files directories) t (l.loadFile p) := by
  have hloaded (u : FileTree) (hu : Grown W t u) :
      Grown (l.kept (l.sources t files directories) t) u ((l.loadFile p : StateM FileTree _).run u).2 ∧
        l.SameFor (l.sources t files directories) u
          ((l.loadFile p : StateM FileTree _).run u).2 := by
    have hsources := h.sources_eq hu
    obtain ⟨hgrown, hsame⟩ := (h.grown hu).loadFile (hsources ▸ hp)
    rw [hsources] at hgrown hsame
    exact ⟨hgrown.mono fun q hq => hu.mem_vacant hq, hsame⟩
  have htime (u : FileTree) : ((l.loadFile p : StateM FileTree _).run u).2.time = u.time := by
    rcases loadFile_cases h.records p u with heq | ⟨c, -, w, -, hwrite, -⟩
    · rw [heq]
    · obtain ⟨g, -, -, -, heq⟩ := write_eq_ok hwrite
      rw [heq]
      rfl
  exact ⟨fun u hu => (hloaded u hu).1, fun u hu => (hloaded u hu).2, fun u _ => htime u,
    fun u v _ _ hsame => hsame p hp⟩

theorem loadMany (h : l.Settled W files directories t)
    (hpaths : ∀ p ∈ paths, p ∈ l.sources t files directories) :
    l.Repeats W (l.sources t files directories) t (l.loadMany paths) := by
  induction paths with
  | nil => exact .pure _
  | cons p paths ih =>
      obtain ⟨hp, hrest⟩ := List.forall_mem_cons.mp hpaths
      exact .bind h.kept (.loadFile h hp) fun _ => .bind h.kept (ih hrest) fun _ => .pure _

theorem loadDirectories (h : l.Settled W files directories t) {ds : List Path}
    (hds : ∀ d ∈ ds, d ∈ directories) :
    l.Repeats W (l.sources t files directories) t (l.loadDirectories ds) := by
  induction ds with
  | nil => exact .pure _
  | cons d ds ih =>
      obtain ⟨hd, hrest⟩ := List.forall_mem_cons.mp hds
      refine .bind_look (fun u hu => h.run_discover hu hd) ?_
      cases hfound : ((l.discover d : StateM FileTree _).run t).1 with
      | error f => exact .bind h.kept (ih hrest) fun _ => .pure _
      | ok paths =>
          have hworks := loadMany h (mem_sources hd hfound)
          exact .bind h.kept hworks fun _ => .bind h.kept (ih hrest) fun _ => .pure _

/-- **Loading works changes nothing but the cache**, and what is loaded is the same when they are loaded
again. -/
theorem load (h : l.Settled W files directories t) :
    l.Repeats W (l.sources t files directories) t (l.load files directories) := by
  have hdirectories := loadDirectories h fun _ hd => hd
  unfold Loader.load
  split
  · exact hdirectories
  · have hfiles := loadMany h fun p hp => List.mem_append_left _ hp
    exact .bind h.kept hfiles fun _ => .bind h.kept hdirectories fun _ => .pure _

end Repeats

/-! ### What is loaded -/

/-- What a loader answers has a property, in all trees that make no difference to it. -/
def Gives (l : Loader) (W : List (List String)) (paths : List Path) (t : FileTree)
    (x : StateM FileTree α) (P : α → Prop) : Prop :=
  ∀ u, Grown W t u → l.SameFor paths t u → P (x.run u).1

namespace Gives

variable {files directories paths : List Path} {α β : Type}

theorem pure {P : α → Prop} {a : α} (h : P a) : l.Gives W paths t (Pure.pure a : StateM FileTree α) P :=
  fun _ _ _ => h

theorem bind {x : StateM FileTree α} {k : α → StateM FileTree β} {P : α → Prop} {Q : β → Prop}
    (hkept : ∀ q ∈ l.kept paths t, q ∈ W) (hrepeats : l.Repeats W paths t x)
    (hx : l.Gives W paths t x P) (hk : ∀ a, P a → l.Gives W paths t (k a) Q) :
    l.Gives W paths t (x >>= k) Q := by
  intro u hu hsame
  refine hk _ (hx u hu hsame) _ (hu.trans ((hrepeats.grown u hu).mono hkept)) fun p hp => ?_
  exact (hrepeats.same u hu p hp).trans (hsame p hp)

/-- After something is looked up whose answer is known. -/
theorem bind_look {x : StateM FileTree α} {k : α → StateM FileTree β} {a : α} {Q : β → Prop}
    (hx : ∀ u, Grown W t u → x.run u = (a, u)) (hk : l.Gives W paths t (k a) Q) :
    l.Gives W paths t (x >>= k) Q := by
  intro u hu hsame
  rw [Host.run_bind_eq (hx u hu)]
  exact hk u hu hsame

/-- Works that a loader gets from some files. -/
def From (l : Loader) (t : FileTree) (paths : List Path) (works : List Work) : Prop :=
  ∀ w ∈ works, ∃ p ∈ paths, l.resultAt t p = .ok w

theorem loadMany (h : l.Settled W files directories t)
    (hpaths : ∀ p ∈ paths, p ∈ l.sources t files directories) :
    l.Gives W (l.sources t files directories) t (l.loadMany paths)
      fun answer => From l t (l.sources t files directories) answer.1 := by
  induction paths with
  | nil => exact .pure nofun
  | cons p paths ih =>
      obtain ⟨hp, hrest⟩ := List.forall_mem_cons.mp hpaths
      refine .bind (P := (· = l.resultAt t p)) h.kept (.loadFile h hp) (fun u _ hsame => hsame p hp) ?_
      rintro answer rfl
      refine .bind h.kept (.loadMany h hrest) (ih hrest) fun others hothers => .pure ?_
      cases hanswer : l.resultAt t p with
      | ok w => exact List.forall_mem_cons.mpr ⟨⟨p, hp, hanswer⟩, hothers⟩
      | error f => exact hothers

theorem loadDirectories (h : l.Settled W files directories t) {ds : List Path}
    (hds : ∀ d ∈ ds, d ∈ directories) :
    l.Gives W (l.sources t files directories) t (l.loadDirectories ds)
      fun answer => ∀ g ∈ answer.groups, From l t (l.sources t files directories) g.works := by
  induction ds with
  | nil => exact .pure nofun
  | cons d ds ih =>
      obtain ⟨hd, hrest⟩ := List.forall_mem_cons.mp hds
      refine .bind_look (fun u hu => h.run_discover hu hd) ?_
      cases hfound : ((l.discover d : StateM FileTree _).run t).1 with
      | error f =>
          exact .bind h.kept (.loadDirectories h hrest) (ih hrest) fun _ hothers => .pure hothers
      | ok paths =>
          have hpaths : ∀ p ∈ paths, p ∈ l.sources t files directories := mem_sources hd hfound
          refine .bind h.kept (.loadMany h hpaths) (loadMany h hpaths) fun _ hworks => ?_
          refine .bind h.kept (.loadDirectories h hrest) (ih hrest) fun _ hothers => .pure ?_
          exact List.forall_mem_cons.mpr ⟨hworks, hothers⟩

/-- **The works that are loaded** are those that the loader gets from the sources. -/
theorem load (h : l.Settled W files directories t) :
    l.Gives W (l.sources t files directories) t (l.load files directories)
      fun answer => ∀ g ∈ answer.groups, From l t (l.sources t files directories) g.works := by
  have hdirectories := loadDirectories h fun _ hd => hd
  unfold Loader.load
  split
  · exact hdirectories
  · have hfiles : ∀ p ∈ files, p ∈ l.sources t files directories :=
      fun p hp => List.mem_append_left _ hp
    refine .bind h.kept (.loadMany h hfiles) (loadMany h hfiles) fun _ hworks => ?_
    refine .bind h.kept (.loadDirectories h fun _ hd => hd) hdirectories fun _ hothers => .pure ?_
    exact List.forall_mem_cons.mpr ⟨hworks, hothers⟩

end Gives

end Loader

end Likeness
