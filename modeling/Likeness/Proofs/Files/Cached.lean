import Likeness.Proofs.Files.Loading
import Likeness.Proofs.Store.Records

/-!
# Likeness.Proofs.Files.Cached

A cache of features gives no wrong features.

Files are written, changed and taken away, and works are loaded through a cache in between
(`FileEvent`). Two paths may share a record, and a record may be older than the source that it is looked up
for. But all that is ever where the cache keeps records are records of works that were extracted from
contents seen before (`Scene.Kept`), and such a work is only given for an identity that is its own. So
unless two of these contents have the same digest, the loader answers what it would answer without a cache
(`cached_load`).
-/

namespace Likeness

open FileTree

/-! ### Paths -/

namespace Path

variable {p q : Path}

/-- Paths that are the same place have the same names. -/
theorem components_of_same (h : p.same q = true) : p.components = q.components := by
  have hinj : Function.Injective Component.key := fun _ _ hkey => Component.key_inj hkey
  exact List.map_injective_iff.mpr hinj (beq_iff_eq.mp h)

theorem extension?_of_same (h : p.same q = true) : p.extension? = q.extension? := by
  rw [extension?, extension?, fileName?, fileName?, components_of_same h]

end Path

theorem Loader.extractor?_of_same (l : Loader) {p q : Path} (h : p.same q = true) :
    l.extractor? p = l.extractor? q := by
  rw [extractor?, extractor?, Path.extension?_of_same h]

/-! ### Trees -/

namespace FileTree

variable {t : FileTree} {p : Path} {place q : List String} {content : ByteArray} {modified : Moment}

/-- Taking something away adds no files. -/
theorem file_of_erase (h : (t.erase place).find? q = some (.file content modified)) :
    t.find? q = some (.file content modified) := by
  by_cases hroot : q = []
  · rw [find?, if_pos hroot] at h
    cases h
  rw [find?, if_neg hroot] at h ⊢
  cases hkeep : !place.isPrefixOf q with
  | true =>
      rw [← h]
      exact (lookup_filter (fun q => !place.isPrefixOf q) hkeep t.entries).symm
  | false =>
      have hnone : (t.erase place).entries.lookup q = none := by
        refine List.lookup_eq_none_iff.mpr fun e he => ?_
        obtain ⟨-, hkept⟩ := List.mem_filter.mp he
        refine bne_iff_ne.mpr ?_
        rintro rfl
        cases hkeep.symm.trans hkept
      rw [hnone] at h
      cases h

theorem file_of_remove (h : (t.remove p).find? q = some (.file content modified)) :
    t.find? q = some (.file content modified) := by
  unfold remove at h
  split at h
  · exact h
  · exact file_of_erase h

end FileTree

/-! ### Extractors -/

theorem Loader.faithful_default : ∀ e ∈ Loader.default.extractors, e.2.Faithful := by
  intro e he
  obtain rfl := List.mem_singleton.mp he
  exact Extractor.faithful_records

/-! ### Histories -/

/-- What happens to a tree whose works are loaded through a cache. -/
inductive FileEvent where
  | write (p : Path) (content : ByteArray)
  | makeDirectories (p : Path)
  /-- A file or a directory is taken away, with what is below it. -/
  | remove (p : Path)
  | wait (now : Moment)
  | load (p : Path)

/-- A tree, and the contents that were seen of the files that were loaded so far. -/
structure Scene where
  tree : FileTree
  seen : List ByteArray

namespace Scene

variable (l : Loader)

/-- The content that a loader sees of a file. -/
def look (s : Scene) (p : Path) : Option ByteArray :=
  if l.supports p then (s.tree.read p).toOption else none

/-- What comes of an event. -/
def after (s : Scene) : FileEvent → Scene
  | .write p content => { s with tree := ((Host.write p content : StateM FileTree _).run s.tree).2 }
  | .makeDirectories p => { s with tree := ((Host.makeDirectories p : StateM FileTree _).run s.tree).2 }
  | .remove p => { s with tree := s.tree.remove p }
  | .wait now => { s with tree := { s.tree with time := now } }
  | .load p => ⟨((l.loadFile p : StateM FileTree _).run s.tree).2, (s.look l p).toList ++ s.seen⟩

/-- What comes of many events, one after the other. -/
def history (s : Scene) (es : List FileEvent) : Scene := es.foldl (after l) s

end Scene

/-- Whether a cache keeps the record of some path at a place. -/
def FeatureCache.KeepsAt (c : FeatureCache) (place : List String) : Prop :=
  ∃ p, placeOf (c.entry p) = place

/-- An event that writes no file where a cache keeps records. -/
def FileEvent.Spares (c : FeatureCache) : FileEvent → Prop
  | .write p _ => ¬ c.KeepsAt (placeOf p)
  | _ => True

/-! ### Records -/

/-- What loading a file does to the tree: nothing, or the record of the work that was extracted is put into
the cache, which did not have it. -/
theorem Loader.run_loadFile_cases {l : Loader} {c : FeatureCache} (hcache : l.cache = some c) (p : Path)
    (t : FileTree) : ((l.loadFile p : StateM FileTree _).run t).2 = t ∨
      ∃ e content w, l.extractor? p = some e ∧ t.read p = .ok content ∧
        ((c.get? (.ofContent p content) : StateM FileTree _).run t).1 = none ∧
        ((extract p e content : StateM FileTree _).run t).1 = .ok w ∧
        t.write (c.entry w.path) w.recordText.toUTF8 =
          .ok ((l.loadFile p : StateM FileTree _).run t).2 := by
  unfold loadFile
  split
  · exact .inl rfl
  next e hextractor =>
    rw [run_loadWith, hcache]
    split
    · exact .inl rfl
    next content hread =>
      dsimp only
      split
      · exact .inl rfl
      next hmiss =>
        split
        next w hextract =>
          dsimp only
          refine (FeatureCache.run_save c w t).imp id fun hwrite => ?_
          exact ⟨e, content, w, hextractor, hread, hmiss, hextract, hwrite⟩
        · exact .inl rfl

namespace FeatureCache

variable {c : FeatureCache} {t u : FileTree} {P Q : Work → Prop}

/-- All files where a cache keeps its records are records of works of some kind. -/
def Holds (c : FeatureCache) (t : FileTree) (P : Work → Prop) : Prop :=
  ∀ q content modified, c.KeepsAt q → t.find? q = some (.file content modified) →
    ∃ w : Work, content = w.recordText.toUTF8 ∧ P w

/-- No other contents than were there before. -/
theorem Holds.of_files (h : c.Holds t P) (hPQ : ∀ w, P w → Q w)
    (hfiles : ∀ q content modified, c.KeepsAt q → u.find? q = some (.file content modified) →
      ∃ before, t.find? q = some (.file content before)) : c.Holds u Q := by
  intro q content modified hplace hfind
  obtain ⟨before, hbefore⟩ := hfiles q content modified hplace hfind
  obtain ⟨w, hcontent, hw⟩ := h q content before hplace hbefore
  exact ⟨w, hcontent, hPQ w hw⟩

/-- What the cache gives for an identity is a work of that identity, and one of those that it holds. -/
theorem Holds.get? (h : c.Holds t P) {i : Identity} {w : Work}
    (hget : ((c.get? i : StateM FileTree _).run t).1 = some w) :
    w.identity.same i = true ∧ P w := by
  obtain ⟨⟨content, hread⟩, hsame⟩ := get?_eq_some hget
  obtain ⟨g, modified, htarget, -, hfind⟩ := read_eq_ok hread
  obtain ⟨w', rfl, hw⟩ := h g.place content modified ⟨i.path, (place_of_target htarget).1.symm⟩ hfind
  rcases get?_of_read hread with hnone | hsome
  · cases hnone.symm.trans hget
  · obtain rfl := Option.some.inj (hsome.symm.trans hget)
    exact ⟨hsame, hw⟩

/-- Loading a file adds no record but that of a work extracted from it. -/
theorem Holds.loadFile {l : Loader} {p : Path} (h : c.Holds t P) (hcache : l.cache = some c)
    (hnew : ∀ e content w, l.extractor? p = some e → t.read p = .ok content →
      ((c.get? (.ofContent p content) : StateM FileTree _).run t).1 = none →
        ((Loader.extract p e content : StateM FileTree _).run t).1 = .ok w → P w) :
    c.Holds ((l.loadFile p : StateM FileTree _).run t).2 P := by
  rcases Loader.run_loadFile_cases hcache p t with
    hsame | ⟨e, content, w, hextractor, hread, hmiss, hextract, hwrite⟩
  · rwa [hsame]
  · intro q content' modified hplace hfind
    by_cases hhere : q ∈ [placeOf (c.entry w.path)]
    · rw [List.mem_singleton.mp hhere, find?_write hwrite] at hfind
      obtain ⟨rfl, -⟩ := FileEntry.file.inj (Option.some.inj hfind)
      exact ⟨w, rfl, hnew e content w hextractor hread hmiss hextract⟩
    · rw [(grown_write hwrite).1.find?_eq hhere] at hfind
      exact h q content' modified hplace hfind

end FeatureCache

namespace Scene

variable {l : Loader} {c : FeatureCache} {s : Scene} {p : Path}

/-- What is not a load leaves nothing where a cache keeps its records but what was there before. -/
theorem file_of_after {event : FileEvent} (hspares : event.Spares c) (hload : ∀ p, event ≠ .load p)
    {q : List String} {content : ByteArray} {modified : Moment} (hplace : c.KeepsAt q)
    (hfind : (s.after l event).tree.find? q = some (.file content modified)) :
    s.tree.find? q = some (.file content modified) := by
  cases event with
  | write p content' =>
      have hcases : (s.after l (.write p content')).tree = s.tree ∨
          s.tree.write p content' = .ok (s.after l (.write p content')).tree := change_cases _ s.tree
      rcases hcases with hsame | hwrite
      · rwa [hsame] at hfind
      · have hne : q ∉ [placeOf p] := by
          intro hmem
          exact hspares (List.mem_singleton.mp hmem ▸ hplace)
        rwa [(grown_write hwrite).1.find?_eq hne] at hfind
  | makeDirectories p =>
      have hcases : (s.after l (.makeDirectories p)).tree = s.tree ∨
          s.tree.makeDirectories p = .ok (s.after l (.makeDirectories p)).tree :=
        change_cases _ s.tree
      rcases hcases with hsame | hmade
      · rwa [hsame] at hfind
      · exact (makeDirectories_eq_ok hmade).2.2.2 q content modified hfind
  | remove p => exact file_of_remove hfind
  | wait now => exact hfind
  | load p => exact absurd rfl (hload p)

end Scene

/-! ### What is kept -/

/-- A work that a loader extracts from one of some contents, in some tree. -/
inductive Loader.Extracts (l : Loader) (seen : List ByteArray) (w : Work) : Prop where
  | intro {p : Path} {e : Extractor} {content : ByteArray} {t : FileTree} (known : content ∈ seen)
      (extractor : l.extractor? p = some e)
      (extracted : ((extract p e content : StateM FileTree _).run t).1 = .ok w)

theorem Loader.Extracts.mono {l : Loader} {seen seen' : List ByteArray} {w : Work}
    (h : l.Extracts seen w) (hseen : ∀ content ∈ seen, content ∈ seen') : l.Extracts seen' w := by
  obtain ⟨known, extractor, extracted⟩ := h
  exact ⟨hseen _ known, extractor, extracted⟩

namespace Scene

variable {l : Loader} {c : FeatureCache} {s : Scene} {p : Path}

/-- All files where the cache keeps its records are records of works that were extracted. -/
def Kept (l : Loader) (c : FeatureCache) (s : Scene) : Prop :=
  ∀ q content modified, c.KeepsAt q → s.tree.find? q = some (.file content modified) →
    ∃ w : Work, content = w.recordText.toUTF8 ∧ l.Extracts s.seen w

theorem kept_iff : s.Kept l c ↔ c.Holds s.tree (l.Extracts s.seen) := Iff.rfl

/-! ### One event -/

theorem look_eq_some {e : Extractor} {content : ByteArray} (hextractor : l.extractor? p = some e)
    (hread : s.tree.read p = .ok content) : s.look l p = some content := by
  rw [look, Loader.supports, hextractor, hread]
  rfl

/-- **One event** leaves nothing but records of extracted works where the cache keeps its records. -/
theorem Kept.after (h : s.Kept l c) (hcache : l.cache = some c) {event : FileEvent}
    (hspares : event.Spares c) : (s.after l event).Kept l c := by
  rw [kept_iff] at h ⊢
  by_cases hload : ∃ p, event = .load p
  · obtain ⟨p, rfl⟩ := hload
    have hseen : c.Holds s.tree (l.Extracts (s.after l (.load p)).seen) :=
      h.of_files (fun _ hw => hw.mono fun _ => List.mem_append_right _)
        fun _ _ modified _ hfind => ⟨modified, hfind⟩
    refine hseen.loadFile hcache fun e content w hextractor hread _ hextract => ?_
    exact ⟨List.mem_append_left _ (Option.mem_toList.mpr (look_eq_some hextractor hread)), hextractor,
      hextract⟩
  · push Not at hload
    have hsame : (s.after l event).seen = s.seen := by
      cases event with
      | load p => exact absurd rfl (hload p)
      | _ => rfl
    rw [hsame]
    exact h.of_files (fun _ => id) fun _ _ modified hplace hfind =>
      ⟨modified, file_of_after hspares hload hplace hfind⟩

/-- **Many events** do so too. -/
theorem Kept.history (h : s.Kept l c) (hcache : l.cache = some c) {es : List FileEvent}
    (hspares : ∀ event ∈ es, event.Spares c) : (s.history l es).Kept l c := by
  induction es generalizing s with
  | nil => exact h
  | cons event es ih =>
      obtain ⟨hevent, hes⟩ := List.forall_mem_cons.mp hspares
      exact ih (h.after hcache hevent) hes

end Scene

/-! ### Loading -/

/-- Two works with the same features: all that is told of them but for their paths, their digests and their
dates. -/
def Work.SameFeatures (a b : Work) : Prop :=
  { b with identity := a.identity, modified := a.modified } = a

/-- A loader answers the same with a cache and without: it fails for the same reason, or it gives works
that have the identity of the content and the same features. -/
inductive SameLoad (p : Path) (read : Except FileFault ByteArray) :
    Except LoadFault Work → Except LoadFault Work → Prop where
  | failed (f : LoadFault) : SameLoad p read (.error f) (.error f)
  | loaded {content : ByteArray} {w v : Work} (seen : read = .ok content)
      (identity : w.identity.same (.ofContent p content) = true)
      (fresh : v.identity = .ofContent p content) (features : w.SameFeatures v) :
      SameLoad p read (.ok w) (.ok v)

namespace Loader

variable {l : Loader} {c : FeatureCache} {s : Scene} {p : Path}

theorem faithful_of_extractor? (hfaithful : ∀ e ∈ l.extractors, e.2.Faithful) {e : Extractor}
    (h : l.extractor? p = some e) : e.Faithful := by
  obtain ⟨extension, -, hlookup⟩ := Option.bind_eq_some_iff.mp h
  obtain ⟨before, after, hsplit, -⟩ := List.lookup_eq_some_iff.mp hlookup
  refine hfaithful (extension, e) ?_
  rw [hsplit]
  exact List.mem_append_right _ List.mem_cons_self

/-- Works that are extracted from the same content at the same place have the same features. -/
theorem Extracts.sameFeatures {seen : List ByteArray} {w : Work} (h : l.Extracts seen w)
    (hfaithful : ∀ e ∈ l.extractors, e.2.Faithful) {content : ByteArray} {e : Extractor}
    (hextractor : l.extractor? p = some e) (hsame : w.identity.same (.ofContent p content) = true)
    (hdigest : ∀ known ∈ seen, Sha256.hash known = Sha256.hash content → known = content)
    (t : FileTree) : ∃ v : Work, ((extract p e content : StateM FileTree _).run t).1 = .ok v ∧
      v.identity = .ofContent p content ∧ w.SameFeatures v := by
  obtain @⟨p', e', content', t', hknown, hextractor', hextract⟩ := h
  have hidentity := identity_of_extract (faithful_of_extractor? hfaithful hextractor') hextract
  rw [hidentity] at hsame
  have hpath : p'.same p = true :=
    Identity.path_same (i := .ofContent p' content') (j := .ofContent p content) hsame
  obtain ⟨-, hhash⟩ := Bool.and_eq_true_iff.mp hsame
  obtain rfl := hdigest content' hknown (of_decide_eq_true hhash)
  rw [l.extractor?_of_same hpath, hextractor] at hextractor'
  obtain rfl := Option.some.inj hextractor'
  obtain ⟨text, w', hdecode, hread, hw⟩ := extract_eq_ok hextract
  have hfresh := faithful_of_extractor? hfaithful hextractor text _ _ w' hsame hread
  obtain ⟨modified, hv⟩ := exists_extract hdecode hfresh t
  refine ⟨_, hv, rfl, ?_⟩
  rw [hw]
  rfl

/-- The same loader without a cache. -/
def uncached (l : Loader) : Loader := { l with cache := none }

/-- **Where a cache has nothing but records of extracted works**, a loader answers the same with it and
without. -/
theorem sameLoad_of_kept (h : s.Kept l c) (hcache : l.cache = some c)
    (hfaithful : ∀ e ∈ l.extractors, e.2.Faithful)
    (hdigest : ∀ content ∈ s.look l p, ∀ known ∈ s.seen,
      Sha256.hash known = Sha256.hash content → known = content) :
    SameLoad p (s.tree.read p) (l.resultAt s.tree p) (l.uncached.resultAt s.tree p) := by
  have hextractors : l.uncached.extractor? p = l.extractor? p := rfl
  rw [resultAt, resultAt, loadFile, loadFile, hextractors]
  cases hextractor : l.extractor? p with
  | none => exact .failed _
  | some e =>
      dsimp only
      rw [run_loadWith, run_loadWith, hcache]
      cases hread : s.tree.read p with
      | error f => exact .failed _
      | ok content =>
          have hlook : s.look l p = some content := Scene.look_eq_some hextractor hread
          dsimp only [uncached]
          cases hget : ((c.get? (.ofContent p content) : StateM FileTree _).run s.tree).1 with
          | some w =>
              obtain ⟨hsame, hextracts⟩ := (Scene.kept_iff.mp h).get? hget
              obtain ⟨v, hv, hidentity, hfeatures⟩ :=
                hextracts.sameFeatures hfaithful hextractor hsame (hdigest content hlook) s.tree
              dsimp only
              rw [hv]
              exact .loaded rfl hsame hidentity hfeatures
          | none =>
              dsimp only
              cases hextract : ((extract p e content : StateM FileTree _).run s.tree).1 with
              | error f => exact .failed f
              | ok w =>
                  have hidentity :=
                    identity_of_extract (faithful_of_extractor? hfaithful hextractor) hextract
                  exact .loaded rfl (hidentity ▸ Identity.same_refl _) hidentity rfl

/-- **A cache gives no wrong features.** At first a tree has no records of a cache, and after that nothing
but the loader writes files where the cache keeps its records. Whatever else is written, made, taken away
and loaded meanwhile, loading a file comes to what it would come to without the cache, unless two of the
contents that were seen have the same digest. -/
theorem cached_load (hcache : l.cache = some c) (hfaithful : ∀ e ∈ l.extractors, e.2.Faithful)
    (t : FileTree) (hnew : ∀ q content modified, c.KeepsAt q → t.find? q ≠ some (.file content modified))
    (es : List FileEvent) (hspares : ∀ event ∈ es, event.Spares c) (p : Path)
    (hdigest : ∀ a ∈ (Scene.history l ⟨t, []⟩ (es ++ [.load p])).seen,
      ∀ b ∈ (Scene.history l ⟨t, []⟩ (es ++ [.load p])).seen,
        Sha256.hash a = Sha256.hash b → a = b) :
    SameLoad p ((Scene.history l ⟨t, []⟩ es).tree.read p)
      (l.resultAt (Scene.history l ⟨t, []⟩ es).tree p)
      (l.uncached.resultAt (Scene.history l ⟨t, []⟩ es).tree p) := by
  have hstart : Scene.Kept l c ⟨t, []⟩ := fun q content modified hplace hfind =>
    absurd hfind (hnew q content modified hplace)
  have hseen : (Scene.history l ⟨t, []⟩ (es ++ [.load p])).seen =
      ((Scene.history l ⟨t, []⟩ es).look l p).toList ++ (Scene.history l ⟨t, []⟩ es).seen := by
    rw [Scene.history, List.foldl_append]
    rfl
  rw [hseen] at hdigest
  refine sameLoad_of_kept (hstart.history hcache hspares) hcache hfaithful ?_
  intro content hlook known hknown
  exact hdigest known (List.mem_append_right _ hknown) content
    (List.mem_append_left _ (Option.mem_toList.mpr hlook))

/-- A loader of records with a cache. -/
def shelved : Loader := { Loader.default with cache := some ⟨⟨"cache"⟩⟩ }

/-- An empty cache. -/
def shelf : FileTree := ⟨[(["cache"], .directory)], ⟨0, 0⟩⟩

/-- A note is loaded and changed after that. -/
def rewritten : List FileEvent :=
  [.write ⟨"a.json"⟩ (Work.bareRecord "[1]").toUTF8, .load ⟨"a.json"⟩,
    .write ⟨"a.json"⟩ (Work.bareRecord "[2, 3]").toUTF8]

theorem keepsAt_shelf {q : List String} (h : FeatureCache.KeepsAt ⟨⟨"cache"⟩⟩ q) :
    ∃ name, q = ["cache", name] := by
  obtain ⟨p, rfl⟩ := h
  have hpieces : piecesOf ⟨"cache"⟩ = .ok ["cache"] := by decide +kernel
  have hsteps : steps [] ["cache"] = [["cache"]] := by decide +kernel
  have hopen : shelf.IsOpen ⟨"cache"⟩ := by
    refine ⟨["cache"], hpieces, ?_, by decide +kernel⟩
    rw [hsteps]
    rintro q hq
    obtain rfl := List.mem_singleton.mp hq
    rfl
  have hroot : placeOf ⟨"cache"⟩ = ["cache"] := by decide +kernel
  rw [FeatureCache.placeOf_entry hopen, hroot]
  exact ⟨_, rfl⟩

theorem shelf_new (q : List String) (content : ByteArray) (modified : Moment)
    (hplace : FeatureCache.KeepsAt ⟨⟨"cache"⟩⟩ q) : shelf.find? q ≠ some (.file content modified) := by
  intro hfind
  obtain ⟨name, rfl⟩ := keepsAt_shelf hplace
  simp [shelf, find?, List.lookup_cons] at hfind

/-- The note lies beside the cache. -/
theorem not_keepsAt_shelf : ¬ FeatureCache.KeepsAt ⟨⟨"cache"⟩⟩ (placeOf ⟨"a.json"⟩) := by
  intro hplace
  obtain ⟨name, hname⟩ := keepsAt_shelf hplace
  have hlength : (placeOf ⟨"a.json"⟩).length = 1 := by decide +kernel
  rw [hname] at hlength
  cases hlength

/-- The record of the note as it was is in the cache, but the note is loaded as it is. -/
theorem cached_load_rewritten :
    SameLoad ⟨"a.json"⟩ ((Scene.history shelved ⟨shelf, []⟩ rewritten).tree.read ⟨"a.json"⟩)
        (shelved.resultAt (Scene.history shelved ⟨shelf, []⟩ rewritten).tree ⟨"a.json"⟩)
        (shelved.uncached.resultAt (Scene.history shelved ⟨shelf, []⟩ rewritten).tree ⟨"a.json"⟩) ∧
      (shelved.uncached.resultAt (Scene.history shelved ⟨shelf, []⟩ rewritten).tree
        ⟨"a.json"⟩).toOption.map Work.tokens = some [2, 3] := by
  have hspares : ∀ event ∈ rewritten, event.Spares ⟨⟨"cache"⟩⟩ := by
    intro event hevent
    rcases List.mem_cons.mp hevent with rfl | hevent
    · exact not_keepsAt_shelf
    rcases List.mem_cons.mp hevent with rfl | hevent
    · trivial
    obtain rfl := List.mem_singleton.mp hevent
    exact not_keepsAt_shelf
  have hload := cached_load (l := shelved) (c := ⟨⟨"cache"⟩⟩) rfl faithful_default shelf shelf_new rewritten
    hspares ⟨"a.json"⟩ (by decide +kernel)
  exact ⟨hload, by decide +kernel⟩

end Loader

end Likeness
