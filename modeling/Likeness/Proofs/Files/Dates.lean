import Likeness.Proofs.Files.Cached

/-!
# Likeness.Proofs.Files.Dates

Which date a work has that was loaded.

A work that has no date of its own is dated by its file when it is extracted
(`Loader.dated_of_extract`), and its record is kept in the cache with this date, where it looks like one of
its own. So the date comes back with the work as long as the content stays, and the work of a file that was
touched in between has the old date (`Loader.cached?_touch`). All that a cache ever gives is dated by the
file as it was when a load extracted this content (`Chronicle.Kept`), and `Loader.modified_of_load` says
which date each load gives.
-/

namespace Likeness

open FileTree

/-! ### Touched files -/

namespace FileTree

variable {t : FileTree} {p : Path} {q : List String} {content : ByteArray} {modified after : Moment}

/-- Sets the time that is kept with a file. -/
def touch (t : FileTree) (p : Path) (modified : Moment) : FileTree :=
  match t.target p with
  | .error _ => t
  | .ok g =>
    match t.find? g.place with
    | some (.file content _) => if g.asDirectory then t else t.insert g.place (.written content modified)
    | _ => t

/-- Touching a file changes nothing but its time. -/
theorem find?_touch (t : FileTree) (p : Path) (modified : Moment) (q : List String) :
    (t.touch p modified).find? q = t.find? q ∨ ∃ content before after,
      t.find? q = some (.file content before) ∧
        (t.touch p modified).find? q = some (.file content after) := by
  unfold touch
  split
  · exact .inl rfl
  next g _ =>
    split
    next content before hfind =>
      split
      · exact .inl rfl
      · by_cases hq : q = g.place
        · subst hq
          have hplace : g.place ≠ [] := by
            intro hroot
            rw [find?, if_pos hroot] at hfind
            cases hfind
          exact .inr ⟨content, before, _, hfind, find?_insert_self hplace⟩
        · exact .inl (find?_insert_of_ne hq)
    · exact .inl rfl

theorem file_of_touch (h : (t.touch p modified).find? q = some (.file content after)) :
    ∃ before, t.find? q = some (.file content before) := by
  rcases t.find?_touch p modified q with hsame | ⟨content', before, after', hbefore, hafter⟩
  · exact ⟨after, hsame ▸ h⟩
  · obtain ⟨rfl, -⟩ := FileEntry.file.inj (Option.some.inj (hafter.symm.trans h))
    exact ⟨before, hbefore⟩

/-- What can be read can be read after a file was touched. -/
theorem read_touch {source : Path} (h : t.read source = .ok content) :
    (t.touch p modified).read source = .ok content := by
  obtain ⟨g, before, htarget, hfile, hfind⟩ := read_eq_ok h
  have htarget' : (t.touch p modified).target source = .ok g := by
    refine target_mono htarget fun q hq => ?_
    rcases t.find?_touch p modified q with hsame | ⟨_, _, _, hbefore, -⟩
    · exact hsame.trans hq
    · cases hbefore.symm.trans hq
  have hfind' : ∃ after, (t.touch p modified).find? g.place = some (.file content after) := by
    rcases t.find?_touch p modified g.place with hsame | ⟨content', _, after, hbefore, hafter⟩
    · exact ⟨before, hsame.trans hfind⟩
    · obtain ⟨rfl, -⟩ := FileEntry.file.inj (Option.some.inj (hbefore.symm.trans hfind))
      exact ⟨after, hafter⟩
  obtain ⟨after, hafter⟩ := hfind'
  exact congrArg Prod.snd (look_file htarget' hfile hafter)

/-- A file that can be read has a time. -/
theorem exists_modified? (h : t.read p = .ok content) : ∃ modified, t.modified? p = some modified := by
  obtain ⟨g, modified, htarget, hfile, hfind⟩ := read_eq_ok h
  refine ⟨modified, ?_⟩
  rw [modified?, htarget]
  dsimp only
  rw [hfind]
  dsimp only
  rw [hfile]
  rfl

end FileTree

/-! ### Dates -/

/-- A work with the date that it has of its own, or else that of its file. -/
def Work.dated (w : Work) (modified : Moment) : Work :=
  { w with modified := some (w.modified.getD modified.textWithOffset) }

theorem Work.dated_of_own {w : Work} {date : String} (h : w.modified = some date) (modified : Moment) :
    w.dated modified = w := by
  rw [dated, h, Option.getD_some, ← h]

theorem Work.dated_of_none {w : Work} (h : w.modified = none) (modified : Moment) :
    w.dated modified = { w with modified := some modified.textWithOffset } := by
  rw [dated, h, Option.getD_none]

/-- A file as it was when a work was extracted from it. -/
structure Sighting where
  path : Path
  content : ByteArray
  modified : Moment

namespace Loader

variable {l : Loader} {t : FileTree} {p : Path} {content : ByteArray} {w : Work}

/-- What stands in a content: what the extractor that serves a path makes of it, before it is dated. -/
def Makes (l : Loader) (p : Path) (content : ByteArray) (v : Work) : Prop :=
  ∃ e text, l.extractor? p = some e ∧ Text.Utf8.decode content = .ok text ∧
    e.extract text (.ofContent p content) = .ok v

/-- What the cache of a loader has for a file. -/
def cached? (l : Loader) (t : FileTree) (p : Path) : Option Work :=
  l.cache.bind fun c => (t.read p).toOption.bind fun content =>
    ((c.get? (.ofContent p content) : StateM FileTree _).run t).1

theorem cached?_eq {c : FeatureCache} (hcache : l.cache = some c) (hread : t.read p = .ok content) :
    l.cached? t p = ((c.get? (.ofContent p content) : StateM FileTree _).run t).1 := by
  simp only [cached?, hcache, hread, Except.toOption, Option.bind_some]

/-- What a loader sees of a file that it extracts a work from. -/
def sighting? (l : Loader) (t : FileTree) (p : Path) : Option Sighting := do
  guard (l.supports p && (l.cached? t p).isNone)
  let content ← (t.read p).toOption
  let modified ← t.modified? p
  return ⟨p, content, modified⟩

/-- A work that is extracted has its own date or that of the file. -/
theorem dated_of_extract {e : Extractor} (hextractor : l.extractor? p = some e)
    (hread : t.read p = .ok content)
    (h : ((extract p e content : StateM FileTree _).run t).1 = .ok w) :
    ∃ v modified, t.modified? p = some modified ∧ l.Makes p content v ∧ w = v.dated modified := by
  obtain ⟨modified, hmodified⟩ := exists_modified? hread
  unfold extract at h
  split at h
  · cases h
  next text hdecode =>
    split at h
    · cases h
    next v hextract =>
      refine ⟨v, modified, hmodified, ⟨e, text, hextractor, hdecode, hextract⟩, ?_⟩
      split at h
      next hown =>
        obtain ⟨date, hdate⟩ := Option.isSome_iff_exists.mp hown
        rw [Work.dated_of_own hdate]
        exact (Except.ok.inj h).symm
      next hown =>
        change Except.ok { v with modified := (t.modified? p).map Moment.textWithOffset } = .ok w at h
        rw [Work.dated_of_none (by simpa using hown), ← Except.ok.inj h, hmodified]
        rfl

/-- A loader answers from its cache, or it extracts the work. -/
theorem resultAt_cases (h : l.resultAt t p = .ok w) : ∃ e content, l.extractor? p = some e ∧
    t.read p = .ok content ∧ (l.cached? t p = some w ∨
      l.cached? t p = none ∧ ((extract p e content : StateM FileTree _).run t).1 = .ok w) := by
  unfold resultAt loadFile at h
  split at h
  · cases h
  next e hextractor =>
    rw [run_loadWith] at h
    split at h
    · cases h
    next content hread =>
      refine ⟨e, content, hextractor, hread, ?_⟩
      cases hcache : l.cache with
      | none =>
          rw [hcache] at h
          exact .inr ⟨by rw [cached?, hcache, Option.bind_none], h⟩
      | some c =>
          rw [hcache] at h
          rw [cached?_eq hcache hread]
          dsimp only at h
          split at h
          next w' hhit =>
            exact .inl (hhit.trans (congrArg some (Except.ok.inj h)))
          next hmiss =>
            refine .inr ⟨hmiss, ?_⟩
            split at h
            next w' hextract =>
              exact hextract.trans h
            · cases h

end Loader

/-! ### Histories -/

/-- What happens to files whose dates are told: what can happen to files, and they may be touched. -/
inductive DatedEvent where
  | file (event : FileEvent)
  | touch (p : Path) (modified : Moment)

/-- An event that writes no file where a cache keeps records. -/
def DatedEvent.Spares (c : FeatureCache) : DatedEvent → Prop
  | .file event => event.Spares c
  | .touch .. => True

/-- A tree, and the files that works were extracted from so far. -/
structure Chronicle where
  tree : FileTree
  log : List Sighting

namespace Chronicle

variable (l : Loader)

/-- What comes of an event. -/
def after (d : Chronicle) : DatedEvent → Chronicle
  | .touch p modified => { d with tree := d.tree.touch p modified }
  | .file (.load p) =>
    ⟨((l.loadFile p : StateM FileTree _).run d.tree).2, (l.sighting? d.tree p).toList ++ d.log⟩
  | .file event => { d with tree := (Scene.after l ⟨d.tree, []⟩ event).tree }

/-- What comes of many events, one after the other. -/
def history (d : Chronicle) (es : List DatedEvent) : Chronicle := es.foldl (after l) d

end Chronicle

/-- A work that was extracted from one of some files, and dated by it. -/
def Loader.DatedBy (l : Loader) (log : List Sighting) (w : Work) : Prop :=
  ∃ g ∈ log, ∃ v, l.Makes g.path g.content v ∧ w = v.dated g.modified

theorem Loader.DatedBy.mono {l : Loader} {log log' : List Sighting} {w : Work} (h : l.DatedBy log w)
    (hlog : ∀ g ∈ log, g ∈ log') : l.DatedBy log' w := by
  obtain ⟨g, hg, v, hmakes, hw⟩ := h
  exact ⟨g, hlog g hg, v, hmakes, hw⟩

namespace Chronicle

variable {l : Loader} {c : FeatureCache} {d : Chronicle}

/-- All files where the cache keeps its records are records of works that were dated by the files they were
extracted from. -/
def Kept (l : Loader) (c : FeatureCache) (d : Chronicle) : Prop := c.Holds d.tree (l.DatedBy d.log)

/-- **One event** leaves nothing but such records where the cache keeps its records. -/
theorem Kept.after (h : d.Kept l c) (hcache : l.cache = some c) {event : DatedEvent}
    (hspares : event.Spares c) : (d.after l event).Kept l c := by
  cases event with
  | touch p modified => exact h.of_files (fun _ => id) fun _ _ _ _ hfind => file_of_touch hfind
  | file event =>
      change event.Spares c at hspares
      cases event with
      | load p =>
          have hlog : c.Holds d.tree (l.DatedBy (d.after l (.file (.load p))).log) :=
            h.of_files (fun _ hw => hw.mono fun _ => List.mem_append_right _)
              fun _ _ modified _ hfind => ⟨modified, hfind⟩
          refine hlog.loadFile hcache fun e content w hextractor hread hmiss hextract => ?_
          obtain ⟨v, modified, hmodified, hmakes, hw⟩ :=
            Loader.dated_of_extract hextractor hread hextract
          refine ⟨⟨p, content, modified⟩, List.mem_append_left _ (Option.mem_toList.mpr ?_), v, hmakes, hw⟩
          rw [Loader.sighting?, Loader.supports, hextractor, Loader.cached?_eq hcache hread, hmiss, hread,
            hmodified]
          rfl
      | _ =>
          exact h.of_files (fun _ => id) fun _ _ modified hplace hfind =>
            ⟨modified, Scene.file_of_after (l := l) (s := ⟨d.tree, []⟩) hspares (by simp) hplace hfind⟩

/-- **Many events** do so too. -/
theorem Kept.history (h : d.Kept l c) (hcache : l.cache = some c) {es : List DatedEvent}
    (hspares : ∀ event ∈ es, event.Spares c) : (d.history l es).Kept l c := by
  induction es generalizing d with
  | nil => exact h
  | cons event es ih =>
      obtain ⟨hevent, hes⟩ := List.forall_mem_cons.mp hspares
      exact ih (h.after hcache hevent) hes

end Chronicle

/-! ### Loading -/

namespace Loader

variable {l : Loader} {c : FeatureCache} {d : Chronicle} {p : Path} {content : ByteArray} {w : Work}

/-- What the cache gives for a file is dated by the file as it was when this content was extracted. -/
theorem dated_of_cached (h : d.Kept l c) (hcache : l.cache = some c)
    (hfaithful : ∀ e ∈ l.extractors, e.2.Faithful) (hread : d.tree.read p = .ok content)
    (hdigest : ∀ g ∈ d.log, Sha256.hash g.content = Sha256.hash content → g.content = content)
    (hcached : l.cached? d.tree p = some w) :
    ∃ v, l.Makes p content v ∧ ∃ g ∈ d.log, g.path.same p = true ∧ g.content = content ∧
      w.modified = (v.dated g.modified).modified := by
  rw [cached?_eq hcache hread] at hcached
  obtain ⟨hsame, g, hg, v, ⟨e, text, hextractor, hdecode, hextract⟩, rfl⟩ := h.get? hcached
  have hidentity : v.identity = .ofContent g.path g.content :=
    (faithful_of_extractor? hfaithful hextractor).identity hextract
  change v.identity.same (.ofContent p content) = true at hsame
  rw [hidentity] at hsame
  have hpath : g.path.same p = true :=
    Identity.path_same (i := .ofContent g.path g.content) (j := .ofContent p content) hsame
  obtain ⟨-, hhash⟩ := Bool.and_eq_true_iff.mp hsame
  have hcontent := hdigest g hg (of_decide_eq_true hhash)
  rw [hcontent] at hdecode hextract hsame
  refine ⟨_, ⟨e, text, (l.extractor?_of_same hpath).symm.trans hextractor, hdecode,
    faithful_of_extractor? hfaithful hextractor text _ _ v hsame hextract⟩, g, hg, hpath, hcontent, rfl⟩

/-- **Dates.** At first a tree has no records of a cache, and after that nothing but the loader writes files
where the cache keeps its records. Whatever else is written, touched, made, taken away and loaded meanwhile,
a work that is loaded has the date that stands in its content, if there is one. Otherwise it has the date of
the file: as it is now if the work is not in the cache, and as it was when this content was extracted if the
work is there. Two of these contents must not have the same digest. -/
theorem modified_of_load (hfaithful : ∀ e ∈ l.extractors, e.2.Faithful) (t : FileTree)
    (hnew : ∀ c ∈ l.cache, ∀ q content modified, c.KeepsAt q → t.find? q ≠ some (.file content modified))
    (es : List DatedEvent) (hspares : ∀ c ∈ l.cache, ∀ event ∈ es, event.Spares c)
    (hd : d = Chronicle.history l ⟨t, []⟩ es) (hload : l.resultAt d.tree p = .ok w)
    (hdigest : ∀ content, d.tree.read p = .ok content → ∀ g ∈ d.log,
      Sha256.hash g.content = Sha256.hash content → g.content = content) :
    ∃ content v modified, d.tree.read p = .ok content ∧ l.Makes p content v ∧
      w.modified = some (v.modified.getD modified.textWithOffset) ∧
      (l.cached? d.tree p = none → d.tree.modified? p = some modified) ∧
      (l.cached? d.tree p ≠ none →
        ∃ g ∈ d.log, g.path.same p = true ∧ g.content = content ∧ g.modified = modified) := by
  subst hd
  obtain ⟨e, content, hextractor, hread, hcached | ⟨hmiss, hextract⟩⟩ := resultAt_cases hload
  · obtain ⟨c, hcache, -⟩ := Option.bind_eq_some_iff.mp hcached
    have hstart : Chronicle.Kept l c ⟨t, []⟩ := fun q content modified hplace hfind =>
      absurd hfind (hnew c hcache q content modified hplace)
    obtain ⟨v, hmakes, g, hg, hpath, hcontent, hmodified⟩ :=
      dated_of_cached (hstart.history hcache (hspares c hcache)) hcache hfaithful hread
        (hdigest content hread) hcached
    refine ⟨content, v, g.modified, hread, hmakes, hmodified, fun hmiss => ?_,
      fun _ => ⟨g, hg, hpath, hcontent, rfl⟩⟩
    cases hcached.symm.trans hmiss
  · obtain ⟨v, modified, hmodified, hmakes, rfl⟩ := dated_of_extract hextractor hread hextract
    exact ⟨content, v, modified, hread, hmakes, rfl, fun _ => hmodified, fun hhit => absurd hmiss hhit⟩

theorem resultAt_of_cached {e : Extractor} {t : FileTree} (hcache : l.cache = some c)
    (hextractor : l.extractor? p = some e) (hread : t.read p = .ok content)
    (hcached : l.cached? t p = some w) : l.resultAt t p = .ok w := by
  rw [cached?_eq hcache hread] at hcached
  rw [resultAt, loadFile, hextractor]
  dsimp only
  rw [run_loadWith, hread, hcache]
  dsimp only
  rw [hcached]

/-- **Kept dates.** If loading a file put a record into the cache, the cache gives the work that was loaded,
with the date that it had, however the file is touched after that. -/
theorem cached?_touch {t : FileTree} (hcache : l.cache = some c)
    (hfaithful : ∀ e ∈ l.extractors, e.2.Faithful) (hload : l.resultAt t p = .ok w)
    (hput : ((l.loadFile p : StateM FileTree _).run t).2 ≠ t) (hcheck : w.check = .ok ())
    (hapart : placeOf (c.entry p) ∉ trail p) (modified : Moment) :
    l.cached? (((l.loadFile p : StateM FileTree _).run t).2.touch p modified) p = some w := by
  obtain hsame | ⟨e, content, w', hextractor, hread, hmiss, hextract, hwrite⟩ :=
    run_loadFile_cases hcache p t
  · exact absurd hsame hput
  have hidentity := identity_of_extract (faithful_of_extractor? hfaithful hextractor) hextract
  obtain rfl : w' = w := by
    rw [resultAt, loadFile, hextractor] at hload
    dsimp only at hload
    rw [run_loadWith, hread, hcache] at hload
    dsimp only at hload
    rw [hmiss] at hload
    dsimp only at hload
    rw [hextract] at hload
    exact Except.ok.inj hload
  have hpath : w'.path = p := by rw [Work.path, hidentity, Identity.ofContent]
  rw [hpath] at hwrite
  generalize ((l.loadFile p : StateM FileTree _).run t).2 = u at hwrite ⊢
  have hentry : (u.touch p modified).read (c.entry p) = .ok w'.recordText.toUTF8 :=
    read_touch (congrArg Prod.snd (look_write hwrite))
  have hsource : (u.touch p modified).read p = .ok content := by
    refine read_touch ((read_congr fun q hq => ?_).trans hread)
    refine (grown_write hwrite).1.find?_eq fun hmem => hapart ?_
    exact List.mem_singleton.mp hmem ▸ hq
  rw [cached?_eq hcache hsource, FeatureCache.get?_eq_of_read (i := .ofContent p content) hentry, hcheck,
    hidentity, Identity.same_refl]
  rfl

/-- A note is loaded, and its file is touched a day later. -/
def touched : List DatedEvent :=
  [.file (.write ⟨"a.json"⟩ (Work.bareRecord "[1]").toUTF8), .file (.load ⟨"a.json"⟩),
    .touch ⟨"a.json"⟩ ⟨86400, 0⟩]

/-- What stands in the note. -/
def note : Work where
  identity := .ofContent ⟨"a.json"⟩ (Work.bareRecord "[1]").toUTF8
  modified := none
  tokens := [1]
  places := []
  operators := .empty
  keywords := .empty
  literals := .empty
  outline := []
  heads := []
  labels := []

theorem makes_note : shelved.Makes ⟨"a.json"⟩ (Work.bareRecord "[1]").toUTF8 note :=
  ⟨.records, Work.bareRecord "[1]", rfl, Text.Utf8.decode_toUTF8 _, by decide +kernel⟩

theorem read_touched : (Chronicle.history shelved ⟨shelf, []⟩ touched).tree.read ⟨"a.json"⟩ =
    .ok (Work.bareRecord "[1]").toUTF8 := by decide +kernel

theorem tree_touched : (Chronicle.history shelved ⟨shelf, []⟩ touched).tree =
    ((shelved.loadFile ⟨"a.json"⟩ : StateM FileTree _).run
      (Chronicle.history shelved ⟨shelf, []⟩ (touched.take 1)).tree).2.touch ⟨"a.json"⟩ ⟨86400, 0⟩ := by
  simp only [Chronicle.history, touched, List.take, List.foldl, Chronicle.after]

/-- The note is in the cache, with the date of its file at the first load. -/
theorem cached?_touched : shelved.cached? (Chronicle.history shelved ⟨shelf, []⟩ touched).tree
    ⟨"a.json"⟩ = some (note.dated ⟨0, 0⟩) := by
  rw [tree_touched]
  refine cached?_touch (l := shelved) (c := ⟨⟨"cache"⟩⟩) rfl faithful_default (by decide +kernel)
    (fun hsame => ?_) (by decide +kernel) (by decide +kernel) _
  have hlength := congrArg (fun u : FileTree => u.entries.length) hsame
  revert hlength
  decide +kernel

theorem resultAt_touched : shelved.resultAt (Chronicle.history shelved ⟨shelf, []⟩ touched).tree
    ⟨"a.json"⟩ = .ok (note.dated ⟨0, 0⟩) :=
  resultAt_of_cached (c := ⟨⟨"cache"⟩⟩) (e := .records) rfl rfl read_touched cached?_touched

/-- The note comes from the cache, with the date of its file at the first load. -/
theorem modified_of_load_touched :
    shelved.resultAt (Chronicle.history shelved ⟨shelf, []⟩ touched).tree ⟨"a.json"⟩ =
        .ok (note.dated ⟨0, 0⟩) ∧
      ∃ v, ∃ g ∈ (Chronicle.history shelved ⟨shelf, []⟩ touched).log,
        shelved.Makes ⟨"a.json"⟩ g.content v ∧
          (note.dated ⟨0, 0⟩).modified = some (v.modified.getD g.modified.textWithOffset) := by
  have hspares : ∀ c ∈ shelved.cache, ∀ event ∈ touched, event.Spares c := by
    intro c hc event hevent
    obtain rfl := Option.some.inj hc
    rcases List.mem_cons.mp hevent with rfl | hevent
    · exact not_keepsAt_shelf
    rcases List.mem_cons.mp hevent with rfl | hevent
    · trivial
    obtain rfl := List.mem_singleton.mp hevent
    trivial
  have hnew : ∀ c ∈ shelved.cache, ∀ q content modified, c.KeepsAt q →
      shelf.find? q ≠ some (.file content modified) := by
    intro c hc
    obtain rfl := Option.some.inj hc
    exact shelf_new
  have hlog : (Chronicle.history shelved ⟨shelf, []⟩ touched).log.map Sighting.content =
      [(Work.bareRecord "[1]").toUTF8] := by decide +kernel
  have hsame : ∀ content,
      (Chronicle.history shelved ⟨shelf, []⟩ touched).tree.read ⟨"a.json"⟩ = .ok content →
        ∀ g ∈ (Chronicle.history shelved ⟨shelf, []⟩ touched).log, g.content = content := by
    intro content hread g hg
    rw [read_touched] at hread
    obtain rfl := Except.ok.inj hread
    have hmem := List.mem_map_of_mem (f := Sighting.content) hg
    rw [hlog] at hmem
    exact List.mem_singleton.mp hmem
  obtain ⟨content, v, modified, hread, hmakes, hmodified, -, hhit⟩ :=
    modified_of_load (l := shelved) faithful_default shelf hnew touched hspares rfl resultAt_touched
      fun content hread g hg _ => hsame content hread g hg
  obtain ⟨g, hg, -, rfl, rfl⟩ := hhit (by rw [cached?_touched]; exact Option.some_ne_none _)
  exact ⟨resultAt_touched, v, g, hg, hmakes, hmodified⟩

/-- A date that is not that of the file, though there is none in the content. The file was touched, and the
work comes from the cache. -/
theorem exists_stale_date : ∃ es p content v w,
    (Chronicle.history shelved ⟨shelf, []⟩ es).tree.read p = .ok content ∧
      shelved.Makes p content v ∧ v.modified = none ∧
      shelved.resultAt (Chronicle.history shelved ⟨shelf, []⟩ es).tree p = .ok w ∧
      w.modified ≠
        ((Chronicle.history shelved ⟨shelf, []⟩ es).tree.modified? p).map Moment.textWithOffset :=
  ⟨touched, ⟨"a.json"⟩, _, note, _, read_touched, makes_note, rfl, resultAt_touched, by decide +kernel⟩

end Loader

end Likeness
