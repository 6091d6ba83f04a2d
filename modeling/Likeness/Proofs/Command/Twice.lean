import Likeness.Proofs.Command.Rerun
import Likeness.Proofs.Files.Loading

/-!
# Likeness.Proofs.Command.Twice

A check that is carried out again.

The places where a check may change a tree are known beforehand (`CheckRequest.writes`): those of the
directory and the records of the cache, and those of the store. If they are apart from what the check
reads (`CheckRequest.Apart`), a second check reads the same settings, loads the same works, from the cache
now, and starts with records from which the batch can be run again. So it says the same (`check_again`).

If they are not, the second check takes what the first has written for works (`exists_changed_check`).
-/

namespace Likeness.Command

open FileTree
open Batch (Plan Report)

variable {r : CheckRequest} {s : Settings} {exclude : Path → Bool} {t u v : FileTree}

/-! ### Settings -/

/-- The settings depend only on their file, and reading them changes nothing. -/
theorem run_soundSettings_congr {file : Option Path} (adapt : Settings → Settings)
    (h : ∀ p ∈ file, ∀ q ∈ trail p, u.find? q = t.find? q) :
    (soundSettings file adapt : StateM FileTree _).run u =
      (((soundSettings file adapt : StateM FileTree _).run t).1, u) := by
  have hload (v : FileTree) (hv : ∀ p ∈ file, ∀ q ∈ trail p, v.find? q = t.find? q) :
      (loadSettings file : StateM FileTree _).run v =
        (((loadSettings file : StateM FileTree _).run t).1, v) := by
    cases hfile : file with
    | none => rfl
    | some p =>
        rw [loadSettings, Settings.load, Host.run_bind_eq (run_readText p v),
          Host.run_bind_eq (run_readText p t), read_congr (hv p hfile)]
        cases textOf (t.read p) <;> rfl
  rw [soundSettings, Host.run_bind_eq (hload u h), Host.run_bind_eq (hload t fun _ _ _ _ => rfl)]
  cases ((loadSettings file : StateM FileTree _).run t).1 <;> rfl

namespace CheckRequest

/-- The settings of a check. -/
def settingsAt (r : CheckRequest) (t : FileTree) : Except CommandFault Settings :=
  ((soundSettings r.settings r.adapt : StateM FileTree _).run t).1

/-- The settings depend only on their file, and reading them changes nothing. -/
theorem run_soundSettings (h : ∀ p ∈ r.settings, ∀ q ∈ trail p, u.find? q = t.find? q) :
    (soundSettings r.settings r.adapt : StateM FileTree _).run u = (r.settingsAt t, u) :=
  run_soundSettings_congr r.adapt h

theorem settingsAt_congr (h : ∀ p ∈ r.settings, ∀ q ∈ trail p, u.find? q = t.find? q) :
    r.settingsAt u = r.settingsAt t := by rw [settingsAt, run_soundSettings h]

/-- A check only goes on with settings that are sound. -/
theorem check_of_settingsAt (h : r.settingsAt t = .ok s) : s.check = .ok () := by
  rcases hload : (loadSettings r.settings : StateM FileTree _).run t with ⟨answer, u⟩
  rw [settingsAt, soundSettings, Host.run_bind_eq hload] at h
  cases answer with
  | error f => cases h
  | ok loaded =>
      obtain ⟨_, hcheck, rfl⟩ := Except.map_eq_ok.mp h
      exact Except.mapError_eq_ok.mp hcheck

/-! ### The loader -/

/-- The loader of a check. -/
def loaderOf (s : Settings) (exclude : Path → Bool) : Loader :=
  { Loader.default with exclude, cache := s.files.featureCache.map FeatureCache.mk }

/-- The tree with the directory of the cache. -/
def withCache (s : Settings) (t : FileTree) : Except Failure FileTree :=
  match s.files.featureCache with
  | none => .ok t
  | some root => (t.makeDirectories root).mapError fun f => .store (.writeFailed root f)

theorem run_loader (r : CheckRequest) (s : Settings) (t : FileTree) :
    (r.loader s : StateM FileTree _).run t =
      match Loader.excluding r.exclude with
      | .error f => (.error f, t)
      | .ok exclude =>
        match withCache s t with
        | .error f => (.error f, t)
        | .ok u => (.ok (loaderOf s exclude), u) := by
  unfold loader loaderOf withCache
  cases Loader.excluding r.exclude with
  | error f => rfl
  | ok exclude =>
      cases s.files.featureCache with
      | none => rfl
      | some root =>
          dsimp only
          rw [FeatureCache.open?, bind_assoc]
          cases hmade : t.makeDirectories root with
          | error f =>
              rw [Host.run_bind_eq (show (Host.makeDirectories root : StateM FileTree _).run t =
                (.error f, t) from run_change_error hmade)]
              rfl
          | ok u =>
              rw [Host.run_bind_eq (show (Host.makeDirectories root : StateM FileTree _).run t =
                (.ok (), u) from run_change_ok hmade)]
              rfl

theorem withCache_clock (s : Settings) (t : FileTree) (now : Moment) :
    withCache s { t with time := now } = (withCache s t).map fun u => { u with time := now } := by
  unfold withCache
  split
  · rfl
  next root _ =>
    rw [makeDirectories_clock]
    cases t.makeDirectories root <;> rfl

/-- Where the directory of the cache may be made. -/
def cachePlaces (s : Settings) : List (List String) := (s.files.featureCache.map trail).getD []

/-- Once the cache is open, its directory is there, and nothing else has changed. -/
theorem withCache_eq_ok (h : withCache s t = .ok u) :
    (∀ c ∈ s.files.featureCache.map FeatureCache.mk, u.IsOpen c.root) ∧
      Grown (t.vacant (cachePlaces s)) t u ∧
      u.time = t.time ∧ ∀ q content modified, u.find? q = some (.file content modified) →
        t.find? q = some (.file content modified) := by
  unfold withCache at h
  unfold cachePlaces
  cases hcache : s.files.featureCache with
  | none =>
      rw [hcache] at h
      cases h
      exact ⟨nofun, .refl _ t, rfl, fun _ _ _ hfind => hfind⟩
  | some root =>
      rw [hcache] at h
      obtain ⟨hopen, hgrown, htime, hfiles⟩ := makeDirectories_eq_ok (Except.mapError_eq_ok.mp h)
      refine ⟨fun c hc => ?_, hgrown.mono fun q hq => ?_, htime, hfiles⟩
      · cases hc
        exact hopen
      · obtain ⟨hmem, hnone⟩ := List.mem_filter.mp hq
        refine mem_vacant.mpr ⟨hmem, ?_⟩
        rw [Option.isNone_iff_eq_none.mp hnone]
        nofun

/-- There is nothing to make once the cache is open. -/
theorem withCache_eq_self (h : ∀ c ∈ (loaderOf s exclude).cache, t.IsOpen c.root) :
    withCache s t = .ok t := by
  unfold withCache
  unfold loaderOf at h
  split
  · rfl
  next root hcache =>
    have hopen := h ⟨root⟩ (by rw [hcache]; rfl)
    rw [hopen.makeDirectories_eq]
    rfl

/-! ### What a check reads and writes -/

/-- The files that are loaded for a check. -/
def sourcesAt (r : CheckRequest) (s : Settings) (exclude : Path → Bool) (t : FileTree) : List Path :=
  (loaderOf s exclude).sources t r.files r.directories

/-- The places where a check may change a tree: those of the cache and those of the store. -/
def writes (r : CheckRequest) (s : Settings) (exclude : Path → Bool) (t : FileTree) :
    List (List String) :=
  t.vacant (cachePlaces s ++ (loaderOf s exclude).entryPlaces (r.sourcesAt s exclude t) ++ storePlaces s)

/-- What a check writes is apart from what it reads: from the settings, and from the works. -/
structure Apart (r : CheckRequest) (s : Settings) (exclude : Path → Bool) (t : FileTree) : Prop where
  /-- It is not written over what is read. -/
  inputs : ∀ p ∈ r.settings.toList ++ (r.sourcesAt s exclude t ++ r.directories), ∀ q ∈ trail p,
    q ∉ r.writes s exclude t
  /-- It is not loaded from the directories. -/
  overlooked : ∀ d ∈ r.directories, (loaderOf s exclude).Overlooks (r.writes s exclude t) d
  /-- No two works share a record in the cache. -/
  distinct : ∀ c ∈ (loaderOf s exclude).cache, ∀ p ∈ r.sourcesAt s exclude t,
    ∀ q ∈ r.sourcesAt s exclude t, c.entry p = c.entry q → p = q
  /-- The store is not put where a record of the cache is. -/
  unshared : ∀ q ∈ (loaderOf s exclude).entryPlaces (r.sourcesAt s exclude t), q ∈ storePlaces s →
    t.find? q = some .directory
  housed : Housed s t

/-- The verdicts on the works of a check can be written, if they have to be kept. -/
def Savable (r : CheckRequest) (s : Settings) (exclude : Path → Bool) (t : FileTree) : Prop :=
  ∀ p ∈ r.sourcesAt s exclude t, ∀ q ∈ r.sourcesAt s exclude t, ∀ a b,
    (loaderOf s exclude).resultAt t p = .ok a → (loaderOf s exclude).resultAt t q = .ok b →
      WritableFor s t.time a b

/-- The date of a verdict has a text, and so have its numbers, unless the sum of the weights is infinite. No
work has more tokens than can be held. -/
theorem savable_of_check (hcheck : s.check = .ok ()) (hdate : t.time.Valid)
    (hweights : (Weights.sum s.compare.weights.toList).isFinite = true)
    (htokens : ∀ p ∈ r.sourcesAt s exclude t, ∀ w, (loaderOf s exclude).resultAt t p = .ok w →
      w.tokens.length < 2 ^ 63) : r.Savable s exclude t :=
  fun p hp q hq a b ha hb =>
    writableFor_of_check hcheck hweights hdate (htokens p hp a ha) (htokens q hq b hb)

namespace Apart

theorem grown_withCache (r : CheckRequest) (exclude : Path → Bool)
    (hcache : withCache s t = .ok u) : Grown (r.writes s exclude t) t u := by
  obtain ⟨-, hgrown, -, -⟩ := withCache_eq_ok hcache
  refine hgrown.mono fun q hq => ?_
  obtain ⟨hmem, hfree⟩ := mem_vacant.mp hq
  exact mem_vacant.mpr ⟨List.mem_append_left _ (List.mem_append_left _ hmem), hfree⟩

theorem sourcesAt_eq (h : r.Apart s exclude t) (hgrown : Grown (r.writes s exclude t) t u) :
    r.sourcesAt s exclude u = r.sourcesAt s exclude t :=
  Loader.sources_eq hgrown
    (fun d hd => h.inputs d (List.mem_append_right _ (List.mem_append_right _ hd))) h.overlooked

theorem settled (h : r.Apart s exclude t) (hcache : withCache s t = .ok u) :
    (loaderOf s exclude).Settled (r.writes s exclude t) r.files r.directories u := by
  have hgrown := grown_withCache r exclude hcache
  have hsources := h.sourcesAt_eq hgrown
  rw [sourcesAt] at hsources
  refine ⟨rfl, fun p hp => ?_, h.overlooked, (withCache_eq_ok hcache).1, fun q hq => ?_, ?_⟩
  · rw [hsources] at hp
    exact h.inputs p (List.mem_append_right _ hp)
  · rw [Loader.kept, hsources] at hq
    obtain ⟨hmem, hfree⟩ := mem_vacant.mp (hgrown.mem_vacant hq)
    exact mem_vacant.mpr ⟨List.mem_append_left _ (List.mem_append_right _ hmem), hfree⟩
  · rw [hsources]
    exact h.distinct

theorem repeats (h : r.Apart s exclude t) (hcache : withCache s t = .ok u) :
    (loaderOf s exclude).Repeats (r.writes s exclude t) (r.sourcesAt s exclude t) u
      ((loaderOf s exclude).load r.files r.directories) := by
  rw [← h.sourcesAt_eq (grown_withCache r exclude hcache)]
  exact .load (h.settled hcache)

/-- All works that are loaded are works that the loader gets from the sources. -/
theorem loads_from (h : r.Apart s exclude t) (hcache : withCache s t = .ok u) :
    ∀ g ∈ (((loaderOf s exclude).load r.files r.directories : StateM FileTree _).run u).1.groups,
      ∀ w ∈ g.works, ∃ p ∈ r.sourcesAt s exclude t, (loaderOf s exclude).resultAt u p = .ok w := by
  rw [← h.sourcesAt_eq (grown_withCache r exclude hcache)]
  exact Loader.Gives.load (h.settled hcache) u (.refl _ u) fun _ _ => rfl

theorem mem_writes_of_kept (hcache : withCache s t = .ok u) {q : List String}
    (hq : q ∈ (loaderOf s exclude).kept (r.sourcesAt s exclude t) u) : q ∈ r.writes s exclude t := by
  obtain ⟨hmem, hfree⟩ := mem_vacant.mp ((grown_withCache r exclude hcache).mem_vacant hq)
  exact mem_vacant.mpr ⟨List.mem_append_left _ (List.mem_append_right _ hmem), hfree⟩

theorem mem_writes_of_stored (hgrown : Grown (r.writes s exclude t) t u) {q : List String}
    (hq : q ∈ u.vacant (storePlaces s)) : q ∈ r.writes s exclude t := by
  obtain ⟨hmem, hfree⟩ := mem_vacant.mp (hgrown.mem_vacant hq)
  exact mem_vacant.mpr ⟨List.mem_append_right _ hmem, hfree⟩

/-- Where the cache may get records, the store may not be. -/
theorem not_mem_kept (h : r.Apart s exclude t) (hcache : withCache s t = .ok u) {q : List String}
    (hq : q ∈ storePlaces s) : q ∉ (loaderOf s exclude).kept (r.sourcesAt s exclude t) u := by
  intro hmem
  obtain ⟨hentry, hfree⟩ := mem_vacant.mp hmem
  exact hfree ((withCache_eq_ok hcache).2.1.directory (h.unshared q hentry hq))

/-- What the store changes makes no difference to the loader. -/
theorem sameFor_stored (h : r.Apart s exclude t) (hcache : withCache s t = .ok u) {u' : FileTree}
    (hloaded : Grown (r.writes s exclude t) u u') (hstored : Grown (u'.vacant (storePlaces s)) u' v) :
    (loaderOf s exclude).SameFor (r.sourcesAt s exclude t) u' v := by
  have hgrown := (grown_withCache r exclude hcache).trans hloaded
  have hsources := h.sourcesAt_eq hgrown
  rw [← hsources]
  refine ((h.settled hcache).grown hloaded).sameFor hstored (fun q => mem_writes_of_stored hgrown) ?_
  intro c hc p hp hmem
  obtain ⟨hplace, hfree⟩ := mem_vacant.mp hmem
  have hentry := Loader.mem_entryPlaces hc (hsources ▸ hp : p ∈ r.sourcesAt s exclude t)
  exact hfree (hgrown.directory (h.unshared _ hentry hplace))

/-- The store is put where it would have been put before the cache was used. -/
theorem housed_of_grown (h : r.Apart s exclude t) (hcache : withCache s t = .ok u)
    (hgrown : Grown ((loaderOf s exclude).kept (r.sourcesAt s exclude t) u) u v) : Housed s v := by
  obtain ⟨-, hmade, -, hfiles⟩ := withCache_eq_ok hcache
  intro p hp
  refine (h.housed p hp).imp (fun hthere => hgrown.kind?_directory (hmade.kind?_directory hthere)) ?_
  intro hnone
  cases hfind : v.find? (placeOf (p.join FileSettings.reportName)) with
  | none => rfl
  | some e =>
      cases e with
      | directory => rfl
      | file content modified =>
          rcases placeOf_mem_trail (p.join FileSettings.reportName) with hroot | htrail
          · rw [hroot] at hfind
            cases hfind
          · have hplace : placeOf (p.join FileSettings.reportName) ∈ storePlaces s := by
              rw [storePlaces, hp]
              exact List.mem_append_right _ (List.mem_append_left _ htrail)
            rw [hgrown.find?_eq (h.not_mem_kept hcache hplace)] at hfind
            rw [hfiles _ _ _ hfind] at hnone
            cases hnone

variable {loaded : Loaded} {u₁ : FileTree}

/-- The verdicts on the works that are loaded can be written. -/
theorem writable (h : r.Apart s exclude t) (hcache : withCache s t = .ok u)
    (hsavable : r.Savable s exclude u) (hload : ((loaderOf s exclude).load r.files r.directories :
      StateM FileTree _).run u = (loaded, u₁)) :
    Writable s u₁.time (Plan.ofGroups loaded.groups s.pairing) := by
  have htime := (h.repeats hcache).time u (.refl _ u)
  have hfrom := h.loads_from hcache
  rw [hload] at htime hfrom
  dsimp only at htime hfrom
  rw [htime]
  refine writable_of_works fun g hg a ha g' hg' b hb => ?_
  obtain ⟨p, hp, hfirst⟩ := hfrom g hg a ha
  obtain ⟨q, hq, hsecond⟩ := hfrom g' hg' b hb
  rw [← h.sourcesAt_eq (grown_withCache r exclude hcache)] at hp hq
  exact hsavable p hp q hq a b hfirst hsecond

/-- The same works are loaded again after the store was changed. -/
theorem load_again (h : r.Apart s exclude t) (hcache : withCache s t = .ok u)
    (hload : ((loaderOf s exclude).load r.files r.directories : StateM FileTree _).run u = (loaded, u₁))
    (hstored : Grown (u₁.vacant (storePlaces s)) u₁ v) :
    ∃ v₁, ((loaderOf s exclude).load r.files r.directories : StateM FileTree _).run v = (loaded, v₁) ∧
      Grown ((loaderOf s exclude).kept (r.sourcesAt s exclude t) u) v v₁ := by
  have hloads := h.repeats hcache
  have hkept := hloads.grown u (.refl _ u)
  have hsame := hloads.same u (.refl _ u)
  rw [hload] at hkept hsame
  have hloaded := hkept.mono fun q => mem_writes_of_kept hcache
  have hafter := hloaded.trans (hstored.mono fun q =>
    mem_writes_of_stored ((grown_withCache r exclude hcache).trans hloaded))
  have hsame' : (loaderOf s exclude).SameFor (r.sourcesAt s exclude t) u v :=
    fun p hp => (h.sameFor_stored hcache hloaded hstored p hp).trans (hsame p hp)
  have hanswer := hloads.answer u v (.refl _ u) hafter hsame'
  rw [hload] at hanswer
  refine ⟨_, Prod.ext ?_ rfl, hloads.grown v hafter⟩
  exact hanswer

end Apart

end CheckRequest

open CheckRequest

/-! ### Two checks -/

/-- What a check comes to once its cache is open. -/
def CheckRequest.answerAt (r : CheckRequest) (s : Settings) (exclude : Path → Bool) (t : FileTree) :
    Except CommandFault Report × FileTree :=
  let loaded := ((loaderOf s exclude).load r.files r.directories : StateM FileTree _).run t
  (checkLoaded s loaded.1 : StateM FileTree _).run loaded.2

/-- **Works that are checked again are found the same**, with what the first check has left. -/
theorem CheckRequest.Apart.answered_again (h : r.Apart s exclude t) (hcheck : s.check = .ok ())
    (hcache : withCache s t = .ok u) (hsavable : r.Savable s exclude u) (later : Moment) :
    ∃ first second v v', r.answerAt s exclude u = (.ok first, v) ∧
      Grown (r.writes s exclude t) t v ∧ (∀ c ∈ (loaderOf s exclude).cache, v.IsOpen c.root) ∧
      r.answerAt s exclude { v with time := later } = (.ok second, v') ∧ SameFindings first second := by
  rcases hload : ((loaderOf s exclude).load r.files r.directories : StateM FileTree _).run u with
    ⟨loaded, u₁⟩
  have hkept := (h.repeats hcache).grown u (.refl _ u)
  rw [hload] at hkept
  have hloaded := (grown_withCache r exclude hcache).trans
    (hkept.mono fun q => mem_writes_of_kept hcache)
  obtain ⟨first, v, hfirst, hshows, hleft⟩ := run_checkLoaded hcheck loaded u₁
  have hleft := hleft (h.writable hcache hsavable hload)
  have hstored := hleft.grown
  obtain ⟨v₁, hload', hkept'⟩ := h.load_again hcache hload (hstored.clock later)
  obtain ⟨second, v', hsecond, hshows', -⟩ := run_checkLoaded hcheck loaded v₁
  refine ⟨first, second, v, v', ?_, hloaded.trans (hstored.mono fun q => mem_writes_of_stored hloaded),
    fun c hc => hstored.isOpen (hkept.isOpen ((withCache_eq_ok hcache).1 c hc)), ?_, ?_⟩
  · rw [answerAt, hload]
    exact hfirst
  · rw [answerAt, hload']
    exact hsecond
  · refine hshows.sameFindings hshows' ?_
    exact hleft.leavings (h.housed_of_grown hcache hkept) (((Grown.refl _ v).clock later).trans hkept')
      fun q hq => h.not_mem_kept hcache hq

/-- What a check starts with: its settings, what it leaves out, and the tree once its cache is open. -/
def CheckRequest.opened (r : CheckRequest) (t : FileTree) :
    Except CommandFault (Settings × (Path → Bool) × FileTree) :=
  if r.files = [] ∧ r.directories = [] then .error .nothingToCheck
  else match r.settingsAt t with
    | .error f => .error f
    | .ok s => match Loader.excluding r.exclude with
      | .error f => .error (.failure f)
      | .ok exclude => match withCache s t with
        | .error f => .error (.failure f)
        | .ok u => .ok (s, exclude, u)

theorem of_opened (h : r.opened t = .ok (s, exclude, u)) : r.settingsAt t = .ok s ∧
    Loader.excluding r.exclude = .ok exclude ∧ withCache s t = .ok u := by
  unfold opened at h
  split at h
  · cases h
  · split at h
    · cases h
    next hsettings =>
      split at h
      · cases h
      next hexclude =>
        split at h
        · cases h
        next hcache =>
          cases h
          exact ⟨hsettings, hexclude, hcache⟩

/-- A check that is carried out again starts with the same. -/
theorem opened_again (h : r.opened t = .ok (s, exclude, u)) (hsettings : r.settingsAt v = r.settingsAt t)
    (hcache : withCache s v = .ok v) : r.opened v = .ok (s, exclude, v) := by
  obtain ⟨hread, hexclude, -⟩ := of_opened h
  unfold opened at h ⊢
  split
  next hnone =>
    rw [if_pos hnone] at h
    cases h
  · rw [hsettings, hread, hexclude]
    dsimp only
    rw [hcache]

theorem opened_clock (r : CheckRequest) (t : FileTree) (now : Moment) :
    r.opened { t with time := now } =
      (r.opened t).map fun x => (x.1, x.2.1, { x.2.2 with time := now }) := by
  have hsettings : r.settingsAt { t with time := now } = r.settingsAt t :=
    settingsAt_congr fun _ _ _ _ => rfl
  unfold opened
  rw [hsettings]
  split
  · rfl
  · cases r.settingsAt t with
    | error f => rfl
    | ok s =>
        cases Loader.excluding r.exclude with
        | error f => rfl
        | ok exclude =>
            dsimp only
            rw [withCache_clock]
            cases withCache s t <;> rfl

/-- A check breaks off and leaves the tree as it is, or its works are loaded and compared. -/
theorem run_checkReport (r : CheckRequest) (t : FileTree) : (checkReport r : StateM FileTree _).run t =
    match r.opened t with
    | .error f => (.error f, t)
    | .ok (s, exclude, u) => r.answerAt s exclude u := by
  unfold checkReport opened
  split
  · rfl
  · rw [Host.run_bind_eq (run_soundSettings (t := t) fun _ _ _ _ => rfl)]
    cases r.settingsAt t with
    | error f => rfl
    | ok s =>
        dsimp only
        rw [Host.run_bind_eq (run_loader r s t)]
        cases Loader.excluding r.exclude with
        | error f => rfl
        | ok exclude =>
            dsimp only
            cases withCache s t <;> rfl

/-- Two checks that say the same: both break off for the same reason, or both report the same. -/
inductive SameAnswer : Except CommandFault Report → Except CommandFault Report → Prop where
  | broken (f : CommandFault) : SameAnswer (.error f) (.error f)
  | reported {first second : Report} (same : SameFindings first second) :
    SameAnswer (.ok first) (.ok second)

/-- The exit code of a check. -/
def exitOf : Except CommandFault Report → Nat
  | .error f => f.exit
  | .ok report => report.status.code

theorem SameAnswer.exitOf_eq {first second : Except CommandFault Report}
    (h : SameAnswer first second) : exitOf second = exitOf first := by
  cases h with
  | broken f => rfl
  | reported same => exact congrArg Batch.Status.code same.status

/-- A check exits with the code of its report, and changes nothing after it. -/
theorem run_check (r : CheckRequest) (t : FileTree) :
    ((check r : StateM FileTree _).run t).1.exit = exitOf ((checkReport r : StateM FileTree _).run t).1 ∧
      ((check r : StateM FileTree _).run t).2 = ((checkReport r : StateM FileTree _).run t).2 := by
  have hrun : (checkReport r : StateM FileTree _).run t =
      (((checkReport r : StateM FileTree _).run t).1, ((checkReport r : StateM FileTree _).run t).2) := rfl
  rw [check, Host.run_bind_eq hrun]
  cases ((checkReport r : StateM FileTree _).run t).1 <;> exact ⟨rfl, rfl⟩

/-- The tree that a check leaves, at a later moment. -/
def CheckRequest.leaves (r : CheckRequest) (t : FileTree) (later : Moment) : FileTree :=
  { ((check r : StateM FileTree _).run t).2 with time := later }

/-- A check that is carried out again reports the same. -/
theorem sameAnswer_checkReport (r : CheckRequest) (t : FileTree) (later : Moment)
    (hapart : ∀ s exclude u, r.opened t = .ok (s, exclude, u) → r.Apart s exclude t)
    (hsavable : ∀ s exclude u, r.opened t = .ok (s, exclude, u) → r.Savable s exclude u) :
    SameAnswer ((checkReport r : StateM FileTree _).run t).1
      ((checkReport r : StateM FileTree _).run (r.leaves t later)).1 := by
  rw [leaves, (run_check r t).2]
  cases hopened : r.opened t with
  | error f =>
      have hfirst : (checkReport r : StateM FileTree _).run t = (.error f, t) := by
        rw [run_checkReport, hopened]
      rw [hfirst, run_checkReport, opened_clock, hopened]
      exact .broken f
  | ok x =>
      obtain ⟨s, exclude, u⟩ := x
      obtain ⟨hsettings, -, hcache⟩ := of_opened hopened
      have h := hapart s exclude u hopened
      obtain ⟨first, second, v, v', hfirst, hgrown, hopen, hsecond, hsame⟩ :=
        h.answered_again (check_of_settingsAt hsettings) hcache (hsavable s exclude u hopened) later
      have hreport : (checkReport r : StateM FileTree _).run t = (.ok first, v) := by
        rw [run_checkReport, hopened]
        exact hfirst
      have hsettings' : r.settingsAt { v with time := later } = r.settingsAt t :=
        settingsAt_congr fun p hp => (hgrown.clock later).clear
          (h.inputs p (List.mem_append_left _ (Option.mem_toList.mpr hp)))
      have hopen' : ∀ c ∈ (loaderOf s exclude).cache, { v with time := later }.IsOpen c.root :=
        fun c hc => ((Grown.refl [] v).clock later).isOpen (hopen c hc)
      rw [hreport, run_checkReport, opened_again hopened hsettings' (withCache_eq_self hopen')]
      dsimp only
      rw [hsecond]
      exact .reported hsame

/-- **A check that is carried out again says the same**, whatever the tree and whatever was asked for, as
long as what the check writes is apart from what it reads, and the verdicts that it keeps can be written.
Both times the same pairs of works are found to be as much alike, or cannot be compared for the same reason,
the same works cannot be loaded, and the exit code is the same; or the check breaks off for the same
reason. -/
theorem check_again (r : CheckRequest) (t : FileTree) (later : Moment)
    (hapart : ∀ s exclude u, r.opened t = .ok (s, exclude, u) → r.Apart s exclude t)
    (hsavable : ∀ s exclude u, r.opened t = .ok (s, exclude, u) → r.Savable s exclude u) :
    SameAnswer ((checkReport r : StateM FileTree _).run t).1
        ((checkReport r : StateM FileTree _).run (r.leaves t later)).1 ∧
      ((check r : StateM FileTree _).run (r.leaves t later)).1.exit =
        ((check r : StateM FileTree _).run t).1.exit := by
  have hsame := sameAnswer_checkReport r t later hapart hsavable
  refine ⟨hsame, ?_⟩
  rw [(run_check r (r.leaves t later)).1, (run_check r t).1]
  exact hsame.exitOf_eq

/-- The record of a short essay. -/
def essay : String :=
  "\x7b\"identity\": \x7b\"path\": \"x\"\x7d, \"tokens\": [1, 2, 3], \"structure\": [[1, 0]]\x7d"

/-- Two directories with an essay each. -/
def essays : FileTree where
  entries := [(["a"], .directory), (["a", "x.json"], .file essay.toUTF8 ⟨0, 0⟩),
    (["b"], .directory), (["b", "y.json"], .file essay.toUTF8 ⟨0, 0⟩)]
  time := ⟨0, 0⟩

/-- A check that keeps its results and its cache beside them. -/
def essaysCheck : CheckRequest where
  directories := [⟨"a"⟩, ⟨"b"⟩]
  reports := some ⟨"results"⟩
  featureCache := some ⟨"cache"⟩

theorem check_again_essays :
    (∀ s exclude u, essaysCheck.opened essays = .ok (s, exclude, u) →
      essaysCheck.Apart s exclude essays ∧ essaysCheck.Savable s exclude u) ∧
    SameAnswer ((checkReport essaysCheck : StateM FileTree _).run essays).1
        ((checkReport essaysCheck : StateM FileTree _).run (essaysCheck.leaves essays ⟨60, 0⟩)).1 ∧
      ((check essaysCheck : StateM FileTree _).run (essaysCheck.leaves essays ⟨60, 0⟩)).1.exit =
        ((check essaysCheck : StateM FileTree _).run essays).1.exit := by
  have hall : ∀ s exclude u, essaysCheck.opened essays = .ok (s, exclude, u) →
      essaysCheck.Apart s exclude essays ∧ essaysCheck.Savable s exclude u := by
    intro s exclude u hopened
    obtain ⟨hsettings, hexclude, hcache⟩ := of_opened hopened
    have hdefault : essaysCheck.settingsAt essays = .ok (essaysCheck.adapt .default) := by
      decide +kernel
    obtain rfl := Except.ok.inj (hdefault.symm.trans hsettings)
    obtain rfl : (fun _ => false) = exclude := Except.ok.inj hexclude
    have hdisjoint : ∀ q ∈ (loaderOf (essaysCheck.adapt .default) fun _ => false).entryPlaces
        (essaysCheck.sourcesAt (essaysCheck.adapt .default) (fun _ => false) essays),
        q ∉ storePlaces (essaysCheck.adapt .default) := by decide +kernel
    have htokens : ((withCache (essaysCheck.adapt .default) essays).toOption.all fun u =>
        (essaysCheck.sourcesAt (essaysCheck.adapt .default) (fun _ => false) u).all fun p =>
          ((loaderOf (essaysCheck.adapt .default) fun _ => false).resultAt u p).toOption.all
            fun w => w.tokens.length < 2 ^ 63) = true := by decide +kernel
    rw [hcache] at htokens
    refine ⟨⟨by decide +kernel, ?_, ?_, fun q hq hmem => absurd hmem (hdisjoint q hq), ?_⟩,
      savable_of_check (check_of_settingsAt hsettings) ?_ (by decide +kernel) fun p hp w hw => ?_⟩
    · unfold Loader.Overlooks
      decide +kernel
    · decide +kernel
    · unfold Housed
      decide +kernel
    · rw [(withCache_eq_ok hcache).2.2.1]
      exact ⟨by decide, .inl (by decide)⟩
    · have hsmall := List.all_eq_true.mp htokens p hp
      rw [hw] at hsmall
      exact of_decide_eq_true hsmall
  exact ⟨hall, check_again essaysCheck essays ⟨60, 0⟩ (fun s exclude u h => (hall s exclude u h).1)
    fun s exclude u h => (hall s exclude u h).2⟩

/-- A check that keeps its results in the directory that it looks through. -/
def nestedCheck : CheckRequest where
  directories := [⟨"a"⟩]
  reports := some ⟨"a"⟩

/-- The results are taken for a work the next time, and as they are not the record of one, the second check
reports a fault where the first found none. -/
theorem exists_changed_check : ∃ t : FileTree,
    ((check nestedCheck : StateM FileTree _).run t).1.exit = 0 ∧
      ((check nestedCheck : StateM FileTree _).run (nestedCheck.leaves t ⟨60, 0⟩)).1.exit = 8 :=
  ⟨⟨[(["a"], .directory)], ⟨0, 0⟩⟩, by decide +kernel, by decide +kernel⟩

end Likeness.Command
