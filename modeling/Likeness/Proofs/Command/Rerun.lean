import Likeness.Command.Check
import Likeness.Proofs.Batch.Candidates
import Likeness.Proofs.Batch.Restart
import Likeness.Proofs.Compare.Mean

/-!
# Likeness.Proofs.Command.Rerun

Works that are compared again with the store of the settings on a file tree.

What a batch comes to is decided by the records that its store starts with (`startRecords`). Whether or not
the store could be opened and its records be saved, what is left on the tree (`Left`) gives the next run of
the batch records that it can start with again (`Left.leavings`), as long as the tree has only grown
elsewhere meanwhile. So the reports on both say the same (`Shows.sameFindings`), but for dates and the
state of the store.
-/

namespace Likeness.Command

open FileTree
open Batch (Group Plan Job Report Run recordFor comparison)

variable {s : Settings} {t u v : FileTree} {groups : List Group}

/-! ### The store of the settings -/

/-- The file of the result store in a tree. -/
def storeFile (s : Settings) (t : FileTree) : Option Path :=
  s.files.reports.map fun p =>
    if t.kind? p = some .directory then p.join FileSettings.reportName else p

/-- The records that a check starts with. -/
def startRecords (s : Settings) (t : FileTree) : Records :=
  match storeFile s t with
  | none => .empty
  | some p => FileStore.recordsIn p (Host.look t p)

theorem run_reportsFile (s : Settings) (t : FileTree) :
    (s.files.reportsFile : StateM FileTree _).run t = (storeFile s t, t) := by
  rw [FileSettings.reportsFile, storeFile]
  cases s.files.reports with
  | none => rfl
  | some p =>
      change (some (if (decide (t.kind? p = some .directory)) = true then _ else _), t) = _
      simp only [decide_eq_true_eq]
      rfl

/-- What the outcome of a job is, from what the store has for it. -/
def outcomeAt (s : Settings) (now : Moment) (rs : Records) (job : Job) : Batch.Outcome :=
  job.expected (recordFor rs job) (comparison s.compare now job.first job.second)

/-- What a run leaves on the tree for the next one. -/
inductive Left (s : Settings) (plan : Plan) (t : FileTree) : FileTree → Prop where
  /-- There is no store. -/
  | nothing (none : storeFile s t = none) : Left s plan t t
  /-- The store could not be opened. -/
  | unopened {p : Path} {u : FileTree} (file : storeFile s t = some p)
      (room : FileStore.Roomier p t u) (before : FileStore.recordsIn p (Host.look t p) = .empty)
      (after : FileStore.recordsIn p (Host.look u p) = .empty) : Left s plan t u
  /-- The store was closed. -/
  | closed {p : Path} {u : FileTree} (file : storeFile s t = some p) {store : FileStore}
      (tended : Batch.Tended plan (comparison s.compare t.time) (startRecords s t) p t (store, u)) :
      Left s plan t u

/-- The comparison of the jobs of a check. -/
def compared (s : Settings) (now : Moment) : Job → Except Batch.PairFault Verdict :=
  Batch.judge fun job => comparison s.compare now job.first job.second

/-- A run that found certain records. -/
def Reports (s : Settings) (groups : List Group) (now : Moment) (rs : Records) (run : Run) : Prop :=
  ∀ threshold, run.report threshold =
    { Report.ofOutcomes ((Plan.ofGroups groups s.pairing).jobs.toList.map (outcomeAt s now rs))
        threshold with storeWarnings := run.warnings }

/-- Running a batch without a store. -/
theorem run_unstored (hsettings : s.check = .ok ()) (groups : List Group) (now : Moment)
    (t : FileTree) : ∃ run, (Batch.runGroups s 1 .none (compared s now) (fun _ => false) groups :
        StateM FileTree _).run t = (.ok run, t) ∧ Reports s groups now .empty run := by
  obtain ⟨run, u, hrun, hcompleted⟩ := Run.exists_completed groups s
    (.none : VerdictStore (StateM FileTree)) (comparison s.compare now)
    (Batch.effectiveCount_pos hsettings Nat.one_pos) t
  rw [hcompleted.unchanged_none] at hrun
  exact ⟨run, hrun, hcompleted.report_eq VerdictStore.separate_none⟩

/-- The verdict on two works can be written, if it has to be kept. -/
def WritableFor (s : Settings) (now : Moment) (a b : Work) : Prop :=
  s.files.reports.isSome = true → ∀ v, comparison s.compare now a b = .verdict v → v.isFull = true →
    v.Storable

/-- With settings that are sound, a verdict can be written if the sum of the weights is finite. -/
theorem writableFor_of_check {now : Moment} {a b : Work} (hsettings : s.check = .ok ())
    (hsum : (Weights.sum s.compare.weights.toList).isFinite = true) (hnow : now.Valid)
    (ha : a.tokens.length < 2 ^ 63) (hb : b.tokens.length < 2 ^ 63) : WritableFor s now a b := by
  obtain ⟨⟨⟩, hcompare, -⟩ := Except.bind_eq_ok.mp hsettings
  obtain ⟨⟨⟩, -, hcompare⟩ := Except.bind_eq_ok.mp hcompare
  obtain ⟨⟨⟩, -, hcompare⟩ := Except.bind_eq_ok.mp hcompare
  obtain ⟨⟨⟩, hweights, -⟩ := Except.bind_eq_ok.mp hcompare
  exact fun _ v hv _ => Batch.storable_of_comparison hweights hsum hnow ha hb hv

/-- The verdicts on the jobs of a plan can be written. -/
def Writable (s : Settings) (now : Moment) (plan : Plan) : Prop :=
  ∀ job ∈ plan.jobs, WritableFor s now job.first job.second

theorem writable_of_works {now : Moment} (hworks : ∀ g ∈ groups, ∀ a ∈ g.works, ∀ g' ∈ groups,
    ∀ b ∈ g'.works, WritableFor s now a b) : Writable s now (Plan.ofGroups groups s.pairing) := by
  intro job hjob
  obtain ⟨hfirst, hsecond⟩ := Plan.mem_works_of_job hjob
  obtain ⟨g, hg, hfirst⟩ := List.mem_flatMap.mp hfirst
  obtain ⟨g', hg', hsecond⟩ := List.mem_flatMap.mp hsecond
  exact hworks g hg _ hfirst g' hg' _ hsecond

/-- Running a batch with a store that was opened, and closing it. -/
theorem run_stored (hsettings : s.check = .ok ()) (groups : List Group) {p : Path} {store : FileStore}
    {now : Moment} (hkept : s.files.reports.isSome = true)
    (hstart : Batch.Tended (Plan.ofGroups groups s.pairing) (comparison s.compare now) store.records p t
      (store, u)) : ∃ run store' v, (do
        let (run, store) ← (Batch.runGroups s 1 .file (compared s now) (fun _ => false) groups).run store
        store.close
        return (run, []) : StateM FileTree (_ × List String)).run u = ((.ok run, []), v) ∧
      Reports s groups now store.records run ∧
      (Writable s now (Plan.ofGroups groups s.pairing) →
        Batch.Tended (Plan.ofGroups groups s.pairing) (comparison s.compare now) store.records p t
          (store', v)) := by
  obtain ⟨run, ⟨store₁, u₁⟩, hrun, hcompleted⟩ := Run.exists_completed groups s
    (.fileOn FileTree) (comparison s.compare now)
    (Batch.effectiveCount_pos hsettings Nat.one_pos) (store, u)
  rcases hflush : (store₁.flush : StateM FileTree _).run u₁ with ⟨⟨answer, store₂⟩, v⟩
  refine ⟨run, store₂, v, ?_, hcompleted.report_eq VerdictStore.recalls_fileOn.toSeparate,
    fun hwritable => (hcompleted.tended hstart fun job hjob => hwritable job hjob hkept).flush hflush⟩
  rw [VerdictStore.fileOn, Batch.runGroups_flat] at hrun
  have hbatch : ((Batch.runGroups s 1 .file (compared s now) (fun _ => false) groups :
      StateT FileStore (StateM FileTree) _).run store).run u = ((.ok run, store₁), u₁) :=
    run_flatten hrun
  rw [Host.run_bind_eq hbatch]
  dsimp only
  rw [Host.run_bind_eq (FileStore.run_close hflush)]
  rfl

/-- Running a batch with the file of its store, if it has one. -/
def runWith (s : Settings) (groups : List Group) (now : Moment) :
    Option Path → StateM FileTree (Except Batch.RunFault Run × List String)
  | none => return (← Batch.runGroups s 1 .none (compared s now) (fun _ => false) groups, [])
  | some p => do
    match ← FileStore.open? p s.files.saveInterval.toNat with
    | .error f =>
      return (← Batch.runGroups s 1 .none (compared s now) (fun _ => false) groups, [f.message])
    | .ok store =>
      let (run, store) ← (Batch.runGroups s 1 .file (compared s now) (fun _ => false) groups).run store
      store.close
      return (run, [])

theorem runStored_eq_runWith (s : Settings) (groups : List Group) (t : FileTree) :
    (runStored s groups : StateM FileTree _).run t = (runWith s groups t.time (storeFile s t)).run t := by
  rw [runStored, Host.run_bind_eq (show (Host.processors : StateM FileTree _).run t = (1, t) from rfl),
    Host.run_bind_eq (show (Host.now : StateM FileTree _).run t = (t.time, t) from rfl),
    Host.run_bind_eq (run_reportsFile s t), Batch.compareJob_eq_judge]
  cases storeFile s t <;> rfl

/-- **What running a batch with the store of the settings comes to.** The records that are seen at the
path of the store decide what is found, and whether or not they can be saved, something is left there from
which the batch can be run again. -/
theorem run_runStored (hsettings : s.check = .ok ()) (groups : List Group) (t : FileTree) :
    ∃ run warnings u, (runStored s groups : StateM FileTree _).run t = ((.ok run, warnings), u) ∧
      Reports s groups t.time (startRecords s t) run ∧
      (Writable s t.time (Plan.ofGroups groups s.pairing) →
        Left s (Plan.ofGroups groups s.pairing) t u) := by
  rw [runStored_eq_runWith]
  cases hfile : storeFile s t with
  | none =>
      obtain ⟨run, hbatch, hreports⟩ := run_unstored hsettings groups t.time t
      refine ⟨run, [], t, ?_, ?_, fun _ => .nothing hfile⟩
      · rw [runWith, Host.run_bind_eq hbatch]
        rfl
      · rwa [startRecords, hfile]
  | some p =>
      have hkept : s.files.reports.isSome = true := by
        obtain ⟨root, hroot, -⟩ := Option.map_eq_some_iff.mp hfile
        rw [hroot, Option.isSome_some]
      have hstart : startRecords s t = FileStore.recordsIn p (Host.look t p) := by
        rw [startRecords, hfile]
      rw [runWith]
      rcases FileStore.open_cases_tree p s.files.saveInterval.toNat t with
        ⟨store, u, hopen, hgrown, hsound, hclean, hrecords⟩ | ⟨f, u, hopen, hroom, hbefore, hafter⟩
      · rw [Host.run_bind_eq hopen]
        obtain ⟨run, store', v, hbatch, hreports, htended⟩ :=
          run_stored hsettings groups hkept (.of_sound (comparison s.compare t.time) _ hsound hclean hgrown)
        rw [hrecords, ← hstart] at hreports htended
        exact ⟨run, [], v, hbatch, hreports, fun hwritable => .closed hfile (htended hwritable)⟩
      · rw [Host.run_bind_eq hopen]
        obtain ⟨run, hbatch, hreports⟩ := run_unstored hsettings groups t.time u
        refine ⟨run, [f.message], u, ?_, ?_, fun _ => .unopened hfile hroom hbefore hafter⟩
        · dsimp only
          rw [Host.run_bind_eq hbatch]
          rfl
        · rwa [hstart, hbefore]

/-! ### What is left -/

/-- The places where the store of the settings may change a tree, or that decide where it is. -/
def storePlaces (s : Settings) : List (List String) :=
  match s.files.reports with
  | none => []
  | some p => FileStore.places p ++ FileStore.places (p.join FileSettings.reportName)

/-- The store is put in a directory that is there, or there is no file that it would be if a directory
came to be there. -/
def Housed (s : Settings) (t : FileTree) : Prop :=
  ∀ p ∈ s.files.reports, t.kind? p = some .directory ∨
    (t.find? (placeOf (p.join FileSettings.reportName))).all FileEntry.isDirectory = true

variable {plan : Plan} {W : List (List String)}

theorem storeFile_eq_some {p : Path} (h : storeFile s t = some p) : ∃ root ∈ s.files.reports,
    (t.kind? root = some .directory ∧ p = root.join FileSettings.reportName) ∨
      (t.kind? root ≠ some .directory ∧ p = root) := by
  obtain ⟨root, hroot, heq⟩ := Option.map_eq_some_iff.mp h
  refine ⟨root, hroot, ?_⟩
  split at heq
  next hdirectory => exact .inl ⟨hdirectory, heq.symm⟩
  next hother => exact .inr ⟨hother, heq.symm⟩

theorem storeFile_eq {root : Path} (h : root ∈ s.files.reports) (t : FileTree) : storeFile s t =
    some (if t.kind? root = some .directory then root.join FileSettings.reportName else root) := by
  rw [storeFile, h]
  rfl

theorem places_storeFile {p : Path} (h : storeFile s t = some p) :
    ∀ q ∈ FileStore.places p, q ∈ storePlaces s := by
  intro q hq
  obtain ⟨root, hroot, ⟨-, rfl⟩ | ⟨-, rfl⟩⟩ := storeFile_eq_some h
  · rw [storePlaces, hroot]
    exact List.mem_append_right _ hq
  · rw [storePlaces, hroot]
    exact List.mem_append_left _ hq

theorem Left.grown (h : Left s plan t u) : Grown (t.vacant (storePlaces s)) t u := by
  have hsub {p : Path} (hfile : storeFile s t = some p) :
      ∀ q ∈ t.vacant (FileStore.places p), q ∈ t.vacant (storePlaces s) := by
    intro q hq
    obtain ⟨hmem, hfree⟩ := mem_vacant.mp hq
    exact mem_vacant.mpr ⟨places_storeFile hfile q hmem, hfree⟩
  cases h with
  | nothing none => exact .refl _ t
  | unopened file room before after => exact room.grown.mono (hsub file)
  | closed file tended => exact tended.grown.mono (hsub file)

/-- The path of a store that is in a directory stays the same. -/
theorem storeFile_of_directory {p root : Path} (hroot : root ∈ s.files.reports)
    (hdirectory : v.kind? root = some .directory) (hp : p = root.join FileSettings.reportName) :
    storeFile s v = some p := by
  rw [storeFile_eq hroot, if_pos hdirectory, hp]

/-- Where a store could not be opened it has no records later either, also if a directory came to be there
meanwhile, in which the store would be looked for. -/
theorem startRecords_of_unopened {p : Path} (hfile : storeFile s t = some p)
    (hroom : FileStore.Roomier p t u) (hafter : FileStore.recordsIn p (Host.look u p) = .empty)
    (hhoused : Housed s t) (hdirectory : ∀ root, t.kind? root = some .directory →
      v.kind? root = some .directory)
    (hstart : ∀ q, storeFile s v = some q → startRecords s v = FileStore.recordsIn q (Host.look u q)) :
    startRecords s v = .empty := by
  obtain ⟨root, hroot, ⟨hthere, hp⟩ | ⟨hother, rfl⟩⟩ := storeFile_eq_some hfile
  · rw [hstart p (storeFile_of_directory hroot (hdirectory root hthere) hp)]
    exact hafter
  · by_cases hthere : v.kind? p = some .directory
    · rw [hstart _ (storeFile_of_directory hroot hthere rfl)]
      refine FileStore.recordsIn_of_unread fun content hread => ?_
      obtain ⟨g, modified, htarget, -, hfind⟩ := read_eq_ok hread
      rw [(place_of_target htarget).1] at hfind
      have hbefore := hroom.files _ _ _ hfind
      rcases hhoused p hroot with hdirectory | hnone
      · exact hother hdirectory
      · rw [hbefore] at hnone
        cases hnone
    · rw [hstart p (by rw [storeFile_eq hroot, if_neg hthere])]
      exact hafter

/-- A run of the same batch that starts later, when the tree has only grown elsewhere, starts with records
from which it can be run again. -/
theorem Left.leavings (h : Left s plan t u) (hhoused : Housed s t) (hgrown : Grown W u v)
    (hclear : ∀ q ∈ storePlaces s, q ∉ W) :
    Batch.Leavings plan (comparison s.compare t.time) (startRecords s t) (startRecords s v) := by
  have hlook {p : Path} (hp : ∀ q ∈ FileStore.places p, q ∈ storePlaces s) :
      Host.look v p = Host.look u p :=
    look_congr (hgrown.clear fun q hq => hclear q (hp q (List.mem_append_left _ hq)))
  have hdirectory (root : Path) (hroot : t.kind? root = some .directory) :
      v.kind? root = some .directory := hgrown.kind?_directory (h.grown.kind?_directory hroot)
  have hstart (p : Path) (hv : storeFile s v = some p) :
      startRecords s v = FileStore.recordsIn p (Host.look u p) := by
    rw [startRecords, hv]
    dsimp only
    rw [hlook (places_storeFile hv)]
  cases h with
  | nothing none =>
      have hnone : storeFile s v = Option.none := by
        rw [storeFile, Option.map_eq_none_iff] at none ⊢
        exact none
      rw [startRecords, startRecords, none, hnone]
      exact .refl _ _ _
  | @closed p u file store tended =>
      have hv : storeFile s v = some p := by
        obtain ⟨root, hroot, ⟨hthere, hp⟩ | ⟨-, rfl⟩⟩ := storeFile_eq_some file
        · exact storeFile_of_directory hroot (hdirectory root hthere) hp
        · obtain ⟨content, hread⟩ := tended.readable
          have hfile := (FileStore.Roomier.refl p u).look_eq hread
          rw [← hlook (places_storeFile file)] at hfile
          have hkind : v.kind? p = some .file := congrArg Prod.fst hfile
          rw [storeFile_eq hroot, hkind, if_neg (by decide)]
      rw [hstart p hv]
      exact tended.file
  | @unopened p u file room before after =>
      have hbefore : startRecords s t = .empty := by
        rw [startRecords, file]
        exact before
      rw [startRecords_of_unopened file room after hhoused hdirectory hstart, hbefore]
      exact .refl _ _ _

/-! ### Checking what was loaded -/

/-- The outcomes of a check that found certain records. -/
def outcomesAt (s : Settings) (groups : List Group) (now : Moment) (rs : Records) :
    List Batch.Outcome :=
  (Plan.ofGroups groups s.pairing).jobs.toList.map (outcomeAt s now rs)

/-- What a report of a check shows, apart from the store and the time that it took. -/
structure Shows (s : Settings) (loaded : Loaded) (now : Moment) (rs : Records) (report : Report) :
    Prop where
  outcomes : report.outcomes = outcomesAt s loaded.groups now rs
  failures : report.failures = (outcomesAt s loaded.groups now rs).filterMap Batch.Outcome.fault?
  diagnostics : report.diagnostics = loaded.diagnostics.map LoadFault.message
  status : report.status = ((Report.ofOutcomes (outcomesAt s loaded.groups now rs)
    s.compare.threshold).addDiagnostics (loaded.diagnostics.map LoadFault.message)).status

theorem run_checkLoaded (hsettings : s.check = .ok ()) (loaded : Loaded) (t : FileTree) :
    ∃ report u, (checkLoaded s loaded : StateM FileTree _).run t = (.ok report, u) ∧
      Shows s loaded t.time (startRecords s t) report ∧
      (Writable s t.time (Plan.ofGroups loaded.groups s.pairing) →
        Left s (Plan.ofGroups loaded.groups s.pairing) t u) := by
  obtain ⟨run, warnings, u, hrun, hreports, hleft⟩ := run_runStored hsettings loaded.groups t
  have hreport := hreports s.compare.threshold
  refine ⟨{ ({ run.report s.compare.threshold with elapsed := spanOf 0 0 }).addDiagnostics
      (loaded.diagnostics.map LoadFault.message) with
    storeWarnings := (run.report s.compare.threshold).storeWarnings ++ warnings }, u, ?_, ?_, hleft⟩
  · rw [checkLoaded, Host.run_bind_eq (show (Host.ticks : StateM FileTree _).run t = (0, t) from rfl),
      Host.run_bind_eq hrun]
    rfl
  · rw [hreport]
    exact ⟨rfl, Report.failures_ofOutcomes _ _, rfl, rfl⟩

/-! ### Reports that say the same -/

/-- Two reports on the same pairs that say the same, but for the store and for dates. -/
structure SameFindings (first second : Report) : Prop where
  findings : second.outcomes.map Batch.Outcome.finding = first.outcomes.map Batch.Outcome.finding
  failures : second.failures = first.failures
  diagnostics : second.diagnostics = first.diagnostics
  status : second.status = first.status

/-- A check that is run again starts with records from which it can be run again, so it says the same. -/
theorem Shows.sameFindings {loaded : Loaded} {now now' : Moment} {rs rs' : Records}
    {first second : Report} (h : Shows s loaded now rs first) (h' : Shows s loaded now' rs' second)
    (hleavings : Batch.Leavings (Plan.ofGroups loaded.groups s.pairing) (comparison s.compare now) rs
      rs') : SameFindings first second := by
  have hfindings : (outcomesAt s loaded.groups now' rs').map Batch.Outcome.finding =
      (outcomesAt s loaded.groups now rs).map Batch.Outcome.finding := by
    rw [outcomesAt, outcomesAt, List.map_map, List.map_map]
    refine List.map_congr_left fun job hjob => ?_
    exact Job.finding_expected (Batch.undated_comparison _ _ _ _ _)
      (hleavings job (Array.mem_toList_iff.mp hjob))
  obtain ⟨hfailures, hstatus⟩ := Report.ofOutcomes_of_findings hfindings s.compare.threshold
  refine ⟨?_, ?_, ?_, ?_⟩
  · rw [h.outcomes, h'.outcomes, hfindings]
  · rw [h.failures, h'.failures, ← Report.failures_ofOutcomes, hfailures,
      Report.failures_ofOutcomes]
  · rw [h.diagnostics, h'.diagnostics]
  · rw [h.status, h'.status, Report.addDiagnostics, Report.addDiagnostics, hstatus]

end Likeness.Command
