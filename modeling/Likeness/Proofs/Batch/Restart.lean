import Likeness.Proofs.Batch.Persistence
import Likeness.Proofs.Store.Placement

/-!
# Likeness.Proofs.Batch.Restart

Batches that are run one after the other on a file tree.

Whether or not a run could save its records, what the file of its store is read as afterwards has for
each job what it had before the run, or what the run has come to (`Tended`). In both cases a run of
the same batch that starts with these records finds the same for each job (`Job.finding_expected`).
-/

namespace Likeness

open FileTree

namespace Batch

/-! ### Findings -/

/-- What an outcome says of the works, wherever it was taken from and whenever it was computed. -/
structure Finding where
  paths : Path × Path
  verdict : Option Verdict
  fault : Option PairFault
deriving DecidableEq

def Outcome.finding (o : Outcome) : Finding := ⟨o.paths, o.verdict?.map Verdict.undated, o.fault?⟩

theorem Outcome.finding_again (o : Outcome) : o.again.finding = o.finding := by
  rw [finding, paths_again, verdict?_again, fault?_again, finding]

/-- What a finding adds to the status. -/
def Finding.status (threshold : UInt8) (g : Finding) : Status :=
  match g.verdict with
  | none => .errorsOccurred
  | some v => if v.exceeds threshold then .similarityFound else .clean

/-- The status of an outcome does not depend on dates. -/
theorem Outcome.status_finding (threshold : UInt8) (o : Outcome) :
    o.finding.status threshold = o.status threshold := by
  have hexceeds (v : Verdict) : v.undated.exceeds threshold = v.exceeds threshold := by
    cases v <;> rfl
  rw [Finding.status, status, finding]
  cases o.verdict? with
  | none => rfl
  | some v =>
      dsimp only [Option.map_some]
      rw [hexceeds]

theorem Comparison.finding_outcome {c c' : Comparison} (h : c.undated = c'.undated) (job : Job) :
    (c'.outcome job).finding = (c.outcome job).finding := by
  cases c with
  | verdict v =>
      cases c' with
      | verdict v' =>
          have hv := Comparison.verdict.inj h
          change Finding.mk _ (some v'.undated) _ = Finding.mk _ (some v.undated) _
          rw [hv]
          rfl
      | refused message => cases h
      | crashed message => cases h
  | refused message =>
      cases c' with
      | verdict v' => cases h
      | refused message' =>
          obtain rfl := Comparison.refused.inj h
          rfl
      | crashed message' => cases h
  | crashed message =>
      cases c' with
      | verdict v' => cases h
      | refused message' => cases h
      | crashed message' =>
          obtain rfl := Comparison.crashed.inj h
          rfl

/-- A job is found the same when what is there for it is what was there, or what it had come to. -/
theorem Job.finding_expected {c c' : Comparison} (h : c.undated = c'.undated)
    {found found' : Option Verdict} {job : Job}
    (hfound : found' = found ∨ found' = (job.expected found c).left?) :
    (job.expected found' c').finding = (job.expected found c).finding := by
  rcases hfound with rfl | rfl
  · cases found' with
    | some v => rfl
    | none => exact Comparison.finding_outcome h job
  · rw [Job.expected_again h, Outcome.finding_again]

/-- What is reported on outcomes depends on what they say, but for where they were taken from. -/
theorem Report.ofOutcomes_of_findings {os os' : List Outcome}
    (h : os'.map Outcome.finding = os.map Outcome.finding) (threshold : UInt8) :
    (ofOutcomes os' threshold).failures = (ofOutcomes os threshold).failures ∧
      (ofOutcomes os' threshold).status = (ofOutcomes os threshold).status := by
  have hfailures (os : List Outcome) : (ofOutcomes os threshold).failures =
      (os.map Outcome.finding).filterMap Finding.fault := by
    rw [failures_ofOutcomes, List.filterMap_map]
    rfl
  have hstatus (os : List Outcome) : (ofOutcomes os threshold).status =
      ((os.map Outcome.finding).map (Finding.status threshold)).foldl Status.union .clean := by
    simp [ofOutcomes_eq, List.foldl_map, Outcome.status_finding]
  rw [hfailures, hfailures, hstatus, hstatus, h]
  exact ⟨rfl, rfl⟩

/-! ### Records -/

/-- What records have for a job. -/
def recordFor (rs : Records) (job : Job) : Option Verdict :=
  rs.get? job.first.identity job.second.identity

/-- Records that may be there after a run that started with others: for each job they have what was
there, or what the run has come to. -/
def Leavings (plan : Plan) (f : Work → Work → Comparison) (before rs : Records) : Prop :=
  ∀ job ∈ plan.jobs, recordFor rs job = recordFor before job ∨
    recordFor rs job = (job.expected (recordFor before job) (f job.first job.second)).left?

variable {plan : Plan} {f : Work → Work → Comparison} {before rs : Records}

theorem Leavings.refl (plan : Plan) (f : Work → Work → Comparison) (rs : Records) :
    Leavings plan f rs rs := fun _ _ => .inl rfl

/-- The run puts what it has computed. -/
theorem Leavings.put (h : Leavings plan f before rs) (hplan : plan.Tidy) {job : Job}
    (hjob : job ∈ plan.jobs) {v : Verdict} (hfull : v.isFull = true)
    (hexpected : job.expected (recordFor before job) (f job.first job.second) =
      .computed job.first.identity job.second.identity v) :
    Leavings plan f before (rs.put job.first.identity job.second.identity v) := by
  intro other hother
  by_cases heq : other = job
  · subst heq
    right
    rw [hexpected, recordFor, Records.get?_put_self, Outcome.left?, if_pos hfull]
  · rw [recordFor, Records.get?_put_of_ne v fun hkey => heq (hplan.eq_of_pairKey_eq hother hjob hkey)]
    exact h other hother

/-! ### A store on a file tree -/

/-- A store in use by a run: its records, and those that its file is read as, may be there after the run.
The tree has only grown at the places of the store. -/
structure Tended (plan : Plan) (f : Work → Work → Comparison) (before : Records) (p : Path)
    (t : FileTree) (x : FileStore × FileTree) : Prop where
  path : x.1.path = p
  storable : x.1.records.Storable
  records : Leavings plan f before x.1.records
  readable : ∃ content, x.2.read p = .ok content
  file : Leavings plan f before (FileStore.recordsIn p (Host.look x.2 p))
  grown : Grown (t.vacant (FileStore.places p)) t x.2

namespace Tended

variable {p : Path} {t u : FileTree} {s : FileStore} {x : FileStore × FileTree}

/-- A store that was opened is tended from then on. -/
theorem of_sound (f : Work → Work → Comparison) (plan : Plan) (hsound : s.Sound p u)
    (hclean : s.dirty = false) (hgrown : Grown (t.vacant (FileStore.places p)) t u) :
    Tended plan f s.records p t (s, u) := by
  obtain ⟨kind, content, text, hlook, -⟩ := hsound.backed hclean
  have hsame := (hsound.backed hclean).recordsIn_eq
  rw [hsound.path] at hsame hlook
  refine ⟨hsound.path, hsound.storable, .refl _ _ _, ⟨content, congrArg Prod.snd hlook⟩, ?_, hgrown⟩
  dsimp only
  rw [hsame]
  exact .refl _ _ _

/-- However a save ends, what the file is read as may be there after the run. -/
theorem save {s s' : FileStore} {u u' : FileTree} {answer : Except StoreFault Unit}
    (h : Tended plan f before p t (s, u))
    (hrun : (s.save : StateM FileTree _).run u = ((answer, s'), u')) :
    Tended plan f before p t (s', u') := by
  obtain ⟨rfl, hstorable, hrecords, ⟨content, hread⟩, hfile, hgrown⟩ := h
  dsimp only at hstorable hrecords hread hfile hgrown ⊢
  have hsaved := s.grown_save u
  rw [hrun] at hsaved
  have hafter : Grown (t.vacant (FileStore.places s.path)) t u' :=
    hgrown.trans (hsaved.mono fun q hq => hgrown.mem_vacant hq)
  obtain ⟨v, hroom, ⟨-, fault, hsave⟩ | ⟨v', hwrite, hsave⟩⟩ := FileStore.save_cases_tree s u
  · rw [hsave] at hrun
    obtain ⟨⟨rfl, rfl⟩, rfl⟩ := hrun
    have hlook := hroom.look_eq hread
    refine ⟨rfl, hstorable, hrecords, ⟨content, congrArg Prod.snd hlook⟩, ?_, hafter⟩
    dsimp only
    rw [hlook, ← (FileStore.Roomier.refl s.path u).look_eq hread]
    exact hfile
  · have hwrote := FileStore.wrote_of_save (steady s.path) hsave
    rw [hsave] at hrun
    obtain ⟨⟨rfl, rfl⟩, rfl⟩ := hrun
    refine ⟨rfl, hstorable, hrecords, ⟨_, congrArg Prod.snd hwrote.1⟩, ?_, hafter⟩
    have hsame := (hwrote.1.backed hstorable).recordsIn_eq
    dsimp only [FileStore.saved] at hsame ⊢
    rw [hsame]
    exact hrecords

theorem flush {s s' : FileStore} {u u' : FileTree} {answer : Except StoreFault Unit}
    (h : Tended plan f before p t (s, u))
    (hrun : (s.flush : StateM FileTree _).run u = ((answer, s'), u')) :
    Tended plan f before p t (s', u') := by
  cases hdirty : s.dirty with
  | true =>
      rw [FileStore.run_flush_dirty hdirty] at hrun
      exact h.save hrun
  | false =>
      rw [FileStore.run_flush_clean hdirty] at hrun
      cases hrun
      exact h

theorem put {s s' : FileStore} {u u' : FileTree} {answer : Except StoreFault Unit}
    (h : Tended plan f before p t (s, u)) (hplan : plan.Tidy) {job : Job} (hjob : job ∈ plan.jobs)
    {v : Verdict} (hstorable : v.Storable) (hfull : v.isFull = true)
    (hexpected : job.expected (recordFor before job) (f job.first job.second) =
      .computed job.first.identity job.second.identity v)
    (hrun : (s.put job.first.identity job.second.identity v : StateM FileTree _).run u =
      ((answer, s'), u')) : Tended plan f before p t (s', u') := by
  have hheld : Tended plan f before p t
      (s.withRecord job.first.identity job.second.identity v, u) :=
    ⟨h.path, h.storable.put _ _ hstorable, h.records.put hplan hjob hfull hexpected, h.readable, h.file,
      h.grown⟩
  rw [FileStore.put, Host.run_bind_eq (show (Host.ticks : StateM FileTree _).run u = (0, u) from rfl)]
    at hrun
  cases hdue : (s.withRecord job.first.identity job.second.identity v).isDue 0 with
  | true =>
      rw [hdue, if_pos rfl] at hrun
      exact hheld.save hrun
  | false =>
      rw [hdue, if_neg Bool.false_ne_true] at hrun
      obtain ⟨⟨-, rfl⟩, rfl⟩ := hrun
      exact hheld

end Tended

namespace Run.Completed

variable {groups : List Group} {settings : Settings} {processors : Nat} {p : Path} {r : Run}

/-- A store that was tended when a run started is tended when it has ended. -/
theorem tended {s₀ s₁ : FileStore} {t t₀ t₁ : FileTree}
    (h : Completed groups settings processors (.fileOn FileTree) f (s₀, t₀) r (s₁, t₁))
    (hstart : Tended (Plan.ofGroups groups settings.pairing) f s₀.records p t (s₀, t₀))
    (hf : ∀ job ∈ (Plan.ofGroups groups settings.pairing).jobs, ∀ v,
      f job.first job.second = .verdict v → v.isFull = true → v.Storable) :
    Tended (Plan.ofGroups groups settings.pairing) f s₀.records p t (s₁, t₁) := by
  have hplan := Plan.tidy_ofGroups groups settings.pairing
  refine kept_of_reaches (P := Tended (Plan.ofGroups groups settings.pairing) f s₀.records p t) hplan
    VerdictStore.recalls_fileOn.toSeparate (fun _ _ _ hx => hx) ?_ ?_ hstart h.reaches h.uncancelled
  · intro x hx
    rcases hflush : (VerdictStore.fileOn FileTree).flush.run x with ⟨answer, y⟩
    exact hx.flush (VerdictStore.run_flush_fileOn hflush)
  · intro job hjob v hfull hexpected x hx
    have hv := hf job hjob v (Job.verdict_of_expected hexpected) hfull
    rcases hput : ((VerdictStore.fileOn FileTree).put job.first.identity job.second.identity v).run x
      with ⟨answer, y⟩
    exact hx.put hplan hjob hv hfull hexpected (VerdictStore.run_put_fileOn hput)

/-- Without a store nothing changes. -/
theorem unchanged_none {t₀ t₁ : FileTree}
    (h : Completed groups settings processors (.none : VerdictStore (StateM FileTree)) f t₀ r t₁) :
    t₁ = t₀ :=
  kept_of_reaches (P := (· = t₀)) (Plan.tidy_ofGroups groups settings.pairing)
    VerdictStore.separate_none (fun _ _ _ hs => hs) (fun _ hs => hs) (fun _ _ _ _ _ _ hs => hs) rfl
    h.reaches h.uncancelled

end Run.Completed

end Batch

end Likeness
