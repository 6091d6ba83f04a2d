import Mathlib.Tactic.SplitIfs
import Likeness.Proofs.Batch.Rerun
import Likeness.Proofs.Files.Tree
import Likeness.Proofs.Store.File

/-!
# Likeness.Proofs.Batch.Persistence

Batches that are run again with the same store, be it in memory or in a file that is closed and opened
in between (`rerun_repeats`).

Runs are related to each other with the state of the store as a value, so the store in a file is taken
together with its host. That makes no difference to what a batch does (`runGroups_flat`).
-/

namespace Likeness.Batch

/-! ### Batches on a host -/

section

variable {α τ : Type}

theorem Run.receive_flat (store : VerdictStore (StateT α (StateM τ))) (r : Run) :
    r.receive store.flat = flatten (r.receive store) := by
  unfold receive
  split
  · rfl
  · rfl
  next id result rest hchannel =>
    split
    · rfl
    next first second hknown =>
      cases result with
      | error f => rfl
      | ok v =>
          unfold receiveResult
          cases v <;> rfl

theorem Run.act_flat (store : VerdictStore (StateT α (StateM τ))) (r : Run) :
    r.act store.flat = flatten (r.act store) := by
  unfold act
  cases r.next with
  | cancel job => rfl
  | lookUp job => rfl
  | submit job => rfl
  | receive => exact receive_flat store r
  | conclude => rfl
  | rest => rfl

theorem Run.driveFor_flat (store : VerdictStore (StateT α (StateM τ)))
    (compare : Job → Except PairFault Verdict) (watch : ProgressCall → Bool) (acts : Nat) (r : Run) :
    driveFor store.flat compare watch acts r = flatten (driveFor store compare watch acts r) := by
  induction acts generalizing r with
  | zero => rfl
  | succ acts ih =>
      unfold driveFor
      split
      · rfl
      · split
        · exact ih _
        · rw [act_flat, flatten_bind]
          congr 1
          funext answer
          cases answer with
          | error f => rfl
          | ok r' => exact ih _

/-- **A batch does the same**, whether the state of its store is taken with that of the host or not. -/
theorem runGroups_flat (settings : Settings) (processors : Nat)
    (store : VerdictStore (StateT α (StateM τ))) (compare : Job → Except PairFault Verdict)
    (watch : ProgressCall → Bool) (groups : List Group) :
    runGroups settings processors store.flat compare watch groups =
      flatten (runGroups settings processors store compare watch groups) :=
  Run.driveFor_flat store compare watch _ _

end

/-! ### The store in a file -/

/-- What is computed is what the comparison gave. -/
theorem Job.verdict_of_expected {found : Option Verdict} {c : Comparison} {job : Job}
    {first second : Identity} {v : Verdict} (h : job.expected found c = .computed first second v) :
    c = .verdict v := by
  cases found with
  | some w => cases h
  | none =>
      cases c with
      | verdict w =>
          obtain ⟨-, -, rfl⟩ := Outcome.computed.inj h
          rfl
      | refused message => cases h
      | crashed message => cases h

namespace Run.Completed

variable {τ : Type} [Host (StateM τ)] {p : Path} {groups : List Group} {settings : Settings}
  {processors : Nat} {f f' : Work → Work → Comparison} {s₀ s₁ s₂ s₃ : FileStore}
  {t₀ t₁ t₂ t₃ : τ} {r₁ r₂ : Run}

/-- While nothing is to be saved, the file is read as the records of the store, after a run as before. -/
theorem sound_file (h : Completed groups settings processors (.fileOn τ) f (s₀, t₀) r₁ (s₁, t₁))
    (hhost : Host.Steady τ p) (hs : s₀.Sound p t₀)
    (hf : ∀ a b v, f a b = .verdict v → v.isFull = true → v.Storable) : s₁.Sound p t₁ := by
  have hplan := Plan.tidy_ofGroups groups settings.pairing
  refine kept_of_reaches (P := fun x => x.1.Sound p x.2) hplan VerdictStore.recalls_fileOn.toSeparate
    ?_ ?_ ?_ hs h.reaches h.uncancelled
  · intro x a b hx
    exact hx
  · intro x hx
    rcases hflush : (VerdictStore.fileOn τ).flush.run x with ⟨answer, y⟩
    exact hx.flush hhost (VerdictStore.run_flush_fileOn hflush)
  · intro job _ v hfull hexpected x hx
    have hv := hf job.first job.second v (Job.verdict_of_expected hexpected) hfull
    rcases hput : ((VerdictStore.fileOn τ).put job.first.identity job.second.identity v).run x with
      ⟨answer, y⟩
    exact hx.put hhost _ _ hv (VerdictStore.run_put_fileOn hput)

/-- After a run without trouble nothing is left to save. -/
theorem clean_file (h : Completed groups settings processors (.fileOn τ) f (s₀, t₀) r₁ (s₁, t₁))
    (hwarnings : r₁.warnings = []) : s₁.dirty = false := by
  refine saved_of_reaches (Q := fun x => x.1.dirty = false) ?_ h.reaches h.ended hwarnings
  intro x y hflush
  exact FileStore.dirty_of_flush (VerdictStore.run_flush_fileOn hflush)

/-- A second run with the store that was opened again changes neither the store nor its host. -/
theorem unchanged_file (h₁ : Completed groups settings processors (.fileOn τ) f (s₀, t₀) r₁ (s₁, t₁))
    (h₂ : Completed groups settings processors (.fileOn τ) f' (s₂, t₂) r₂ (s₃, t₃))
    (hf : ∀ a b, (f a b).undated = (f' a b).undated) (hrecords : s₂.records = s₁.records)
    (hclean : s₂.dirty = false) : s₃ = s₂ ∧ t₃ = t₂ := by
  have hsame : (s₃, t₃) = (s₂, t₂) := by
    refine h₁.kept_again (P := (· = (s₂, t₂))) h₂ VerdictStore.recalls_fileOn hf ?_ ?_ ?_ rfl
    · intro a b
      rw [VerdictStore.peek_fileOn, VerdictStore.peek_fileOn, hrecords]
    · rintro x a b rfl
      rfl
    · rintro x rfl
      rcases hflush : (VerdictStore.fileOn τ).flush.run (s₂, t₂) with ⟨answer, y⟩
      have hrun := VerdictStore.run_flush_fileOn hflush
      rw [FileStore.run_flush_clean hclean] at hrun
      cases hrun
      rfl
  exact Prod.mk.inj hsame

end Run.Completed

/-! ### Running again -/

/-- With sound settings there is a worker. -/
theorem effectiveCount_pos {settings : Settings} {processors : Nat} (h : settings.check = .ok ())
    (hprocessors : 0 < processors) : 0 < settings.workers.effectiveCount processors := by
  obtain ⟨_, -, h⟩ := Except.bind_eq_ok.mp h
  obtain ⟨_, hworkers, -⟩ := Except.bind_eq_ok.mp h
  unfold WorkerSettings.check at hworkers
  unfold WorkerSettings.effectiveCount
  cases hcount : settings.workers.count with
  | none => exact hprocessors
  | some n =>
      rw [hcount] at hworkers
      obtain ⟨_, hpositive, -⟩ := Except.bind_eq_ok.mp hworkers
      unfold Settings.checkPositive at hpositive
      split at hpositive
      · cases hpositive
      next hne => exact Nat.pos_of_ne_zero hne

/-- The comparator of a batch is a function of the works but for the date. -/
theorem undated_comparison (s : CompareSettings) (now now' : Moment) (a b : Work) :
    (comparison s now a b).undated = (comparison s now' a b).undated := by
  unfold comparison compareWorks
  cases quickCompare a b s.windowLength.toNat s.weights with
  | error o => rfl
  | ok quick =>
      simp only [Except.mapError, bind, Except.bind]
      split_ifs with hstays
      · rfl
      · cases ((a.inOrder b).1.outline.upTo s.maxDepth).check with
        | error m => rfl
        | ok _ =>
            cases ((a.inOrder b).2.outline.upTo s.maxDepth).check with
            | error m => rfl
            | ok _ => rfl

/-- **Running a batch again.** Take any groups, sound settings, and a comparator that is a function of
the works but for the date of full verdicts. A run is completed if it has ended, with whatever schedule,
and was not cancelled.

With a store in memory, whatever it held, a second run can be completed, every completed second run
repeats the first, and it leaves the records unchanged.

So it is with a store in a file, whatever the file held when it was opened and whatever was put there
since, if the first run had no trouble with saving, the full verdicts that it computed can be written,
and the host keeps the file as it was written. After the store was closed it can be opened again, with
the records it was closed with, and a second run changes neither the store nor anything on the host. -/
theorem rerun_repeats (groups : List Group) (settings : Settings) (processors : Nat)
    (f f' : Work → Work → Comparison) (hf : ∀ a b, (f a b).undated = (f' a b).undated)
    (hsettings : settings.check = .ok ()) (hprocessors : 0 < processors) :
    let pairs := (Plan.ofGroups groups settings.pairing).jobs.toList.map Job.paths
    (∀ rs₀ r₁ rs₁, Run.Completed groups settings processors .memory f rs₀ r₁ rs₁ →
      (∃ r₂ rs₂, Run.Completed groups settings processors .memory f' rs₁ r₂ rs₂) ∧
      ∀ r₂ rs₂, Run.Completed groups settings processors .memory f' rs₁ r₂ rs₂ →
        (∀ threshold, Report.Repeats pairs (r₁.report threshold) (r₂.report threshold)) ∧
        rs₂ = rs₁) ∧
    ∀ (τ : Type) [Host (StateM τ)] (p : Path) (s₀ : FileStore) (t₀ : τ), Host.Steady τ p →
      s₀.InUse p t₀ → (∀ a b v, f a b = .verdict v → v.isFull = true → v.Storable) →
      ∀ r₁ s₁ t₁, Run.Completed groups settings processors (.fileOn τ) f (s₀, t₀) r₁ (s₁, t₁) →
        r₁.warnings = [] → ∀ interval, ∃ s₂ t₂,
          (do s₁.close; FileStore.open? p interval : StateM τ _).run t₁ = (.ok s₂, t₂) ∧
          s₂.records = s₁.records ∧
          (∃ r₂ y, Run.Completed groups settings processors (.fileOn τ) f' (s₂, t₂) r₂ y) ∧
          ∀ r₂ s₃ t₃,
            Run.Completed groups settings processors (.fileOn τ) f' (s₂, t₂) r₂ (s₃, t₃) →
            (∀ threshold, Report.Repeats pairs (r₁.report threshold) (r₂.report threshold)) ∧
            s₃ = s₂ ∧ t₃ = t₂ := by
  intro pairs
  have hworkers := effectiveCount_pos hsettings hprocessors
  constructor
  · intro rs₀ r₁ rs₁ h₁
    refine ⟨?_, ?_⟩
    · obtain ⟨r₂, rs₂, -, h₂⟩ := Run.exists_completed groups settings .memory f' hworkers rs₁
      exact ⟨r₂, rs₂, h₂⟩
    · intro r₂ rs₂ h₂
      refine ⟨fun threshold => h₁.repeats h₂ VerdictStore.recalls_memory hf (fun _ _ => rfl) threshold, ?_⟩
      exact h₁.kept_again (P := (· = rs₁)) h₂ VerdictStore.recalls_memory hf (fun _ _ => rfl)
        (fun _ _ _ hs => hs) (fun _ hs => hs) rfl
  · intro τ _ p s₀ t₀ hhost huse hstorable r₁ s₁ t₁ h₁ hwarnings interval
    have hsound := h₁.sound_file hhost (huse.sound hhost) hstorable
    obtain ⟨s₂, t₂, hreopen, hrecords, hclean, -⟩ :=
      FileStore.exists_reopen hhost hsound (h₁.clean_file hwarnings) interval
    refine ⟨s₂, t₂, hreopen, hrecords, ?_, ?_⟩
    · obtain ⟨r₂, y, -, h₂⟩ :=
        Run.exists_completed groups settings (.fileOn τ) f' hworkers (s₂, t₂)
      exact ⟨r₂, y, h₂⟩
    · intro r₂ s₃ t₃ h₂
      have hpeek (a b : Identity) :
          (VerdictStore.fileOn τ).peek (s₂, t₂) a b = (VerdictStore.fileOn τ).peek (s₁, t₁) a b := by
        rw [VerdictStore.peek_fileOn, VerdictStore.peek_fileOn, hrecords]
      exact ⟨fun threshold => h₁.repeats h₂ VerdictStore.recalls_fileOn hf hpeek threshold,
        h₁.unchanged_file h₂ hf hrecords hclean⟩

/-- A full verdict of some date, on two works that are alike in all measures. -/
def alike (date : Moment) (a b : Work) : Verdict :=
  .full ⟨date, .ofWork a, .ofWork b, ⟨.one, .one, .one, .one, .one⟩, ⟨.one, ⟨[]⟩⟩⟩

/-- What a run comes to whose store is opened in an empty tree. -/
def runInTree (p : Path) (interval : Nat) (compare : Job → Except PairFault Verdict) (r : Run) :
    Option Run :=
  match (FileStore.open? p interval : StateM FileTree _).run .empty with
  | (.ok s, t) => (r.drive (.fileOn FileTree) compare fun _ => false).run (s, t) |>.1.toOption
  | _ => none

/-- The batch of two works, on some day, with a store in a file. -/
def CompletedAlike (date : Moment) (x : FileStore × FileTree) (r : Run) (y : FileStore × FileTree) :
    Prop :=
  Run.Completed [⟨"essays", [.blank ⟨"a"⟩, .blank ⟨"b"⟩]⟩] .default 8 (.fileOn FileTree)
    (fun a b => .verdict (alike date a b)) x r y

/-- Two works that are compared on two days. The store is opened in an empty tree, and is closed and
opened again between the two runs. -/
theorem rerun_repeats_alike : ∃ (s₀ s₁ s₂ : FileStore) (t₀ t₁ t₂ : FileTree) (r₁ r₂ : Run),
    (FileStore.open? ⟨"store.json"⟩ 60 : StateM FileTree _).run .empty = (.ok s₀, t₀) ∧
    CompletedAlike ⟨0, 0⟩ (s₀, t₀) r₁ (s₁, t₁) ∧
    (do s₁.close; FileStore.open? ⟨"store.json"⟩ 60 : StateM FileTree _).run t₁ = (.ok s₂, t₂) ∧
    CompletedAlike ⟨86400, 0⟩ (s₂, t₂) r₂ (s₂, t₂) ∧
    (r₁.report 65).outcomes = [.computed ⟨⟨"a"⟩, ""⟩ ⟨⟨"b"⟩, ""⟩
      (alike ⟨0, 0⟩ (.blank ⟨"a"⟩) (.blank ⟨"b"⟩))] ∧
    (r₂.report 65).outcomes = [.cached ⟨⟨"a"⟩, ""⟩ ⟨⟨"b"⟩, ""⟩
      (alike ⟨0, 0⟩ (.blank ⟨"a"⟩) (.blank ⟨"b"⟩))] := by
  have hplan := Plan.ofGroups_pair "essays" (show (Work.blank ⟨"a"⟩).path.before
    (Work.blank ⟨"b"⟩).path = true by decide +kernel)
  have hsettings : Settings.default.check = .ok () := by decide +kernel
  have hworkers : 0 < Settings.default.workers.effectiveCount 8 := by decide
  have hstorable (a b : Work) (v : Verdict)
      (h : Comparison.verdict (alike ⟨0, 0⟩ a b) = .verdict v) (_ : v.isFull = true) :
      v.Storable := by
    obtain rfl := Comparison.verdict.inj h
    have hone : Binary64.one.isFinite = true := by decide
    have hdate : Moment.Valid ⟨0, 0⟩ := ⟨by decide, .inl (by decide)⟩
    exact ⟨hdate, ⟨hone, hone, hone, hone, hone⟩, hone⟩
  -- The store is opened and the first run puts its verdict there, both without trouble.
  have heval : (runInTree ⟨"store.json"⟩ 60
      (judge fun job => .verdict (alike ⟨0, 0⟩ job.first job.second))
      (Run.start ⟨#[⟨0, .blank ⟨"a"⟩, .blank ⟨"b"⟩⟩], 0, 0⟩ 32)).any (fun r =>
        decide ((r.report 65).outcomes = [.computed ⟨⟨"a"⟩, ""⟩ ⟨⟨"b"⟩, ""⟩
            (alike ⟨0, 0⟩ (.blank ⟨"a"⟩) (.blank ⟨"b"⟩))] ∧ r.warnings = [])) = true := by
    decide +kernel
  rcases hopen : (FileStore.open? ⟨"store.json"⟩ 60 : StateM FileTree _).run .empty with ⟨answer, t₁⟩
  rw [runInTree, hopen] at heval
  cases answer with
  | error f => cases heval
  | ok s₀ =>
      obtain ⟨r₁, ⟨s₁, t₂⟩, hrun, h₁⟩ := Run.exists_completed
        [⟨"essays", [.blank ⟨"a"⟩, .blank ⟨"b"⟩]⟩] .default (.fileOn FileTree)
        (fun a b => .verdict (alike ⟨0, 0⟩ a b)) hworkers (s₀, t₁)
      rw [runGroups, Settings.default, hplan] at hrun
      have hlimit : WorkerSettings.default.inFlightLimit 8 = 32 := by decide
      dsimp only at hrun heval
      rw [hlimit] at hrun
      rw [hrun] at heval
      obtain ⟨hfirst, hwarnings⟩ := of_decide_eq_true heval
      obtain ⟨s₂, t₃, hreopen, -, ⟨r₂, ⟨s₃, t₄⟩, h₂⟩, hrepeats⟩ :=
        (rerun_repeats [⟨"essays", [.blank ⟨"a"⟩, .blank ⟨"b"⟩]⟩] .default 8
          (fun a b => .verdict (alike ⟨0, 0⟩ a b)) (fun a b => .verdict (alike ⟨86400, 0⟩ a b))
          (fun _ _ => rfl) hsettings (by decide)).2 FileTree ⟨"store.json"⟩ s₀ t₁
          (FileTree.steady _) (.opened hopen) hstorable r₁ s₁ t₂ h₁ hwarnings 60
      obtain ⟨hreport, rfl, rfl⟩ := hrepeats r₂ s₃ t₄ h₂
      refine ⟨s₀, s₁, s₃, t₁, t₂, t₄, r₁, r₂, rfl, h₁, hreopen, h₂, hfirst, ?_⟩
      rw [(hreport 65).hits, hfirst]
      rfl

end Likeness.Batch
