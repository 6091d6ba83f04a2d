import Likeness.Proofs.Batch.Drive
import Likeness.Proofs.Batch.Keeping
import Likeness.Proofs.Batch.Status

/-!
# Likeness.Proofs.Batch.Rerun

Running a batch again.

A store that recalls what was put into it has, after a run that was not cancelled, every verdict that
the run took from it and every full verdict that the run computed. So a second run of the same batch
finds these and computes the others anew, and if the comparator is a function of the works, but for
the date of full verdicts, it ends with the same verdicts and the same failures
(`Run.Completed.repeats`). It then has nothing to put (`Run.Completed.kept_again`).
-/

namespace Likeness

/-- The verdict but for its date. -/
def Verdict.undated : Verdict → Verdict
  | .quick q => .quick q
  | .full f => .full { f with date := ⟨0, 0⟩ }

namespace Batch

/-- The comparison but for the date of a full verdict. -/
def Comparison.undated : Comparison → Comparison
  | .verdict v => .verdict v.undated
  | c => c

/-- What becomes of the outcome of a job when the batch is run again: a full verdict that was computed
is found in the store. -/
def Outcome.again : Outcome → Outcome
  | .computed first second v =>
    if v.isFull then .cached first second v else .computed first second v
  | o => o

namespace Outcome

theorem verdict?_again (o : Outcome) : o.again.verdict? = o.verdict? := by
  cases o with
  | cached first second v => rfl
  | computed first second v => cases v <;> rfl
  | failed fault => rfl

theorem fault?_again (o : Outcome) : o.again.fault? = o.fault? := by
  cases o with
  | cached first second v => rfl
  | computed first second v => cases v <;> rfl
  | failed fault => rfl

theorem paths_again (o : Outcome) : o.again.paths = o.paths := by
  cases o with
  | cached first second v => rfl
  | computed first second v => cases v <;> rfl
  | failed fault => rfl

theorem status_again (threshold : UInt8) (o : Outcome) :
    o.again.status threshold = o.status threshold := by
  rw [status, status, verdict?_again]

/-- A full verdict is not computed again. -/
theorem again_ne_computed {o : Outcome} {first second : Identity} {v : Verdict}
    (hfull : v.isFull = true) : o.again ≠ .computed first second v := by
  intro heq
  cases o with
  | cached a b w => cases heq
  | computed a b w =>
      cases w with
      | quick q =>
          obtain ⟨-, -, rfl⟩ := Outcome.computed.inj heq
          cases hfull
      | full f => cases heq
  | failed fault => cases heq

end Outcome

/-- Comparisons that differ by a date give, after one of them, the outcomes that the other has when the
batch is run again. -/
theorem Job.expected_again {c c' : Comparison} (h : c.undated = c'.undated) (found : Option Verdict)
    (job : Job) : job.expected (job.expected found c).left? c' = (job.expected found c).again := by
  cases found with
  | some v => rfl
  | none =>
      cases c with
      | verdict v =>
          cases v with
          | quick q =>
              cases c' with
              | verdict w =>
                  cases w with
                  | quick q' =>
                      obtain rfl := Verdict.quick.inj (Comparison.verdict.inj h)
                      rfl
                  | full f => cases Comparison.verdict.inj h
              | refused message => cases h
              | crashed message => cases h
          | full f => rfl
      | refused message =>
          cases c' with
          | verdict w => cases h
          | refused message' =>
              obtain rfl := Comparison.refused.inj h
              rfl
          | crashed message' => cases h
      | crashed message =>
          cases c' with
          | verdict w => cases h
          | refused message' => cases h
          | crashed message' =>
              obtain rfl := Comparison.crashed.inj h
              rfl

/-! ### Reports -/

/-- The second of two reports on the same pairs says the same as the first, and whatever the first
found in the store or has put there was found by the second. -/
structure Report.Repeats (pairs : List (Path × Path)) (first second : Report) : Prop where
  planned : first.outcomes.map Outcome.paths = pairs ∧ second.outcomes.map Outcome.paths = pairs
  verdicts : second.outcomes.map Outcome.verdict? = first.outcomes.map Outcome.verdict?
  failures : second.failures = first.failures
  hits : second.outcomes = first.outcomes.map Outcome.again
  status : second.status = first.status

theorem Report.repeats_again {pairs : List (Path × Path)} {outcomes : List Outcome}
    (hpairs : outcomes.map Outcome.paths = pairs) (threshold : UInt8) (warnings warnings' : List String) :
    Repeats pairs { ofOutcomes outcomes threshold with storeWarnings := warnings }
      { ofOutcomes (outcomes.map Outcome.again) threshold with storeWarnings := warnings' } := by
  refine ⟨⟨hpairs, ?_⟩, ?_, ?_, rfl, ?_⟩
  · simpa [ofOutcomes, Outcome.paths_again, Function.comp_def] using hpairs
  · simp [ofOutcomes, Outcome.verdict?_again]
  · simp [ofOutcomes_eq, List.filterMap_map, Outcome.fault?_again]
  · simp [ofOutcomes_eq, List.foldl_map, Outcome.status_again]

namespace Run

variable {σ : Type} {store : VerdictStore (StateM σ)} {groups : List Group} {settings : Settings}
  {processors : Nat} {f f' : Work → Work → Comparison} {s₀ s₁ s₁' s₂ : σ} {r₁ r₂ : Run}

/-- A run of a batch, with some schedule, that has ended and was not cancelled. -/
structure Completed (groups : List Group) (settings : Settings) (processors : Nat)
    (store : VerdictStore (StateM σ)) (f : Work → Work → Comparison) (s₀ : σ) (r : Run) (s : σ) :
    Prop where
  reaches : Reaches (settings.workers.effectiveCount processors) store
    (judge fun job => f job.first job.second)
    (start (Plan.ofGroups groups settings.pairing) (settings.workers.inFlightLimit processors), s₀)
    (r, s)
  ended : r.ended = true
  uncancelled : r.cancelled = false

/-- The outcomes of a second run are those of the first, but for what is found in the store. -/
theorem Completed.expected_again (h : Completed groups settings processors store f s₀ r₁ s₁)
    (hstore : store.Recalls) (hf : ∀ a b, (f a b).undated = (f' a b).undated)
    (hpeek : ∀ a b, store.peek s₁' a b = store.peek s₁ a b) {job : Job}
    (hjob : job ∈ (Plan.ofGroups groups settings.pairing).jobs) :
    expected store s₁' f' job = (expected store s₀ f job).again := by
  have hplan := Plan.tidy_ofGroups groups settings.pairing
  have hfound := found_of_reaches hplan hstore h.reaches h.ended h.uncancelled hjob
  rw [expected, found, hpeek, ← found, hfound]
  exact Job.expected_again (hf job.first job.second) _ job

theorem Completed.report_eq (h : Completed groups settings processors store f s₀ r₁ s₁)
    (hstore : store.Separate) (threshold : UInt8) : r₁.report threshold =
      { Report.ofOutcomes ((Plan.ofGroups groups settings.pairing).jobs.toList.map
          (expected store s₀ f)) threshold with storeWarnings := r₁.warnings } := by
  have hplan := Plan.tidy_ofGroups groups settings.pairing
  exact outcomes_report (outcomes_of_reaches hplan hstore h.reaches h.ended h.uncancelled) threshold

theorem paths_expected (store : VerdictStore (StateM σ)) (s : σ) (f : Work → Work → Comparison)
    (job : Job) : (expected store s f job).paths = job.paths := by
  rw [expected]
  cases found store s job with
  | some v => rfl
  | none => cases f job.first job.second <;> rfl

/-- **A second run repeats the first.** It may start from another state of the store, if the store has
the same verdicts there. -/
theorem Completed.repeats (h₁ : Completed groups settings processors store f s₀ r₁ s₁)
    (h₂ : Completed groups settings processors store f' s₁' r₂ s₂) (hstore : store.Recalls)
    (hf : ∀ a b, (f a b).undated = (f' a b).undated)
    (hpeek : ∀ a b, store.peek s₁' a b = store.peek s₁ a b) (threshold : UInt8) :
    Report.Repeats ((Plan.ofGroups groups settings.pairing).jobs.toList.map Job.paths)
      (r₁.report threshold) (r₂.report threshold) := by
  have hsecond : (Plan.ofGroups groups settings.pairing).jobs.toList.map (expected store s₁' f') =
      ((Plan.ofGroups groups settings.pairing).jobs.toList.map (expected store s₀ f)).map
        Outcome.again := by
    rw [List.map_map]
    exact List.map_congr_left fun job hjob =>
      h₁.expected_again hstore hf hpeek (Array.mem_toList_iff.mp hjob)
  rw [h₁.report_eq hstore.toSeparate, h₂.report_eq hstore.toSeparate, hsecond]
  refine Report.repeats_again ?_ threshold _ _
  rw [List.map_map]
  exact List.map_congr_left fun job _ => paths_expected store s₀ f job

/-- **A second run puts nothing.** What getting and saving keep of the store, it keeps. -/
theorem Completed.kept_again (h₁ : Completed groups settings processors store f s₀ r₁ s₁)
    (h₂ : Completed groups settings processors store f' s₁' r₂ s₂) (hstore : store.Recalls)
    (hf : ∀ a b, (f a b).undated = (f' a b).undated)
    (hpeek : ∀ a b, store.peek s₁' a b = store.peek s₁ a b) {P : σ → Prop}
    (hget : ∀ s a b, P s → P ((store.get a b).run s).2)
    (hflush : ∀ s, P s → P (store.flush.run s).2) (hs : P s₁') : P s₂ := by
  have hplan := Plan.tidy_ofGroups groups settings.pairing
  refine kept_of_reaches hplan hstore.toSeparate hget hflush ?_ hs h₂.reaches h₂.uncancelled
  intro job hjob v hfull hexpected
  rw [h₁.expected_again hstore hf hpeek hjob] at hexpected
  exact absurd hexpected (Outcome.again_ne_computed hfull)

/-! ### Runs that are driven -/

/-- Without an observer that raises the flag, driving a run does not cancel it. -/
theorem cancelled_driveFor {compare : Job → Except PairFault Verdict} {acts : Nat} {r r' : Run}
    {s s' : σ} (h : (driveFor store compare (fun _ => false) acts r).run s = (.ok r', s')) :
    r'.cancelled = r.cancelled := by
  induction acts generalizing r s with
  | zero =>
      cases h
      rfl
  | succ acts ih =>
      unfold driveFor at h
      split at h
      · cases h
        rfl
      next hrunning =>
        split at h
        next t rest hwaiting hpool =>
          rw [ih h]
          unfold speak
          split <;> rfl
        next =>
          rw [StateT.run_bind] at h
          rcases hact : (r.act store).run s with ⟨answer, s₁⟩
          rw [hact] at h
          cases answer with
          | error fault => cases h
          | ok r₁ =>
              have hacted := acted_of_run (Bool.eq_false_of_not_eq_true hrunning) hact
              have hheed : r₁.heed (fun _ => false) = r₁ := by
                simp [heed]
              rw [← hacted.cancelled, ih h, hheed]

/-- **Batches can be completed** from any state of the store. -/
theorem exists_completed (groups : List Group) (settings : Settings) {processors : Nat}
    (store : VerdictStore (StateM σ)) (f : Work → Work → Comparison)
    (hworkers : 0 < settings.workers.effectiveCount processors) (s : σ) :
    ∃ r s', (runGroups settings processors store (judge fun job => f job.first job.second)
        (fun _ => false) groups).run s = (.ok r, s') ∧
      Completed groups settings processors store f s r s' := by
  obtain ⟨r, s', hrun, hended, hreaches⟩ := runGroups_reaches settings processors store
    (fun job => f job.first job.second) (fun _ => false) groups hworkers s
  refine ⟨r, s', hrun, hreaches, hended, ?_⟩
  rw [cancelled_driveFor hrun]
  rfl

end Run

end Batch

end Likeness
