import Likeness.Proofs.Batch.Status

/-!
# Likeness.Proofs.Batch.Views

The views of a report tell the same (`Report.views_agree`).

What a report counts, lists as failures, gives as found and marks in its status goes back to the same
outcomes, however these were gone through. That is what a report *agrees with itself* about
(`Report.Coherent`): it holds of a report made from outcomes, and adding diagnostics keeps it, since they
bring the mark of errors exactly when they leave a diagnostic behind.
-/

namespace Likeness.Batch

/-! ### Counting -/

/-- A job ends with a verdict from the store, with one of its own, or with a fault. -/
theorem Outcome.state_cases (o : Outcome) :
    o.state = .cacheHit ∨ o.state = .completed ∨ o.state = .failed := by
  cases o with
  | cached first second v => exact .inl rfl
  | computed first second v => exact .inr (.inl rfl)
  | failed f => exact .inr (.inr rfl)

namespace Report

variable {os : List Outcome} {r : Report}

/-- No outcome counts for a job that has not ended. -/
theorem countIn_of_not_terminal {s : JobState} (hs : s.isTerminal = false) (os : List Outcome) :
    countIn s os = 0 := by
  refine List.countP_eq_zero.mpr fun o _ hstate => ?_
  rw [← of_decide_eq_true hstate] at hs
  cases o <;> cases hs

/-- Every outcome counts once. -/
theorem countIn_add (os : List Outcome) :
    countIn .cacheHit os + countIn .completed os + countIn .failed os = os.length := by
  induction os with
  | nil => rfl
  | cons o os ih =>
      simp only [countIn, List.countP_cons, List.length_cons] at ih ⊢
      rcases o.state_cases with h | h | h <;> simp [h] <;> omega

/-- The failures are the faults of the outcomes that failed. -/
theorem map_failed_fault? (os : List Outcome) :
    (os.filterMap Outcome.fault?).map .failed = os.filter (·.state = .failed) := by
  induction os with
  | nil => rfl
  | cons o os ih =>
      cases o with
      | cached first second v => exact ih
      | computed first second v => exact ih
      | failed f => exact congrArg (.failed f :: ·) ih

/-! ### Views -/

/-- All views of a report go back to the same outcomes. -/
structure Coherent (r : Report) : Prop where
  cacheHits : r.cacheHits = countIn .cacheHit r.outcomes
  computed : r.computed = countIn .completed r.outcomes
  failures : r.failures.map .failed = r.outcomes.filter (·.state = .failed)
  status : r.status = .ofMarks (r.found ≠ []) (r.failures ≠ [] ∨ r.diagnostics ≠ [])

theorem coherent_ofOutcomes (os : List Outcome) (threshold : UInt8) :
    (ofOutcomes os threshold).Coherent := by
  have hstatus := status_ofOutcomes os threshold
  rw [ofOutcomes_eq] at hstatus ⊢
  refine ⟨rfl, rfl, map_failed_fault? os, hstatus.trans ?_⟩
  congr 1 <;> rw [Bool.eq_iff_iff, List.any_eq_true, decide_eq_true_iff]
  · simp [found, isFound]
  · simp [Outcome.status_eq_errorsOccurred]

/-- Diagnostics bring the mark of errors exactly when they leave one behind. -/
theorem Coherent.addDiagnostics (h : r.Coherent) (messages : List String) :
    (r.addDiagnostics messages).Coherent := by
  refine ⟨h.cacheHits, h.computed, h.failures, ?_⟩
  have hfound : (r.addDiagnostics messages).found = r.found := rfl
  rw [hfound]
  unfold Report.addDiagnostics
  by_cases hnone : messages = []
  · simp [hnone, h.status]
  · have herrors : Status.errorsOccurred = .ofMarks false true := rfl
    simp only [hnone, if_false]
    rw [h.status, herrors, Status.union_ofMarks]
    simp [hnone]

theorem Coherent.length_failures (h : r.Coherent) :
    r.failures.length = countIn .failed r.outcomes := by
  have hlength := congrArg List.length h.failures
  rwa [List.length_map, ← List.countP_eq_length_filter] at hlength

theorem Coherent.total (h : r.Coherent) :
    r.cacheHits + r.computed + r.failures.length = r.outcomes.length := by
  rw [h.cacheHits, h.computed, h.length_failures, countIn_add]

/-- States that no job ends in are not counted. -/
theorem Coherent.stateCounts_eq (h : r.Coherent) : r.stateCounts =
    [(.cacheHit, r.cacheHits), (.completed, r.computed), (.failed, r.failures.length)].filter
      fun (_, n) => n ≠ 0 := by
  rw [h.cacheHits, h.computed, h.length_failures, stateCounts]
  simp [JobState.all, List.filter_cons, countIn_of_not_terminal (s := .pending) rfl,
    countIn_of_not_terminal (s := .scheduled) rfl, countIn_of_not_terminal (s := .running) rfl]

/-! ### A report and what is added to it -/

/-- A report with diagnostics added call after call. -/
def addAll (r : Report) (calls : List (List String)) : Report :=
  calls.foldl (fun r messages => r.addDiagnostics messages) r

theorem Coherent.addAll (h : r.Coherent) (calls : List (List String)) : (r.addAll calls).Coherent := by
  induction calls generalizing r with
  | nil => exact h
  | cons messages calls ih => exact ih (h.addDiagnostics messages)

/-- Diagnostics are added and change nothing else but the status. -/
theorem addAll_eq (r : Report) (calls : List (List String)) : r.addAll calls =
    { r with diagnostics := r.diagnostics ++ calls.flatten, status := (r.addAll calls).status } := by
  induction calls generalizing r with
  | nil => simp [Report.addAll]
  | cons messages calls ih =>
      rw [Report.addAll, List.foldl_cons]
      have hrest := ih (r.addDiagnostics messages)
      rw [Report.addAll] at hrest
      rw [hrest]
      simp [addDiagnostics]

/-- **The views of a report agree**, whatever its outcomes, its threshold and the diagnostics that are
added to it. The three numbers add up to all outcomes, and the states are counted by the same numbers,
where they are not zero. The failures are those of the outcomes that failed. The status has the mark of
similarity exactly if something was found, and that is if some outcome has a full verdict above the
threshold; it has the mark of errors exactly if there are failures or diagnostics; and it has no other
bits, so the exit code is the sum of the two marks. -/
theorem views_agree (os : List Outcome) (threshold : UInt8) (calls : List (List String)) :
    let r := (ofOutcomes os threshold).addAll calls
    r.outcomes = os ∧ r.threshold = threshold ∧ r.diagnostics = calls.flatten ∧
      r.cacheHits + r.computed + r.failures.length = os.length ∧
      r.stateCounts = [(.cacheHit, r.cacheHits), (.completed, r.computed),
        (.failed, r.failures.length)].filter (fun (_, n) => n ≠ 0) ∧
      r.failures.map .failed = os.filter (·.state = .failed) ∧
      (r.status.contains .similarityFound = true ↔ r.found ≠ []) ∧
      (r.found ≠ [] ↔ ∃ o ∈ os, ∃ f, o.verdict? = some (.full f) ∧
        aboveThreshold f.outline.percent threshold = true) ∧
      (r.status.contains .errorsOccurred = true ↔ r.failures ≠ [] ∨ r.diagnostics ≠ []) ∧
      r.status.code = (if r.found ≠ [] then 4 else 0) +
        if r.failures ≠ [] ∨ r.diagnostics ≠ [] then 8 else 0 := by
  intro r
  have hcoherent : r.Coherent := (coherent_ofOutcomes os threshold).addAll calls
  have heq : r = { ofOutcomes os threshold with
    diagnostics := calls.flatten, status := r.status } := addAll_eq _ calls
  have houtcomes : r.outcomes = os := by rw [heq]; rfl
  have hthreshold : r.threshold = threshold := by rw [heq]; rfl
  have hfound : r.found ≠ [] ↔ ∃ o ∈ os, ∃ f, o.verdict? = some (.full f) ∧
      aboveThreshold f.outline.percent threshold = true := by
    rw [found, houtcomes, Ne, List.filter_eq_nil_iff]
    simp only [isFound, hthreshold, decide_eq_true_eq, Outcome.status_eq_similarityFound]
    push Not
    rfl
  refine ⟨houtcomes, hthreshold, by rw [heq], ?_, hcoherent.stateCounts_eq, ?_, ?_, hfound, ?_, ?_⟩
  · rw [hcoherent.total, houtcomes]
  · rw [hcoherent.failures, houtcomes]
  · rw [hcoherent.status, Status.contains_similarityFound, decide_eq_true_iff]
  · rw [hcoherent.status, Status.contains_errorsOccurred, decide_eq_true_iff]
  · rw [hcoherent.status, Status.code_ofMarks]
    simp only [decide_eq_true_eq]

end Report

end Likeness.Batch
