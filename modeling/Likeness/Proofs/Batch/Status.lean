import Mathlib.Data.List.Basic
import Likeness.Batch.Outcome

/-!
# Likeness.Proofs.Batch.Status

What the outcomes of a batch add up to, and what its status tells of them.

The outcomes are gone through once, and the four totals come out as if each had been taken by itself
(`Report.ofOutcomes_eq`). A status is made of two marks, one of similarity and one of errors, and no
other bit is ever set (`Report.status_ofOutcomes`). Each mark is there exactly if some outcome has it
(`Report.contains_iff`).
-/

namespace Likeness.Batch

/-! ### Totals -/

/-- One outcome counts for the state that it ended in, and for no other. -/
theorem Totals.add_eq (threshold : UInt8) (t : Totals) (o : Outcome) : t.add threshold o =
    { cacheHits := t.cacheHits + Report.countIn .cacheHit [o]
      computed := t.computed + Report.countIn .completed [o]
      failures := t.failures ++ o.fault?.toList
      status := t.status.union (o.status threshold) } := by
  cases o with
  | cached first second v => simp [add, Report.countIn, Outcome.state, Outcome.fault?]
  | computed first second v => simp [add, Report.countIn, Outcome.state, Outcome.fault?]
  | failed f => simp [add, Report.countIn, Outcome.state, Outcome.fault?]

/-- All outcomes count for the states that they ended in. -/
theorem Totals.foldl_add (threshold : UInt8) (t : Totals) (os : List Outcome) :
    os.foldl (add threshold) t =
      { cacheHits := t.cacheHits + Report.countIn .cacheHit os
        computed := t.computed + Report.countIn .completed os
        failures := t.failures ++ os.filterMap Outcome.fault?
        status := os.foldl (fun s o => s.union (o.status threshold)) t.status } := by
  induction os generalizing t with
  | nil => simp [Report.countIn]
  | cons o os ih =>
      have hcount (s : JobState) : Report.countIn s (o :: os) =
          Report.countIn s [o] + Report.countIn s os := by
        rw [Report.countIn, ← List.singleton_append, List.countP_append]
        rfl
      have hfault : (o :: os).filterMap Outcome.fault? =
          o.fault?.toList ++ os.filterMap Outcome.fault? := by
        cases h : o.fault? <;> simp [h]
      rw [List.foldl_cons, ih, add_eq, hcount, hcount, hfault, List.foldl_cons, Nat.add_assoc,
        Nat.add_assoc, List.append_assoc]

/-- A report counts the outcomes by their states, lists their faults and adds up what they add to the
status. -/
theorem Report.ofOutcomes_eq (os : List Outcome) (threshold : UInt8) : ofOutcomes os threshold =
    { outcomes := os
      threshold := threshold
      cacheHits := countIn .cacheHit os
      computed := countIn .completed os
      failures := os.filterMap Outcome.fault?
      storeWarnings := []
      diagnostics := []
      elapsed := ⟨0, 0⟩
      status := os.foldl (fun s o => s.union (o.status threshold)) .clean } := by
  simp only [ofOutcomes, Totals.foldl_add, Totals.none, Nat.zero_add, List.nil_append]

theorem Report.failures_ofOutcomes (os : List Outcome) (threshold : UInt8) :
    (ofOutcomes os threshold).failures = os.filterMap Outcome.fault? := by
  rw [ofOutcomes_eq]

/-! ### Marks -/

namespace Status

/-- The status with some of the two marks. -/
def ofMarks (similar errors : Bool) : Status :=
  union (if similar then similarityFound else clean) (if errors then errorsOccurred else clean)

theorem union_ofMarks (similar errors similar' errors' : Bool) :
    (ofMarks similar errors).union (ofMarks similar' errors') =
      ofMarks (similar || similar') (errors || errors') := by
  revert similar errors similar' errors'
  decide

theorem contains_similarityFound (similar errors : Bool) :
    (ofMarks similar errors).contains similarityFound = similar := by
  revert similar errors
  decide

theorem contains_errorsOccurred (similar errors : Bool) :
    (ofMarks similar errors).contains errorsOccurred = errors := by
  revert similar errors
  decide

theorem code_ofMarks (similar errors : Bool) :
    (ofMarks similar errors).code = (if similar then 4 else 0) + if errors then 8 else 0 := by
  revert similar errors
  decide

end Status

/-! ### Outcomes -/

theorem Outcome.status_cases (threshold : UInt8) (o : Outcome) : o.status threshold = .clean ∨
    o.status threshold = .similarityFound ∨ o.status threshold = .errorsOccurred := by
  unfold status
  split
  · exact .inr (.inr rfl)
  · split
    · exact .inr (.inl rfl)
    · exact .inl rfl

/-- An outcome has one mark or none. -/
theorem Outcome.status_eq_ofMarks (threshold : UInt8) (o : Outcome) :
    o.status threshold = .ofMarks (o.status threshold = .similarityFound)
      (o.status threshold = .errorsOccurred) := by
  rcases o.status_cases threshold with h | h | h <;> simp only [h] <;> decide

theorem Outcome.status_eq_similarityFound {threshold : UInt8} {o : Outcome} :
    o.status threshold = .similarityFound ↔ ∃ f, o.verdict? = some (.full f) ∧
      (Verdict.full f).exceeds threshold = true := by
  unfold status
  constructor
  · intro h
    split at h
    · cases h
    · rename_i v hv
      split at h
      · rename_i hexceeds
        cases v with
        | quick q => cases hexceeds
        | full f => exact ⟨f, hv, hexceeds⟩
      · cases h
  · rintro ⟨f, hv, hexceeds⟩
    rw [hv]
    exact if_pos hexceeds

theorem Outcome.status_eq_errorsOccurred {threshold : UInt8} {o : Outcome} :
    o.status threshold = .errorsOccurred ↔ o.fault? ≠ none := by
  cases o with
  | failed f => exact iff_of_true rfl nofun
  | _ =>
      refine iff_of_false (fun h => ?_) fun h => h rfl
      simp only [status, verdict?] at h
      split at h <;> cases h

/-- **A status is made of the marks of its outcomes.** -/
theorem Report.status_ofOutcomes (os : List Outcome) (threshold : UInt8) :
    (ofOutcomes os threshold).status = .ofMarks (os.any (·.status threshold = .similarityFound))
      (os.any (·.status threshold = .errorsOccurred)) := by
  -- The induction is on the outcomes that are still to come, with the marks of those before.
  have hfold (similar errors : Bool) :
      os.foldl (fun (s : Status) o => s.union (o.status threshold)) (.ofMarks similar errors) =
        .ofMarks (similar || os.any (·.status threshold = .similarityFound))
          (errors || os.any (·.status threshold = .errorsOccurred)) := by
    induction os generalizing similar errors with
    | nil => simp
    | cons o os ih =>
        rw [List.foldl_cons, o.status_eq_ofMarks threshold, Status.union_ofMarks, ih, List.any_cons,
          List.any_cons, Bool.or_assoc, Bool.or_assoc]
  rw [ofOutcomes_eq]
  exact hfold false false

/-- **The status has a mark exactly if some outcome has it.** -/
theorem Report.contains_iff {mark : Status} (hmark : mark = .similarityFound ∨ mark = .errorsOccurred)
    (os : List Outcome) (threshold : UInt8) :
    (ofOutcomes os threshold).status.contains mark = true ↔
      ∃ o ∈ os, o.status threshold = mark := by
  rw [status_ofOutcomes]
  rcases hmark with rfl | rfl
  · simp [Status.contains_similarityFound]
  · simp [Status.contains_errorsOccurred]

end Likeness.Batch
