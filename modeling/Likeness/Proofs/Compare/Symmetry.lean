import Likeness.Proofs.Batch.Rerun
import Likeness.Proofs.Batch.Agreement
import Likeness.Proofs.Compare.Counts
import Likeness.Proofs.Sequence.Window

/-!
# Likeness.Proofs.Compare.Symmetry

Comparing two works in either order.

The quick measures are taken of the works as they are given, the outlines only once the works are in
the order of their paths. So the first part is the same in both orders because each measure is, also
where a sum of counts does not fit a word, and the second because works with different paths have
one order (`Work.inOrder_comm`).
-/

namespace Likeness

variable {a b : Work}

theorem quickCompare_comm (a b : Work) (windowLength : Nat) (weights : Weights) :
    quickCompare a b windowLength weights = quickCompare b a windowLength weights := by
  unfold quickCompare
  rw [Sequence.windowOverlap_comm, Counts.ratio_comm a.operators, Counts.ratio_comm a.keywords,
    Counts.ratio_comm a.literals]

/-- Works with different paths come into one order. -/
theorem Work.inOrder_comm (h : a.path.same b.path = false) :
    Work.inOrder a b = Work.inOrder b a := by
  unfold Work.inOrder Path.inOrder
  by_cases hba : b.path.before a.path = true
  · rw [if_pos hba, if_neg (by simp [Path.before_asymm hba])]
  · have hab := Path.before_of_not_same (by simp [h]) hba
    rw [if_neg hba, if_pos hab]

theorem compareOutlines_comm (h : a.path.same b.path = false) (maxDepth : Option UInt32)
    (quick : QuickLikeness) (now now' : Moment) :
    (compareOutlines a b maxDepth quick now).map Verdict.undated =
      (compareOutlines b a maxDepth quick now').map Verdict.undated := by
  unfold compareOutlines
  rw [Work.inOrder_comm h]
  obtain ⟨first, second⟩ := Work.inOrder b a
  dsimp only
  cases (first.outline.upTo maxDepth).check with
  | error m => rfl
  | ok _ => cases (second.outline.upTo maxDepth).check <;> rfl

/-- **The order of two works does not matter.** However two works with different paths are given, and
whatever the settings, the comparison ends alike: with the same quick measures, and if it goes as far
as the outlines with the same two summaries, in the same order, and the same likeness and matrix; with
the same misnesting; or with the same sum that does not fit a word. Only the date may differ. -/
theorem compareWorks_comm (a b : Work) (h : a.path.same b.path = false) (s : CompareSettings)
    (now now' : Moment) :
    (compareWorks a b s now).map Verdict.undated =
      (compareWorks b a s now').map Verdict.undated := by
  rw [compareWorks_eq, compareWorks_eq, quickCompare_comm a b]
  cases quickCompare b a s.windowLength.toNat s.weights with
  | error o => rfl
  | ok quick =>
      change (if s.stays quick then Except.ok (Verdict.quick quick) else _).map _ =
        (if s.stays quick then Except.ok (Verdict.quick quick) else _).map _
      split
      · rfl
      · exact compareOutlines_comm h s.maxDepth quick now now'

/-- Two works on two days, on the second day in the other order. -/
theorem compareWorks_comm_reversed :
    let a := { Work.blank ⟨"a.py"⟩ with outline := [⟨1, 0⟩, ⟨2, 1⟩], heads := ["solve"] }
    let b := { Work.blank ⟨"b.py"⟩ with outline := [⟨1, 0⟩], heads := ["main", "help"] }
    let s := { CompareSettings.default with ignoreThreshold := true }
    ∃ f, compareWorks a b s ⟨0, 0⟩ = .ok (.full f) ∧ f.first.heads = ["solve"] ∧
      (compareWorks b a s ⟨86400, 0⟩).map Verdict.undated = .ok (Verdict.full f).undated := by
  intro a b s
  have hfull : (compareWorks a b s ⟨0, 0⟩).toOption.any (fun v => match v with
      | .full f => f.first.heads = ["solve"]
      | .quick _ => false) = true := by decide +kernel
  have hpaths : b.path.same a.path = false := by decide +kernel
  cases hrun : compareWorks a b s ⟨0, 0⟩ with
  | error e =>
      rw [hrun] at hfull
      cases hfull
  | ok v =>
      rw [hrun] at hfull
      cases v with
      | quick q => cases hfull
      | full f =>
          refine ⟨f, rfl, of_decide_eq_true hfull, ?_⟩
          rw [compareWorks_comm b a hpaths s _ ⟨0, 0⟩, hrun]
          rfl

end Likeness
