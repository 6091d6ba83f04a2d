import Likeness.Proofs.Batch.Agreement
import Likeness.Proofs.Outline.Levels
import Likeness.Proofs.Work.Record

/-!
# Likeness.Proofs.Compare.Levels

Works that were built or read can be compared down to any depth. Their outlines have passed the check,
and an outline that is well nested stays so when it is cut off (`Outline.WellNested.upTo`). So the
check that a comparison makes again of what is left never fails (`compareWorks_ne_malformed`).
-/

namespace Likeness

/-- A work that was built step by step and finished, or read from a record. -/
inductive Work.Made : Work → Prop
  | built {path : Path} {ss : List Step} {w w' : Work} (hsteps : (blank path).steps ss = .ok w)
    (hfinish : w.finish = .ok w') : Made w'
  | read {path : Path} {text : String} {w : Work} (h : ofRecord path text = .ok w) : Made w

theorem Work.Made.wellNested {w : Work} (h : w.Made) : w.outline.WellNested := by
  cases h with
  | built hsteps hfinish =>
      obtain ⟨hnested, rfl⟩ := finish_eq_ok.mp hfinish
      exact hnested
  | read h =>
      obtain ⟨⟨⟩, hcheck, -⟩ := Except.bind_eq_ok.mp (check_of_ofRecord h)
      exact Except.mapError_eq_ok.mp hcheck

variable {a b : Work}

/-- Outlines that are well nested can be compared down to any depth. -/
theorem exists_compareOutlines (ha : a.outline.WellNested) (hb : b.outline.WellNested)
    (maxDepth : Option UInt32) (quick : QuickLikeness) (now : Moment) :
    ∃ v, compareOutlines a b maxDepth quick now = .ok v := by
  have hcut {w : Work} (hw : w.outline.WellNested) :
      (w.outline.upTo maxDepth).check.mapError CompareFault.malformed = .ok () := by
    rw [hw.upTo maxDepth]
    rfl
  obtain ⟨hfirst, hsecond⟩ : (Work.inOrder a b).1.outline.WellNested ∧
      (Work.inOrder a b).2.outline.WellNested := by
    unfold Work.inOrder Path.inOrder
    split
    · exact ⟨hb, ha⟩
    · exact ⟨ha, hb⟩
  unfold compareOutlines
  simp only [hcut hfirst, hcut hsecond]
  exact ⟨_, rfl⟩

theorem compareWorks_ne_malformed (ha : a.outline.WellNested) (hb : b.outline.WellNested)
    (s : CompareSettings) (now : Moment) (m : Misnesting) :
    compareWorks a b s now ≠ .error (.malformed m) := by
  rw [compareWorks_eq]
  cases hquick : quickCompare a b s.windowLength.toNat s.weights with
  | error o => nofun
  | ok quick =>
      obtain ⟨v, hv⟩ := exists_compareOutlines ha hb s.maxDepth quick now
      change (if s.stays quick then Except.ok (Verdict.quick quick) else _) ≠ _
      split
      · nofun
      · rw [hv]
        nofun

/-- **A work can be cut off at any depth.** Its outline is the preorder of a forest, and what is left
is the preorder of that forest cut off at that depth. If the limit is not above the roots, all children
stay, in order, each cut off by itself; and of two limits the tighter one counts. So no two works fail
to be compared for an outline that is not well nested, whatever the settings. -/
theorem Work.outline_upTo_of_made {a : Work} (ha : a.Made) :
    (∀ limit, (a.outline.upTo limit).WellNested) ∧
      (∃ depth F, a.outline.IsPreorder depth F ∧ ∀ limit,
        (a.outline.upTo limit).IsPreorder depth (F.upTo limit depth)) ∧
      (∀ limit, a.outline.Reaches limit →
        (a.outline.upTo limit).roots = a.outline.roots ∧
          (a.outline.upTo limit).bodies = a.outline.bodies.map (Outline.upTo limit)) ∧
      (∀ m n, (a.outline.upTo n).upTo m = a.outline.upTo (m.merge min n)) ∧
      ∀ b : Work, b.Made → ∀ (s : CompareSettings) (now : Moment) (m : Misnesting),
        compareWorks a b s now ≠ .error (.malformed m) := by
  have hnested := ha.wellNested
  obtain ⟨depth, F, hF⟩ := Outline.wellNested_iff_exists_isPreorder.mp hnested
  refine ⟨hnested.upTo, ⟨depth, F, hF, hF.upTo⟩, fun limit hlimit => ?_, a.outline.upTo_upTo, ?_⟩
  · exact ⟨Outline.roots_upTo hlimit, Outline.bodies_upTo hnested hlimit⟩
  · exact fun b hb => compareWorks_ne_malformed hnested hb.wellNested

/-- Steps that build two children, one of them with two levels below it. -/
def Work.nestedSteps : List Work.Step :=
  [.node 1 "class", .node 2 "def", .node 3 "if", .node 2 "def", .node 1 "def"]

/-- The work they build, cut off at its second level, and a work that was read. -/
theorem Work.outline_upTo_of_made_nested : ∃ a b : Work, a.Made ∧ b.Made ∧
    a.outline.upTo (some 2) = [⟨1, 0⟩, ⟨2, 1⟩, ⟨2, 1⟩, ⟨1, 1⟩] ∧
      (a.outline.upTo (some 2)).roots = [⟨1, 0⟩, ⟨1, 1⟩] ∧
      ∀ (s : CompareSettings) (now : Moment) (m : Misnesting),
        compareWorks a b s now ≠ .error (.malformed m) := by
  have hsteps : (blank ⟨"a.py"⟩).steps nestedSteps = .ok _ := rfl
  have hread : ofRecord ⟨"b.json"⟩ (blank ⟨"b.py"⟩).recordText = .ok (blank ⟨"b.py"⟩) := by
    rw [ofRecord_recordText]
    rfl
  obtain ⟨-, -, hchildren, -, hcompare⟩ := outline_upTo_of_made (.built hsteps rfl)
  refine ⟨_, _, .built hsteps rfl, .read hread, rfl, ?_, hcompare _ (.read hread)⟩
  exact (hchildren (some 2) (by rintro e ⟨⟩ d ⟨⟩; decide)).1

end Likeness
