import Likeness.Calendar
import Likeness.Compare.Quick
import Likeness.Outline.Matrix

/-!
# Likeness.Compare.Verdict

The comparison of two works. When the quick measures stay below the threshold they are all there is
to say. Otherwise the outlines are compared, with the works in the order of their paths.
-/

namespace Likeness

/-- What a verdict tells about a work. -/
structure Summary where
  identity : Identity
  modified : Option String
  heads : List String
deriving DecidableEq

/-- A comparison that went as far as the outlines. -/
structure FullVerdict where
  date : Moment
  first : Summary
  second : Summary
  quick : QuickLikeness
  outline : OutlineLikeness
deriving DecidableEq

/-- What the comparison of two works came to: the quick measures alone, or all measures. -/
inductive Verdict where
  | quick (q : QuickLikeness)
  | full (f : FullVerdict)
deriving DecidableEq

/-- Why two works could not be compared. -/
inductive CompareFault where
  | malformed (m : Misnesting)
  | overflow (o : Overflow)
deriving DecidableEq

namespace Summary

/-- The summary of a work leaves out what only the comparison needs. -/
def ofWork (w : Work) : Summary := ⟨w.identity, w.modified, w.heads⟩

end Summary

/-- Whether a percentage lies above a threshold. -/
def aboveThreshold (percent : Binary64) (threshold : UInt8) : Bool :=
  (Binary64.ofNat threshold.toNat).lt percent

namespace Verdict

/-- The quick measures, which every verdict has. -/
def quickLikeness : Verdict → QuickLikeness
  | .quick q => q
  | .full f => f.quick

/-- The likeness of the outlines, if they were compared. -/
def outline? : Verdict → Option OutlineLikeness
  | .quick _ => none
  | .full f => some f.outline

/-- Whether the comparison went as far as the outlines. -/
def isFull : Verdict → Bool
  | .quick _ => false
  | .full _ => true

/-- Whether the outlines are more alike than the threshold allows. -/
def exceeds (v : Verdict) (threshold : UInt8) : Bool :=
  match v.outline? with
  | none => false
  | some o => aboveThreshold o.percent threshold

end Verdict

/-- Compares two works; `now` is the date of the verdict. -/
def compareWorks (a b : Work) (s : CompareSettings) (now : Moment) :
    Except CompareFault Verdict := do
  let quick ← (quickCompare a b s.windowLength.toNat s.weights).mapError .overflow
  let stays := match s.gate with
    | none => false
    | some threshold => quick.percent.lt (.ofNat threshold.toNat)
  if stays then return .quick quick
  let (a, b) := Work.inOrder a b
  let aOutline := a.outline.upTo s.maxDepth
  let bOutline := b.outline.upTo s.maxDepth
  aOutline.check.mapError .malformed
  bOutline.check.mapError .malformed
  return .full {
    date := now
    first := .ofWork a
    second := .ofWork b
    quick := quick
    outline := .ofOutlines aOutline bOutline a.heads.length b.heads.length }

end Likeness
