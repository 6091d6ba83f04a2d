import Likeness.Sequence.Window
import Likeness.Settings.Basic
import Likeness.Work.Basic

/-!
# Likeness.Compare.Quick

Quick measures of likeness: how many token windows two works share, and how far their counts of
operators, keywords and literals agree. Their weighted mean decides whether the outlines are worth
comparing.
-/

namespace Likeness

/-- The quick measures, each between zero and one, and their mean. -/
structure QuickLikeness where
  tokens : Binary64
  operators : Binary64
  keywords : Binary64
  literals : Binary64
  average : Binary64
deriving DecidableEq

namespace QuickLikeness

/-- The four measures without their mean, in the order of the weights. -/
def toList (q : QuickLikeness) : List Binary64 := [q.tokens, q.operators, q.keywords, q.literals]

/-- The mean in percent, which the threshold is held against. -/
def percent (q : QuickLikeness) : Binary64 := q.average.percent

end QuickLikeness

namespace Counts

/-- Adds up the smaller and the larger of the two counts of every label. -/
def overlap (a b : Counts) : Except Overflow (Nat × Nat) := do
  let (shared, all) ← a.entries.foldlM
    (fun (shared, all) (label, n) =>
      match b.find? label with
      | some m => do
        return (← checkedAdd shared (min n.toNat m.toNat),
          ← checkedAdd all (max n.toNat m.toNat))
      | none => do return (shared, ← checkedAdd all n.toNat))
    (0, 0)
  let rest ← checkedSum
    ((b.entries.filter fun (label, _) => (a.find? label).isNone).map fun (_, m) => m.toNat)
  return (shared, ← checkedAdd all rest)

/-- The shared part of two counts; one if nothing was counted at all, zero if all counts are. -/
def ratio (a b : Counts) : Except Overflow Binary64 := do
  if a.entries = [] ∧ b.entries = [] then return .one
  let (shared, all) ← overlap a b
  if all = 0 then return .zero
  return .ofNat shared / .ofNat all

end Counts

/-- The mean of values under weights; zero unless the weights have a positive sum. -/
def weightedMean (values weights : List Binary64) : Binary64 :=
  let total := Weights.sum weights
  if total.le .zero then .zero
  else Weights.sum (List.zipWith (· * ·) values weights) / total

/-- The quick measures of two works. -/
def quickCompare (a b : Work) (windowLength : Nat) (weights : Weights) :
    Except Overflow QuickLikeness := do
  let tokens := Sequence.windowOverlap windowLength a.tokens b.tokens
  let operators ← a.operators.ratio b.operators
  let keywords ← a.keywords.ratio b.keywords
  let literals ← a.literals.ratio b.literals
  let average := weightedMean [tokens, operators, keywords, literals] weights.toList
  return ⟨tokens, operators, keywords, literals, average⟩

end Likeness
