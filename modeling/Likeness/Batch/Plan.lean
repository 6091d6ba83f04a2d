import Likeness.Settings.Basic
import Likeness.Work.Basic
import Std.Data.HashSet

/-!
# Likeness.Batch.Plan

Which pairs of works a batch compares.

The candidates are gone through in order. A pair is planned once, at its first candidate, with the
work of the smaller path first; candidates whose works have the same path are left out.
-/

namespace Likeness.Batch

/-- A named set of works. -/
structure Group where
  name : String
  works : List Work

/-- A pair to compare. -/
structure Job where
  /-- Position in the plan. -/
  id : Nat
  first : Work
  second : Work

/-- The pairs that a batch compares, and how many candidates were left out of it. -/
structure Plan where
  jobs : Array Job
  /-- Candidates left out because both works have the same path. -/
  skippedSelf : Nat
  /-- Candidates left out because the pair was planned before. -/
  skippedDuplicate : Nat

namespace Plan

/-- The plan before any candidate. -/
def empty : Plan := ⟨#[], 0, 0⟩

/-- A plan in the making, with the keys of its pairs. -/
structure Draft where
  plan : Plan
  seen : Std.HashSet Path.PairKey

namespace Draft

/-- The draft before any candidate. -/
def empty : Draft := ⟨.empty, ∅⟩

/-- Plans a pair whose works are in order. -/
def addPair (d : Draft) (first second : Work) : Draft :=
  { plan := { d.plan with jobs := d.plan.jobs.push ⟨d.plan.jobs.size, first, second⟩ }
    seen := d.seen.insert (Path.pairKey first.path second.path) }

/-- Looks at a candidate. -/
def consider (d : Draft) (a b : Work) : Draft :=
  let (first, second) := Work.inOrder a b
  if first.path.same second.path then
    { d with plan := { d.plan with skippedSelf := d.plan.skippedSelf + 1 } }
  else if d.seen.contains (Path.pairKey first.path second.path) then
    { d with plan := { d.plan with skippedDuplicate := d.plan.skippedDuplicate + 1 } }
  else d.addPair first second

end Draft

/-- Every element with every later one. -/
def laterPairs : List α → List (α × α)
  | [] => []
  | a :: rest => rest.map (a, ·) ++ laterPairs rest

/-- Every element of one list with every element of another. -/
def crossPairs (as bs : List α) : List (α × α) := as.flatMap fun a => bs.map (a, ·)

/-- The candidates of a batch, in the order in which they are looked at. -/
def candidates (groups : List Group) : Pairing → List (Work × Work)
  | .manyToMany => laterPairs (groups.flatMap Group.works)
  | .oneToOne => (laterPairs (groups.map Group.works)).flatMap fun (as, bs) => crossPairs as bs

/-- The plan of a batch: its candidates are looked at one after the other. -/
def ofGroups (groups : List Group) (pairing : Pairing) : Plan :=
  ((candidates groups pairing).foldl (fun d (a, b) => d.consider a b) Draft.empty).plan

end Plan

end Likeness.Batch
