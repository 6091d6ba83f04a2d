import Likeness.Command.Check

/-!
# Likeness.Command.Compare

The comparison of two works, with a close look at their tokens. No store has a part in it.
-/

namespace Likeness.Command

/-- What a comparison found: the verdict, with the works in the order of their paths, and the token
report, with the works in the order in which they were given. -/
structure PairReport where
  verdict : Verdict
  tokens : TokenReport

namespace PairReport

/-- The record of a comparison. -/
def toJson (r : PairReport) : Json :=
  .object [("result", r.verdict.toJson), ("tokens", r.tokens.toJson)]

/-- The comparison as it is shown on a terminal. -/
def text (r : PairReport) (threshold : UInt8) : String :=
  verdictText r.verdict threshold ++ tokensText r.tokens

/-- Compares two works. -/
def ofWorks (a b : Work) (s : CompareSettings) (leastTile : Nat) (now : Moment) :
    Except CompareFault PairReport :=
  (compareWorks a b s now).map fun v => ⟨v, .ofWorks a b leastTile⟩

end PairReport

namespace CommandFault

/-- The fault of a comparison of two files. -/
def ofCompareFault (first second : Path) : CompareFault → CommandFault
  | .malformed m => .incomparable first second m
  | .overflow o => .overflow o

end CommandFault

variable {m : Type → Type} [Monad m] [Host m]

/-- Loads two works, up to the first that cannot be loaded. -/
def loadPair (first second : Path) : m (Except LoadFault (Work × Work)) := do
  match ← Loader.default.loadFile first with
  | .error f => return .error f
  | .ok a =>
    match ← Loader.default.loadFile second with
    | .error f => return .error f
    | .ok b => return .ok (a, b)

/-- The report of a comparison, and the settings it was made with. -/
def compareReport (r : CompareRequest) : m (Except CommandFault (Settings × PairReport)) := do
  match ← soundSettings r.settings id with
  | .error f => return .error f
  | .ok s =>
    match ← loadPair r.first r.second with
    | .error f => return .error (.failure (.load f))
    | .ok (a, b) =>
      return ((PairReport.ofWorks a b s.compare r.leastTile (← Host.now)).mapError
        (.ofCompareFault r.first r.second)).map fun p => (s, p)

/-- Carries out a comparison; the exit code tells whether the works are too much alike. -/
def compare (r : CompareRequest) : m Reply := do
  match ← compareReport r with
  | .error f => return f.reply ""
  | .ok (s, p) =>
    let threshold := s.compare.threshold
    let output := match r.format with
      | .json => line p.toJson.indented
      | .text => p.text threshold
    let status : Batch.Status :=
      if p.verdict.exceeds threshold then .similarityFound else .clean
    return ⟨status.code, output, ""⟩

end Likeness.Command
