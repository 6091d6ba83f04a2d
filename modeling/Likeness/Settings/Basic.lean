import Likeness.Failure
import Likeness.Number.Binary64

/-!
# Likeness.Settings.Basic

What can be set for a comparison, for the workers, for files and for a batch; the defaults, and the
bounds that are checked before a run.
-/

namespace Likeness

/-! ### Checks of single values -/

namespace Settings

/-- A failed check of a field. -/
def invalid (field reason : String) : Except Failure Unit :=
  .error (.validation reason (some field))

/-- Refuses zero. -/
def checkPositive (n : Nat) (field : String) : Except Failure Unit :=
  if n = 0 then invalid field (field ++ " must be greater than 0") else .ok ()

/-- Refuses negative numbers and what is not finite; minus zero is not negative. -/
def checkNonNegative (x : Binary64) (field : String) : Except Failure Unit :=
  if !x.isFinite || x.lt .zero then invalid field (field ++ " must be a non-negative number")
  else .ok ()

/-- Refuses what lies outside of `low` and `high`, both of which are allowed. -/
def checkBetween (n low high : Nat) (field : String) : Except Failure Unit :=
  if n < low ∨ high < n then
    invalid field (field ++ " must be between " ++ toString low ++ " and " ++ toString high)
  else .ok ()

end Settings

/-! ### Sections -/

/-- Weights of the quick measures. -/
structure Weights where
  tokens : Binary64
  operators : Binary64
  keywords : Binary64
  literals : Binary64
deriving DecidableEq

namespace Weights

/-- Full weight for the tokens, two fifths for each of the counts. -/
def default : Weights :=
  let part := Binary64.ofDecimal false 4 (-1)
  ⟨.one, part, part, part⟩

/-- The weights in the order of the measures. -/
def toList (w : Weights) : List Binary64 := [w.tokens, w.operators, w.keywords, w.literals]

/-- The sum of numbers, added up from the left. -/
def sum (xs : List Binary64) : Binary64 := xs.foldl (· + ·) (.ofCode true 0)

/-- Weights must not be negative, and some must be positive. -/
def check (w : Weights) : Except Failure Unit := do
  Settings.checkNonNegative w.tokens "compare.weights.jakkar"
  Settings.checkNonNegative w.operators "compare.weights.operators"
  Settings.checkNonNegative w.keywords "compare.weights.keywords"
  Settings.checkNonNegative w.literals "compare.weights.literals"
  if (sum w.toList).le .zero then
    Settings.invalid "compare.weights" "at least one fast metric weight must be positive"

end Weights

/-- How two works are compared. -/
structure CompareSettings where
  windowLength : UInt64
  weights : Weights
  /-- In percent. -/
  threshold : UInt8
  /-- Compare outlines whatever the quick measures say. -/
  ignoreThreshold : Bool
  /-- Leave out outline entries deeper than this. -/
  maxDepth : Option UInt32
deriving DecidableEq

namespace CompareSettings

/-- Windows of three tokens, a threshold of 65 percent and no limit to the depth. -/
def default : CompareSettings := ⟨3, .default, 65, false, none⟩

/-- The threshold that the quick measures have to reach, if any. -/
def gate (s : CompareSettings) : Option UInt8 :=
  if s.ignoreThreshold then none else some s.threshold

/-- Refuses settings under which nothing could be compared, and thresholds below 50 or above 99. -/
def check (s : CompareSettings) : Except Failure Unit := do
  Settings.checkPositive s.windowLength.toNat "compare.ngrams_length"
  Settings.checkBetween s.threshold.toNat 50 99 "compare.threshold"
  s.weights.check
  if s.maxDepth = some 0 then
    Settings.invalid "compare.max_depth" "compare.max_depth must be greater than 0"

end CompareSettings

/-- The pool of workers. -/
structure WorkerSettings where
  /-- How many workers; as many as the machine has processors when not set. -/
  count : Option UInt64
  /-- How many jobs are kept waiting for each worker. -/
  queueDepth : UInt64
deriving DecidableEq

namespace WorkerSettings

/-- One worker for each processor, with four jobs waiting for it. -/
def default : WorkerSettings := ⟨none, 4⟩

/-- How many workers there are on a machine. -/
def effectiveCount (s : WorkerSettings) (processors : Nat) : Nat :=
  (s.count.map UInt64.toNat).getD processors

/-- How many jobs may be under way at once: at least one, at most what a word holds. -/
def inFlightLimit (s : WorkerSettings) (processors : Nat) : Nat :=
  max 1 (min (s.effectiveCount processors * s.queueDepth.toNat) 0xffffffffffffffff)

/-- Refuses a pool without workers or without jobs to wait for them. -/
def check (s : WorkerSettings) : Except Failure Unit := do
  match s.count with
  | some n => Settings.checkPositive n.toNat "performance.workers"
  | none => pure ()
  Settings.checkPositive s.queueDepth.toNat "performance.queue_depth_per_worker"

end WorkerSettings

/-- Files that a run keeps. -/
structure FileSettings where
  /-- The result store: a file, or a directory for a file of the standard name. -/
  reports : Option Path
  featureCache : Option Path
  /-- Seconds between saves of the result store. -/
  saveInterval : UInt64
  showProgress : Bool
deriving DecidableEq

namespace FileSettings

/-- Nothing is kept but what is asked for, and progress is shown. -/
def default : FileSettings := ⟨none, none, 60, true⟩

/-- Name of the result store in a directory. -/
def reportName : String := "plagiary_report.json"

/-- Refuses an interval of no time. -/
def check (s : FileSettings) : Except Failure Unit :=
  Settings.checkPositive s.saveInterval.toNat "io.save_interval_seconds"

end FileSettings

/-- Which pairs of works are compared. -/
inductive Pairing where
  /-- Every two works. -/
  | manyToMany
  /-- Works of different groups. -/
  | oneToOne
deriving DecidableEq

/-- All settings. -/
structure Settings where
  compare : CompareSettings
  workers : WorkerSettings
  files : FileSettings
  pairing : Pairing
deriving DecidableEq

namespace Settings

/-- The defaults of all sections. -/
def default : Settings := ⟨.default, .default, .default, .manyToMany⟩

/-- Checks section by section; the first failure counts. -/
def check (s : Settings) : Except Failure Unit := do
  s.compare.check
  s.workers.check
  s.files.check

end Settings

end Likeness
