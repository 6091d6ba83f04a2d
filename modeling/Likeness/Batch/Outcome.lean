import Likeness.Compare.Verdict

/-!
# Likeness.Batch.Outcome

How jobs end, and what a batch comes to.
-/

namespace Likeness.Batch

/-! ### Jobs -/

/-- The life of a job. -/
inductive JobState where
  | pending
  | cacheHit
  | scheduled
  | running
  | completed
  | failed
deriving DecidableEq, Inhabited

namespace JobState

/-- All states, in order. -/
def all : List JobState := [.pending, .cacheHit, .scheduled, .running, .completed, .failed]

/-- What a state is called in reports. -/
def name : JobState → String
  | .pending => "pending"
  | .cacheHit => "cache_hit"
  | .scheduled => "scheduled"
  | .running => "running"
  | .completed => "completed"
  | .failed => "failed"

/-- Whether a job stays in this state. -/
def isTerminal : JobState → Bool
  | .cacheHit | .completed | .failed => true
  | .pending | .scheduled | .running => false

end JobState

/-- Why a pair has no verdict. -/
inductive PairFaultKind where
  | invalidStructure
  | comparisonPanic
  | cancelled
deriving DecidableEq

/-- A pair without a verdict: the paths of its works, the kind of the fault and what is said about
it. -/
structure PairFault where
  first : Path
  second : Path
  kind : PairFaultKind
  message : String
deriving DecidableEq

namespace PairFaultKind

/-- What a kind of fault is called on the terminal. -/
def text : PairFaultKind → String
  | .invalidStructure => "invalid structure"
  | .comparisonPanic => "comparison panic"
  | .cancelled => "cancelled"

end PairFaultKind

namespace PairFault

/-- The fault in a line, with the two works in front. -/
def text (f : PairFault) : String :=
  f.first.text ++ " <-> " ++ f.second.text ++ ": " ++ f.kind.text ++ ": " ++ f.message

end PairFault

/-! ### Status -/

/-- What a batch found, as bits that can serve as an exit code. -/
structure Status where
  bits : UInt8
deriving DecidableEq

namespace Status

/-- Nothing was found and nothing went wrong. -/
def clean : Status := ⟨0⟩
/-- Some pair lies above the threshold. -/
def similarityFound : Status := ⟨4⟩
/-- Some pair has no verdict, or some work could not be loaded. -/
def errorsOccurred : Status := ⟨8⟩

/-- The bits of both. -/
def union (s t : Status) : Status := ⟨s.bits ||| t.bits⟩

/-- Whether all bits of `t` are set. -/
def contains (s t : Status) : Bool := s.bits &&& t.bits = t.bits

/-- The status as an exit code. -/
def code (s : Status) : Nat := s.bits.toNat

/-- The names of the bits that are set. -/
def text (s : Status) : String :=
  if s = clean then "clean"
  else ", ".intercalate
    ((if s.contains similarityFound then ["similarity found"] else []) ++
     (if s.contains errorsOccurred then ["errors occurred"] else []))

end Status

/-! ### Outcomes -/

/-- How a job ended. -/
inductive Outcome where
  /-- With a verdict from the store. -/
  | cached (first second : Identity) (verdict : Verdict)
  /-- With a verdict of this batch. -/
  | computed (first second : Identity) (verdict : Verdict)
  | failed (fault : PairFault)
deriving DecidableEq

namespace Outcome

/-- The verdict that the job ended with, if it did not fail. -/
def verdict? : Outcome → Option Verdict
  | .cached _ _ v => some v
  | .computed _ _ v => some v
  | .failed _ => none

/-- The fault that the job ended with, if it failed. -/
def fault? : Outcome → Option PairFault
  | .failed f => some f
  | _ => none

/-- The state in which the job ended. -/
def state : Outcome → JobState
  | .cached .. => .cacheHit
  | .computed .. => .completed
  | .failed _ => .failed

/-- What the outcome adds to the status. -/
def status (threshold : UInt8) (o : Outcome) : Status :=
  match o.verdict? with
  | none => .errorsOccurred
  | some v => if v.exceeds threshold then .similarityFound else .clean

end Outcome

/-! ### Reports -/

/-- A span of time. -/
structure Elapsed where
  seconds : Nat
  nanoseconds : Nat
deriving DecidableEq

/-- What a batch came to: how each job ended, what that adds up to, and what went wrong beside the
jobs. -/
structure Report where
  /-- One for each job, in the order of the plan. -/
  outcomes : List Outcome
  threshold : UInt8
  cacheHits : Nat
  computed : Nat
  failures : List PairFault
  /-- Troubles with the store that did not stop the batch. -/
  storeWarnings : List String
  /-- Works that could not be loaded. -/
  diagnostics : List String
  elapsed : Elapsed
  status : Status
deriving DecidableEq

/-- What some outcomes add up to. -/
structure Totals where
  cacheHits : Nat
  computed : Nat
  failures : List PairFault
  status : Status

namespace Totals

/-- The totals of no outcomes. -/
def none : Totals := ⟨0, 0, [], .clean⟩

/-- Takes one more outcome into account. -/
def add (threshold : UInt8) (t : Totals) (o : Outcome) : Totals :=
  let t := { t with status := t.status.union (o.status threshold) }
  match o with
  | .cached .. => { t with cacheHits := t.cacheHits + 1 }
  | .computed .. => { t with computed := t.computed + 1 }
  | .failed f => { t with failures := t.failures ++ [f] }

end Totals

namespace Report

/-- The report on some outcomes, which are gone through once. -/
def ofOutcomes (outcomes : List Outcome) (threshold : UInt8) : Report :=
  let totals := outcomes.foldl (Totals.add threshold) .none
  { outcomes, threshold
    cacheHits := totals.cacheHits
    computed := totals.computed
    failures := totals.failures
    storeWarnings := []
    diagnostics := []
    elapsed := ⟨0, 0⟩
    status := totals.status }

/-- How many outcomes ended in a state. -/
def countIn (state : JobState) (outcomes : List Outcome) : Nat :=
  outcomes.countP (·.state = state)

/-- Adds works that could not be loaded; any of them marks the batch as one with errors. -/
def addDiagnostics (messages : List String) (r : Report) : Report :=
  { r with
    diagnostics := r.diagnostics ++ messages
    status := if messages = [] then r.status else r.status.union .errorsOccurred }

/-- How many jobs ended in each state that occurs, in the order of the states. -/
def stateCounts (r : Report) : List (JobState × Nat) :=
  (JobState.all.map fun s => (s, countIn s r.outcomes)).filter fun (_, n) => n ≠ 0

/-- Whether an outcome lies above the threshold of the report. -/
def isFound (r : Report) (o : Outcome) : Bool := o.status r.threshold = .similarityFound

/-- The outcomes above the threshold, in the order of the plan. -/
def found (r : Report) : List Outcome := r.outcomes.filter r.isFound

/-- The verdicts that went as far as the outlines. -/
def fullVerdicts (r : Report) : List Verdict :=
  (r.outcomes.filterMap Outcome.verdict?).filter Verdict.isFull

end Report

end Likeness.Batch
