import Likeness.Batch.Outcome
import Likeness.Batch.Plan
import Likeness.Batch.Progress
import Likeness.Store.Basic

/-!
# Likeness.Batch.Run

The run of a batch.

One coordinator goes through the jobs of a plan. It alone uses the store, keeps the books and calls
the observer. A job that the store has no verdict for is handed to a pool of workers; a worker says
that it has started a job and later, with the result, that it has finished it, and these messages
come back through a channel. The coordinator takes messages when it has no room for another job,
and at the end until no job is under way. Once the flag for cancelling is up, jobs not handed out
yet end as cancelled.

`Run.next` says what the coordinator does next, and the functions after it say what each of its
acts, and each act of a worker, makes of a run. `Run.drive` is the run in which workers speak only
when they are waited for, the longest waiting job first; `Run.Step` relates a run to every run that may
come after it, whoever acts.
-/

namespace Likeness.Batch

/-- What a worker says about a job. -/
inductive Message where
  | started (id : Nat)
  | finished (id : Nat) (result : Except PairFault Verdict)

/-- A job in the pool, and whether a worker has said that it started it. -/
structure Task where
  job : Job
  started : Bool

/-- A run of a batch at some moment: the books of the coordinator, the pool, the channel between
them and the flag for cancelling. -/
structure Run where
  /-- How many jobs may be under way at once. -/
  limit : Nat
  total : Nat
  /-- Jobs not looked at yet. -/
  waiting : List Job
  /-- The job that is looked at, once it is known that the store has no verdict for it. -/
  held : Option Job
  /-- State of every job, by its position in the plan. -/
  states : Array JobState
  /-- Outcome of every job that has ended, by its position in the plan. -/
  outcomes : Array (Option Outcome)
  /-- Jobs handed to the pool and not heard of as finished. -/
  underWay : List (Nat × Identity × Identity)
  completed : Nat
  /-- Troubles with the store. -/
  warnings : List String
  /-- Calls to the observer so far. -/
  calls : List ProgressCall
  pool : List Task
  /-- Messages on their way, the oldest first. -/
  channel : List Message
  cancelled : Bool
  ended : Bool

/-- What the coordinator does next. -/
inductive Act where
  /-- Ends a job as cancelled. -/
  | cancel (job : Job)
  /-- Asks the store about a job. -/
  | lookUp (job : Job)
  /-- Hands a job to the pool. -/
  | submit (job : Job)
  /-- Takes a message from the channel. -/
  | receive
  /-- Saves the store and ends the run. -/
  | conclude
  /-- Nothing, the run has ended. -/
  | rest

/-- Why a run breaks off. -/
inductive RunFault where
  /-- A result for a job that is not under way. -/
  | unscheduled (id : Nat)
  /-- A message is waited for, and nobody is left to send one. -/
  | disconnected
deriving DecidableEq

namespace RunFault

/-- What the program says of a fault. -/
def failure : RunFault → Failure
  | .unscheduled id => .internal ("worker reported unscheduled job " ++ toString id) none
  | .disconnected => .pipeline "collect" "receiving on an empty and disconnected channel"

end RunFault

namespace Run

/-- A run before its first step. -/
def start (plan : Plan) (limit : Nat) : Run where
  limit := limit
  total := plan.jobs.size
  waiting := plan.jobs.toList
  held := none
  states := Array.replicate plan.jobs.size .pending
  outcomes := Array.replicate plan.jobs.size none
  underWay := []
  completed := 0
  warnings := []
  calls := [.start plan.jobs.size]
  pool := []
  channel := []
  cancelled := false
  ended := false

/-! ### Acts of the coordinator -/

/-- The next act. A job that is held comes before those that wait, and a message before a job that
there is no room for. -/
def next (r : Run) : Act :=
  match r.held, r.waiting with
  | some job, _ =>
    if r.limit ≤ r.underWay.length then .receive
    else if r.cancelled then .cancel job
    else .submit job
  | none, job :: _ => if r.cancelled then .cancel job else .lookUp job
  | none, [] =>
    if r.ended then .rest
    else if r.underWay = [] then .conclude
    else .receive

/-- Is done with the job that was looked at. -/
def moveOn (r : Run) : Run :=
  match r.held with
  | some _ => { r with held := none }
  | none => { r with waiting := r.waiting.tail }

/-- Enters the outcome of a job and tells the observer. -/
def settle (r : Run) (id : Nat) (o : Outcome) : Run :=
  { r with
    states := r.states.setIfInBounds id o.state
    outcomes := r.outcomes.setIfInBounds id (some o)
    completed := r.completed + 1
    calls := r.calls ++ [.advance (r.completed + 1) r.total] }

/-- The fault of a job that was never handed out. -/
def cancellation (job : Job) : PairFault :=
  ⟨job.first.path, job.second.path, .cancelled, "run cancelled before the job was submitted"⟩

/-- Ends the job that was looked at as cancelled. -/
def cancelJob (r : Run) (job : Job) : Run :=
  r.moveOn.settle job.id (.failed (cancellation job))

/-- Goes on with the answer of the store. -/
def answer (r : Run) (job : Job) : Option Verdict → Run
  | some v => r.moveOn.settle job.id (.cached job.first.identity job.second.identity v)
  | none => { r.moveOn with held := some job }

/-- Hands the job that was looked at to the pool, where no worker has started it yet. -/
def submitJob (r : Run) (job : Job) : Run :=
  { r.moveOn with
    states := r.states.setIfInBounds job.id .scheduled
    underWay := r.underWay ++ [(job.id, job.first.identity, job.second.identity)]
    pool := r.pool ++ [⟨job, false⟩] }

/-- Keeps what the store complains about; the run goes on. -/
def warn (r : Run) : Except StoreFault Unit → Run
  | .ok _ => r
  | .error f => { r with warnings := r.warnings ++ [f.message] }

/-- Enters the outcome of a job that is under way. -/
def collect (r : Run) (id : Nat) (o : Outcome) : Run :=
  { r with underWay := r.underWay.filter (·.1 ≠ id) }.settle id o

/-- Ends the run with the answer of the store to saving. -/
def conclude (r : Run) (saved : Except StoreFault Unit) : Run :=
  let r := r.warn saved
  { r with ended := true, calls := r.calls ++ [.finish] }

section

variable {m : Type → Type} [Monad m]

/-- Enters the result of a job that is under way. Verdicts that went as far as the outlines are
put into the store. -/
def receiveResult (store : VerdictStore m) (r : Run) (id : Nat) (first second : Identity) :
    Except PairFault Verdict → m Run
  | .error f => return r.collect id (.failed f)
  | .ok v => do
    let kept ← if v.isFull then store.put first second v else pure (.ok ())
    return (r.warn kept).collect id (.computed first second v)

/-- Takes the oldest message. -/
def receive (store : VerdictStore m) (r : Run) : m (Except RunFault Run) :=
  match r.channel with
  | [] => return .error .disconnected
  | .started id :: rest =>
    return .ok { r with channel := rest, states := r.states.setIfInBounds id .running }
  | .finished id result :: rest =>
    match r.underWay.lookup id with
    | none => return .error (.unscheduled id)
    | some (first, second) => do
      return .ok (← receiveResult store { r with channel := rest } id first second result)

/-- The next act of the coordinator. -/
def act (store : VerdictStore m) (r : Run) : m (Except RunFault Run) :=
  match r.next with
  | .cancel job => return .ok (r.cancelJob job)
  | .lookUp job => do
    return .ok (r.answer job (← store.get job.first.identity job.second.identity))
  | .submit job => return .ok (r.submitJob job)
  | .receive => r.receive store
  | .conclude => do return .ok (r.conclude (← store.flush))
  | .rest => return .ok r

end

/-! ### Acts of others -/

/-- A worker speaks about a task: that it has started, or how it ended. -/
def speak (compare : Job → Except PairFault Verdict) (r : Run) (before : List Task) (t : Task)
    (after : List Task) : Run :=
  if t.started then
    { r with
      pool := before ++ after
      channel := r.channel ++ [.finished t.job.id (compare t.job)] }
  else
    { r with
      pool := before ++ ⟨t.job, true⟩ :: after
      channel := r.channel ++ [.started t.job.id] }

/-- The flag for cancelling goes up. -/
def raise (r : Run) : Run := { r with cancelled := true }

/-- The observer may raise the flag at its last call. -/
def heed (watch : ProgressCall → Bool) (r : Run) : Run :=
  if r.calls.getLast?.any watch then r.raise else r

/-! ### The measure of a run -/

/-- How many acts a run can still see. -/
def rank (r : Run) : Nat :=
  6 * r.waiting.length + (if r.held.isSome then 5 else 0) +
    r.pool.foldr (fun t n => (if t.started then 2 else 4) + n) 0 + r.channel.length +
    (if r.ended then 0 else 1)

/-- Whether the coordinator waits for a message. -/
def isWaiting (r : Run) : Bool :=
  match r.next with
  | .receive => r.channel.isEmpty
  | _ => false

/-! ### One run of many -/

/-- Goes on until the run has ended, or for a number of acts. -/
def driveFor {m : Type → Type} [Monad m] (store : VerdictStore m)
    (compare : Job → Except PairFault Verdict) (watch : ProgressCall → Bool) :
    Nat → Run → m (Except RunFault Run)
  | 0, r => return .ok r
  | acts + 1, r =>
    if r.ended then return .ok r
    else match r.isWaiting, r.pool with
    | true, t :: rest => driveFor store compare watch acts (r.speak compare [] t rest)
    | _, _ => do
      match ← r.act store with
      | .error f => return .error f
      | .ok r => driveFor store compare watch acts (r.heed watch)

/-- The run in which workers speak only when they are waited for. -/
def drive {m : Type → Type} [Monad m] (store : VerdictStore m)
    (compare : Job → Except PairFault Verdict) (watch : ProgressCall → Bool) (r : Run) :
    m (Except RunFault Run) :=
  driveFor store compare watch r.rank (r.heed watch)

/-- What a run that has ended comes to. -/
def report (r : Run) (threshold : UInt8) : Report :=
  { Report.ofOutcomes (r.outcomes.toList.filterMap id) threshold with
    storeWarnings := r.warnings }

/-! ### All runs -/

/-- What may come after a run and its store, whoever acts: the coordinator, unless it waits, a
worker, or whoever raises the flag. -/
inductive Step {σ : Type} (store : VerdictStore (StateM σ))
    (compare : Job → Except PairFault Verdict) : Run × σ → Run × σ → Prop where
  | act {r r' : Run} {s s' : σ} (awake : r.isWaiting = false) (running : r.ended = false)
      (acts : (r.act store).run s = (.ok r', s')) : Step store compare (r, s) (r', s')
  | speak {r : Run} {s : σ} {before after : List Task} {t : Task}
      (pool : r.pool = before ++ t :: after) :
      Step store compare (r, s) (r.speak compare before t after, s)
  | raise {r : Run} {s : σ} : Step store compare (r, s) (r.raise, s)

end Run

/-! ### Batches -/

/-- The worker's comparison of a job. A sum that does not fit a word ends it like a crash. -/
def compareJob (s : CompareSettings) (now : Moment) (job : Job) : Except PairFault Verdict :=
  (compareWorks job.first job.second s now).mapError fun
  | .malformed m => ⟨job.first.path, job.second.path, .invalidStructure, m.message⟩
  | .overflow o => ⟨job.first.path, job.second.path, .comparisonPanic, o.message⟩

/-- Plans the pairs of some groups and runs them. -/
def runGroups {m : Type → Type} [Monad m] (s : Settings) (processors : Nat)
    (store : VerdictStore m) (compare : Job → Except PairFault Verdict)
    (watch : ProgressCall → Bool) (groups : List Group) : m (Except RunFault Run) :=
  (Run.start (Plan.ofGroups groups s.pairing) (s.workers.inFlightLimit processors)).drive store
    compare watch

end Likeness.Batch
