import Mathlib.Data.List.Nodup
import Mathlib.Logic.Function.Basic
import Likeness.Proofs.Batch.Plan
import Likeness.Proofs.Batch.Schedule

/-!
# Likeness.Proofs.Batch.Books

The books of a run are in order.

The coordinator keeps what it knows of a job in several places: the state and the outcome of the
job, the jobs under way, the jobs still ahead of it, and, without seeing them, the messages that the
pool and the channel owe it. All of them follow from one thing, the *phase* of the job
(`Run.Entry`), and the totals follow from the phases of all jobs (`Run.Tracks`).

What the books say of the job that an act is about is gathered once for each act (`Run.Booked`), so
that a proof about the acts of the coordinator is a case for each of them. Every step of a run,
whoever makes it, leaves the phases alone or moves one job on by one phase (`Run.Tracks.step`).
-/

namespace Likeness.Batch

/-- The paths of the works of a job. -/
def Job.paths (job : Job) : Path × Path := (job.first.path, job.second.path)

/-- The paths that an outcome names. -/
def Outcome.paths : Outcome → Path × Path
  | .cached first second _ => (first.path, second.path)
  | .computed first second _ => (first.path, second.path)
  | .failed f => (f.first, f.second)

/-- The outcome of a job with a result. -/
def Job.outcomeOf (job : Job) : Except PairFault Verdict → Outcome
  | .ok v => .computed job.first.identity job.second.identity v
  | .error f => .failed f

theorem Job.paths_outcomeOf_judge (f : Job → Comparison) (job : Job) :
    (job.outcomeOf (judge f job)).paths = job.paths := by
  unfold judge
  cases f job <;> rfl

/-! ### Phases -/

/-- What has become of a job. -/
inductive Phase where
  | ahead
  | scheduled
  | running
  | ended (o : Outcome)

namespace Phase

def state : Phase → JobState
  | .ahead => .pending
  | .scheduled => .scheduled
  | .running => .running
  | .ended o => o.state

def outcome? : Phase → Option Outcome
  | .ended o => some o
  | _ => none

/-- The messages that are still to be taken. -/
def owed (compare : Job → Except PairFault Verdict) (job : Job) : Phase → List Message
  | .scheduled => [.started job.id, .finished job.id (compare job)]
  | .running => [.finished job.id (compare job)]
  | _ => []

/-- What is noted of a job under way. -/
def identities? (job : Job) : Phase → Option (Identity × Identity)
  | .scheduled | .running => some (job.first.identity, job.second.identity)
  | _ => none

/-- The moves of a job. Jobs are cancelled only before they are handed out, and only after the flag
went up. -/
inductive Move (compare : Job → Except PairFault Verdict) (cancelled : Bool) (job : Job) :
    Phase → Phase → Prop where
  | hit (v : Verdict) : Move compare cancelled job .ahead
      (.ended (.cached job.first.identity job.second.identity v))
  | cancel (flag : cancelled = true) :
      Move compare cancelled job .ahead (.ended (.failed (Run.cancellation job)))
  | submit : Move compare cancelled job .ahead .scheduled
  | start : Move compare cancelled job .scheduled .running
  | finish : Move compare cancelled job .running (.ended (job.outcomeOf (compare job)))

theorem Move.of_compared {compare : Job → Except PairFault Verdict} {cancelled : Bool} {job : Job}
    {result : Except PairFault Verdict} (h : compare job = result) :
    Move compare cancelled job .running (.ended (job.outcomeOf result)) := h ▸ .finish

end Phase

/-- The calls to the observer once a number of jobs have ended. -/
def progressCalls (total completed : Nat) : List ProgressCall :=
  .start total :: (List.range completed).map fun i => .advance (i + 1) total

theorem progressCalls_succ (total completed : Nat) : progressCalls total (completed + 1) =
    progressCalls total completed ++ [.advance (completed + 1) total] := by
  simp [progressCalls, List.range_succ]

namespace Run

variable {compare : Job → Except PairFault Verdict}

/-! ### Books in order -/

/-- All that is kept of a job agrees with its phase. -/
structure Entry (compare : Job → Except PairFault Verdict) (r : Run) (job : Job) (p : Phase) :
    Prop where
  state : r.states[job.id]? = some p.state
  outcome : r.outcomes[job.id]? = some p.outcome?
  owed : r.owed compare job.id = p.owed compare job
  underWay : r.underWay.lookup job.id = p.identities? job
  ahead : job ∈ r.ahead ↔ p = .ahead
  paths : ∀ o, p = .ended o → o.paths = job.paths

/-- What is kept of a job stays while nothing is done about it. -/
theorem Entry.frame {r r' : Run} {job : Job} {p : Phase} (h : Entry compare r job p)
    (states : r'.states[job.id]? = r.states[job.id]?)
    (outcomes : r'.outcomes[job.id]? = r.outcomes[job.id]?)
    (owed : r'.owed compare job.id = r.owed compare job.id)
    (underWay : r'.underWay.lookup job.id = r.underWay.lookup job.id)
    (ahead : job ∈ r'.ahead ↔ job ∈ r.ahead) : Entry compare r' job p :=
  ⟨states.trans h.state, outcomes.trans h.outcome, owed.trans h.owed, underWay.trans h.underWay,
    ahead.trans h.ahead, h.paths⟩

/-- The pool and the channel are about planned jobs, and no job is in the pool twice. -/
structure Posted (plan : Plan) (pool : List Task) (channel : List Message) : Prop where
  tasks : ∀ t ∈ pool, t.job ∈ plan.jobs
  nodup : (pool.map (·.job.id)).Nodup
  messages : ∀ m ∈ channel, ∃ job ∈ plan.jobs, job.id = m.id

/-- What is noted of jobs under way is about planned jobs, and noted once. -/
structure Noted (plan : Plan) (notes : List (Nat × Identity × Identity)) : Prop where
  planned : ∀ e ∈ notes, ∃ job ∈ plan.jobs, job.id = e.1
  nodup : (notes.map (·.1)).Nodup

/-- Every job is ended, under way or ahead, no more jobs are under way than may be, and the observer
has been told how many have ended. -/
structure Tally (plan : Plan) (limit : Nat) (r : Run) : Prop where
  limit_eq : r.limit = limit
  total_eq : r.total = plan.jobs.size
  states : r.states.size = plan.jobs.size
  outcomes : r.outcomes.size = plan.jobs.size
  count : r.completed + r.underWay.length + r.ahead.length = plan.jobs.size
  bound : r.underWay.length ≤ limit
  calls : r.calls = progressCalls plan.jobs.size r.completed ++ if r.ended then [.finish] else []
  closed : r.ended = true → r.ahead = [] ∧ r.underWay = []

/-- The books of a run agree with the phases of its jobs, and the totals with each other. -/
structure Tracks (plan : Plan) (compare : Job → Except PairFault Verdict) (limit : Nat) (r : Run)
    (phases : Nat → Phase) : Prop where
  entry : ∀ job ∈ plan.jobs, Entry compare r job (phases job.id)
  ahead : r.ahead <:+ plan.jobs.toList
  posted : Posted plan r.pool r.channel
  noted : Noted plan r.underWay
  tally : Tally plan limit r

variable {plan : Plan} {limit : Nat} {r : Run} {phases : Nat → Phase}

theorem tracks_start (hplan : plan.Tidy) (compare : Job → Except PairFault Verdict) (limit : Nat) :
    Tracks plan compare limit (start plan limit) fun _ => .ahead where
  entry job hjob := by
    have hlt := (Array.getElem?_eq_some_iff.mp (hplan.getElem?_id hjob)).1
    refine ⟨?_, ?_, rfl, rfl, ?_, fun _ hended => by cases hended⟩
    · simp [start, Phase.state, hlt]
    · simp [start, Phase.outcome?, hlt]
    · simpa [start, Run.ahead] using hjob
  ahead := List.suffix_refl _
  posted := ⟨List.forall_mem_nil _, List.nodup_nil, List.forall_mem_nil _⟩
  noted := ⟨List.forall_mem_nil _, List.nodup_nil⟩
  tally := by
    refine ⟨rfl, rfl, ?_, ?_, ?_, Nat.zero_le _, rfl, fun hended => by cases hended⟩
    · simp [start]
    · simp [start]
    · simp [start, Run.ahead]

/-! ### Notes of jobs under way -/

theorem lookup_append_singleton_ne {notes : List (Nat × β)} {k j : Nat} (b : β) (h : j ≠ k) :
    (notes ++ [(k, b)]).lookup j = notes.lookup j := by
  rw [List.lookup_append, List.lookup_cons, beq_false_of_ne h, List.lookup_nil, Option.or_none]

theorem lookup_filter_ne {notes : List (Nat × β)} {k j : Nat} (h : j ≠ k) :
    (notes.filter (·.1 ≠ k)).lookup j = notes.lookup j := by
  induction notes with
  | nil => rfl
  | cons e notes ih =>
      by_cases hk : e.1 = k
      · rw [List.filter_cons_of_neg (by simp [hk]), ih, List.lookup_cons, hk, beq_false_of_ne h]
      · rw [List.filter_cons_of_pos (by simp [hk]), List.lookup_cons, List.lookup_cons, ih]

theorem lookup_filter_self (notes : List (Nat × β)) (k : Nat) :
    (notes.filter (·.1 ≠ k)).lookup k = none := by
  rw [List.lookup_eq_none_iff]
  intro e he
  have hne := of_decide_eq_true (List.mem_filter.mp he).2
  simpa using hne.symm

/-- Dropping the only note of a job drops one note. -/
theorem length_filter_ne {notes : List (Nat × β)} {k : Nat} {b : β}
    (hnodup : (notes.map (·.1)).Nodup) (hk : notes.lookup k = some b) :
    (notes.filter (·.1 ≠ k)).length + 1 = notes.length := by
  have hmem : k ∈ notes.map (·.1) := by
    obtain ⟨e, he, heq⟩ := List.lookup_isSome_iff.mp (Option.isSome_iff_exists.mpr ⟨b, hk⟩)
    rw [eq_of_beq heq]
    exact List.mem_map_of_mem he
  have hlength := List.length_erase_add_one hmem
  rw [hnodup.erase_eq_filter, List.filter_map, List.length_map, List.length_map] at hlength
  rw [← hlength]
  congr 2
  refine List.filter_congr fun e _ => ?_
  rw [decide_not]
  rfl

/-! ### One act at a time -/

theorem Tracks.entries (hplan : plan.Tidy) {r' : Run} {job : Job} (hjob : job ∈ plan.jobs)
    {p : Phase} (hself : Entry compare r' job p)
    (hothers : ∀ other ∈ plan.jobs, other.id ≠ job.id → Entry compare r' other (phases other.id)) :
    ∀ other ∈ plan.jobs, Entry compare r' other (Function.update phases job.id p other.id) := by
  intro other hother
  by_cases hid : other.id = job.id
  · obtain rfl := hplan.eq_of_id_eq hother hjob hid
    rw [Function.update_self]
    exact hself
  · rw [Function.update_of_ne hid]
    exact hothers other hother hid

/-- What is known of the job that the coordinator looks at. -/
theorem Tracks.head (h : Tracks plan compare limit r phases) (hplan : plan.Tidy) {job : Job}
    {rest : List Job} (hahead : r.ahead = job :: rest) :
    job ∈ plan.jobs ∧ phases job.id = .ahead ∧ r.ended = false ∧ rest <:+ plan.jobs.toList ∧
      job ∉ rest := by
  have hsuffix := h.ahead
  rw [hahead] at hsuffix
  have hjob : job ∈ plan.jobs :=
    Array.mem_toList_iff.mp (hsuffix.subset List.mem_cons_self)
  have hnodup := (hplan.distinct.of_map _).sublist hsuffix.sublist
  refine ⟨hjob, ?_, ?_, (List.suffix_cons job rest).trans hsuffix, (List.nodup_cons.mp hnodup).1⟩
  · exact (h.entry job hjob).ahead.mp (by rw [hahead]; exact List.mem_cons_self)
  · cases hended : r.ended with
    | false => rfl
    | true =>
        have hnil := (h.tally.closed hended).1
        rw [hahead] at hnil
        cases hnil

theorem Tally.size_lt (h : Tally plan limit r) (hplan : plan.Tidy) {job : Job}
    (hjob : job ∈ plan.jobs) : job.id < r.states.size ∧ job.id < r.outcomes.size := by
  rw [h.states, h.outcomes]
  have hlt := (Array.getElem?_eq_some_iff.mp (hplan.getElem?_id hjob)).1
  exact ⟨hlt, hlt⟩

/-- A run with a job under way has not ended. -/
theorem Tally.running_of_lookup (h : Tally plan limit r) {id : Nat} {ids : Identity × Identity}
    (hknown : r.underWay.lookup id = some ids) : r.ended = false := by
  cases hended : r.ended with
  | false => rfl
  | true =>
      rw [(h.closed hended).2] at hknown
      cases hknown

/-- One job more has ended and one job less is ahead or under way. -/
theorem Tally.settle (h : Tally plan limit r) (hrunning : r.ended = false) {r' : Run}
    (hsame : r'.limit = r.limit ∧ r'.total = r.total ∧ r'.states = r.states ∧
      r'.outcomes = r.outcomes ∧ r'.completed = r.completed ∧ r'.calls = r.calls ∧
      r'.ended = r.ended)
    (hless : r'.underWay.length + r'.ahead.length + 1 = r.underWay.length + r.ahead.length)
    (hbound : r'.underWay.length ≤ r.underWay.length) (id : Nat) (o : Outcome) :
    Tally plan limit (r'.settle id o) := by
  obtain ⟨hlimit, htotal, hstates, houtcomes, hcompleted, hcalls, hended⟩ := hsame
  rw [hrunning] at hended
  refine ⟨hlimit.trans h.limit_eq, htotal.trans h.total_eq, ?_, ?_, ?_, hbound.trans h.bound, ?_, ?_⟩
  · exact (Array.size_setIfInBounds ..).trans (hstates ▸ h.states)
  · exact (Array.size_setIfInBounds ..).trans (houtcomes ▸ h.outcomes)
  · change r'.completed + 1 + r'.underWay.length + r'.ahead.length = _
    have hcount := h.count
    omega
  · have holdCalls := h.calls
    simp only [hrunning, Bool.false_eq_true, if_false, List.append_nil] at holdCalls
    simp only [Run.settle, hended, Bool.false_eq_true, if_false, List.append_nil,
      progressCalls_succ, hcalls, holdCalls, hcompleted, htotal, h.total_eq]
  · intro hclosed
    rw [show (r'.settle id o).ended = r'.ended from rfl, hended] at hclosed
    cases hclosed

/-- The next job ends without being handed out. -/
theorem Tracks.settleNext (h : Tracks plan compare limit r phases) (hplan : plan.Tidy) {job : Job}
    {rest : List Job} (hahead : r.ahead = job :: rest) {o : Outcome} (ho : o.paths = job.paths) :
    Tracks plan compare limit (r.moveOn.settle job.id o)
      (Function.update phases job.id (.ended o)) := by
  obtain ⟨hjob, hphase, hrunning, hsuffix, hfresh⟩ := h.head hplan hahead
  obtain ⟨hstates, houtcomes⟩ := h.tally.size_lt hplan hjob
  have hentry := h.entry job hjob
  rw [hphase] at hentry
  have hrest : r.moveOn.ahead = rest := by rw [ahead_moveOn, hahead, List.tail_cons]
  rw [moveOn_eq] at hrest ⊢
  refine ⟨Tracks.entries hplan hjob ⟨?_, ?_, hentry.owed, hentry.underWay, ?_, ?_⟩
    fun other hother hid => (h.entry other hother).frame ?_ ?_ rfl rfl ?_,
    hrest ▸ hsuffix, h.posted, h.noted, ?_⟩
  · exact Array.getElem?_setIfInBounds_self_of_lt hstates
  · exact Array.getElem?_setIfInBounds_self_of_lt houtcomes
  · exact iff_of_false (hrest ▸ hfresh) fun hended => by cases hended
  · rintro _ ⟨⟩
    exact ho
  · exact Array.getElem?_setIfInBounds_ne (Ne.symm hid)
  · exact Array.getElem?_setIfInBounds_ne (Ne.symm hid)
  · rw [ahead_settle, hrest, hahead, List.mem_cons]
    exact ⟨.inr, fun hmem => hmem.resolve_left fun heq => hid (congrArg Job.id heq)⟩
  · refine h.tally.settle hrunning ?_ ?_ ?_ _ _
    · exact ⟨rfl, rfl, rfl, rfl, rfl, rfl, rfl⟩
    · rw [hrest, hahead, List.length_cons]
      rfl
    · exact Nat.le_refl _

/-- The store has no verdict for the next job, which is now held. -/
theorem Tracks.hold (h : Tracks plan compare limit r phases) {job : Job} {rest : List Job}
    (hheld : r.held = none) (hwaiting : r.waiting = job :: rest) :
    Tracks plan compare limit (r.answer job none) phases := by
  have hahead : (r.answer job none).ahead = r.ahead := by
    simp [answer_none_eq hheld, Run.ahead, hheld, hwaiting]
  rw [answer_none_eq hheld] at hahead ⊢
  refine ⟨fun other hother => (h.entry other hother).frame rfl rfl rfl rfl (by rw [hahead]),
    by rw [hahead]; exact h.ahead, h.posted, h.noted, ?_⟩
  obtain ⟨limit_eq, total_eq, states, outcomes, count, bound, calls, closed⟩ := h.tally
  rw [← hahead] at count closed
  exact ⟨limit_eq, total_eq, states, outcomes, count, bound, calls, closed⟩

/-- A job in the pool is owed for. -/
theorem finished_mem_owed (compare : Job → Except PairFault Verdict) {t : Task} (ht : t ∈ r.pool) :
    .finished t.job.id (compare t.job) ∈ r.owed compare t.job.id := by
  refine List.mem_filter.mpr ⟨List.mem_append_right _ (List.mem_flatMap.mpr ⟨t, ht, ?_⟩), ?_⟩
  · unfold Task.toCome
    split <;> simp
  · simp [Message.id]

theorem Posted.submit {channel : List Message} {pool : List Task} (h : Posted plan pool channel)
    {job : Job} (hjob : job ∈ plan.jobs) (hfresh : ∀ t ∈ pool, t.job.id ≠ job.id) :
    Posted plan (pool ++ [⟨job, false⟩]) channel := by
  refine ⟨fun t ht => ?_, ?_, h.messages⟩
  · rcases List.mem_append.mp ht with ht | ht
    · exact h.tasks t ht
    · obtain rfl := List.mem_singleton.mp ht
      exact hjob
  · rw [List.map_append, List.nodup_append]
    refine ⟨h.nodup, List.nodup_singleton _, fun id hid _ hlast => ?_⟩
    obtain ⟨t, ht, rfl⟩ := List.mem_map.mp hid
    obtain rfl := List.mem_singleton.mp hlast
    exact hfresh t ht

theorem Noted.submit {notes : List (Nat × Identity × Identity)} (h : Noted plan notes) {job : Job}
    (hjob : job ∈ plan.jobs) (hfresh : notes.lookup job.id = none) (ids : Identity × Identity) :
    Noted plan (notes ++ [(job.id, ids)]) := by
  refine ⟨fun e he => ?_, ?_⟩
  · rcases List.mem_append.mp he with he | he
    · exact h.planned e he
    · obtain rfl := List.mem_singleton.mp he
      exact ⟨job, hjob, rfl⟩
  · rw [List.map_append, List.nodup_append]
    refine ⟨h.nodup, List.nodup_singleton _, fun id hid _ hlast heq => ?_⟩
    obtain ⟨e, he, rfl⟩ := List.mem_map.mp hid
    obtain rfl := List.mem_singleton.mp hlast
    exact bne_iff_ne.mp (List.lookup_eq_none_iff.mp hfresh e he) heq.symm

/-- The next job is handed out. -/
theorem Tracks.submitJob (h : Tracks plan compare limit r phases) (hplan : plan.Tidy) {job : Job}
    (hheld : r.held = some job) (hroom : r.underWay.length < r.limit) :
    Tracks plan compare limit (r.submitJob job) (Function.update phases job.id .scheduled) := by
  have hahead : r.ahead = job :: r.waiting := by simp [Run.ahead, hheld]
  obtain ⟨hjob, hphase, hrunning, hsuffix, hfresh⟩ := h.head hplan hahead
  obtain ⟨hstates, -⟩ := h.tally.size_lt hplan hjob
  have hentry := h.entry job hjob
  rw [hphase] at hentry
  have howed := owed_submitJob compare r job
  rw [submitJob_eq hheld] at howed ⊢
  refine ⟨Tracks.entries hplan hjob ⟨?_, hentry.outcome, ?_, ?_, ?_,
      fun _ hended => by cases hended⟩
    fun other hother hid => (h.entry other hother).frame ?_ rfl ?_ ?_ ?_,
    hsuffix, h.posted.submit hjob ?_, h.noted.submit hjob hentry.underWay _, ?_⟩
  · exact Array.getElem?_setIfInBounds_self_of_lt hstates
  · rw [howed, hentry.owed]
    simp [Phase.owed, Task.toCome, Message.id]
  · change List.lookup job.id (r.underWay ++ [_]) = _
    rw [List.lookup_append, hentry.underWay, List.lookup_cons, beq_self_eq_true]
    rfl
  · exact iff_of_false hfresh fun hahead => by cases hahead
  · exact Array.getElem?_setIfInBounds_ne (Ne.symm hid)
  · rw [howed, List.filter_eq_nil_iff.mpr, List.append_nil]
    intro m hm
    simpa [Task.id_of_mem_toCome hm] using Ne.symm hid
  · exact lookup_append_singleton_ne _ hid
  · change other ∈ r.waiting ↔ _
    rw [hahead, List.mem_cons]
    exact ⟨.inr, fun hmem => hmem.resolve_left fun heq => hid (congrArg Job.id heq)⟩
  · intro t ht heq
    have howes := finished_mem_owed compare ht
    rw [heq, hentry.owed] at howes
    cases howes
  · obtain ⟨limit_eq, total_eq, states, outcomes, count, bound, calls, closed⟩ := h.tally
    refine ⟨limit_eq, total_eq, ?_, outcomes, ?_, ?_, calls, ?_⟩
    · exact (Array.size_setIfInBounds ..).trans states
    · change r.completed + (r.underWay ++ [_]).length + r.waiting.length = _
      rw [hahead] at count
      simp only [List.length_append, List.length_cons, List.length_nil] at count ⊢
      omega
    · change (r.underWay ++ [_]).length ≤ limit
      rw [List.length_append, ← limit_eq]
      exact hroom
    · intro hclosed
      rw [show _ = r.ended from rfl, hrunning] at hclosed
      cases hclosed

theorem Posted.take {channel : List Message} {pool : List Task} {m : Message} {rest : List Message}
    (h : Posted plan pool channel) (hchannel : channel = m :: rest) :
    Posted plan pool rest ∧ ∃ job ∈ plan.jobs, job.id = m.id := by
  subst hchannel
  exact ⟨⟨h.tasks, h.nodup, fun n hn => h.messages n (List.mem_cons_of_mem _ hn)⟩,
    h.messages m List.mem_cons_self⟩

/-- What the oldest message says of the phase of its job. -/
theorem Entry.of_channel {job : Job} {p : Phase} (h : Entry compare r job p) {m : Message}
    {rest : List Message} (hchannel : r.channel = m :: rest) (hid : job.id = m.id) :
    (p = .scheduled ∧ m = .started job.id ∧
        { r with channel := rest }.owed compare job.id = [.finished job.id (compare job)]) ∨
      (p = .running ∧ m = .finished job.id (compare job) ∧
        { r with channel := rest }.owed compare job.id = []) := by
  have howed := h.owed
  rw [hid, owed_eq_cons hchannel, ← hid] at howed
  cases p with
  | ahead => cases howed
  | scheduled =>
      obtain ⟨hm, hrest⟩ := List.cons.inj howed
      exact .inl ⟨rfl, hm, hrest⟩
  | running =>
      obtain ⟨hm, hrest⟩ := List.cons.inj howed
      exact .inr ⟨rfl, hm, hrest⟩
  | ended o => cases howed

/-- A worker has started a job. -/
theorem Tracks.start (h : Tracks plan compare limit r phases) (hplan : plan.Tidy) {id : Nat}
    {rest : List Message} (hchannel : r.channel = .started id :: rest) :
    ∃ job ∈ plan.jobs, job.id = id ∧ phases id = .scheduled ∧ Tracks plan compare limit
      { r with channel := rest, states := r.states.setIfInBounds id .running }
      (Function.update phases id .running) := by
  obtain ⟨hposted, job, hjob, hid⟩ := h.posted.take hchannel
  obtain rfl : job.id = id := hid
  have hentry := h.entry job hjob
  rcases hentry.of_channel hchannel rfl with ⟨hphase, -, howed⟩ | ⟨-, hm, -⟩
  swap
  · cases hm
  rw [hphase] at hentry
  refine ⟨job, hjob, rfl, hphase, Tracks.entries hplan hjob
    ⟨?_, hentry.outcome, howed, hentry.underWay, ?_, fun _ hended => by cases hended⟩
    fun other hother hne => (h.entry other hother).frame ?_ rfl ?_ rfl Iff.rfl,
    h.ahead, hposted, h.noted, ?_⟩
  · exact Array.getElem?_setIfInBounds_self_of_lt (h.tally.size_lt hplan hjob).1
  · exact hentry.ahead.trans (by simp)
  · exact Array.getElem?_setIfInBounds_ne (Ne.symm hne)
  · exact owed_eq_of_ne hchannel (Ne.symm hne)
  · obtain ⟨limit_eq, total_eq, states, outcomes, count, bound, calls, closed⟩ := h.tally
    exact ⟨limit_eq, total_eq, (Array.size_setIfInBounds ..).trans states, outcomes, count, bound,
      calls, closed⟩

/-- A job that is running is noted as under way. -/
theorem Tracks.isSome_lookup (h : Tracks plan compare limit r phases) {job : Job}
    (hjob : job ∈ plan.jobs) (hphase : phases job.id = .running) :
    (r.underWay.lookup job.id).isSome := by
  rw [(h.entry job hjob).underWay, hphase]
  rfl

/-- A result is only heard of for a job that is running, and is the last message about it. -/
theorem Tracks.of_finished (h : Tracks plan compare limit r phases) {id : Nat}
    {result : Except PairFault Verdict} {rest : List Message}
    (hchannel : r.channel = .finished id result :: rest) :
    ∃ job ∈ plan.jobs, job.id = id ∧ phases id = .running ∧ result = compare job ∧
      { r with channel := rest }.owed compare id = [] := by
  obtain ⟨-, job, hjob, hid⟩ := h.posted.take hchannel
  obtain rfl : job.id = id := hid
  rcases (h.entry job hjob).of_channel hchannel rfl with ⟨-, hm, -⟩ | ⟨hphase, hm, howed⟩
  · cases hm
  · cases hm
    exact ⟨job, hjob, rfl, hphase, rfl, howed⟩

/-- A worker has finished a job, whose outcome is entered. -/
theorem Tracks.collect (h : Tracks plan compare limit r phases) (hplan : plan.Tidy)
    (hpaths : ∀ job : Job, (job.outcomeOf (compare job)).paths = job.paths) {id : Nat}
    {result : Except PairFault Verdict} {rest : List Message}
    (hchannel : r.channel = .finished id result :: rest) :
    ∃ job ∈ plan.jobs, job.id = id ∧ phases id = .running ∧ result = compare job ∧
      r.underWay.lookup id = some (job.first.identity, job.second.identity) ∧
      ∀ warnings, Tracks plan compare limit
        ({ r with channel := rest, warnings := warnings }.collect id (job.outcomeOf result))
        (Function.update phases id (.ended (job.outcomeOf result))) := by
  obtain ⟨hposted, -⟩ := h.posted.take hchannel
  obtain ⟨job, hjob, rfl, hphase, rfl, howed⟩ := h.of_finished hchannel
  have hentry := h.entry job hjob
  rw [hphase] at hentry
  have hknown := hentry.underWay
  refine ⟨job, hjob, rfl, hphase, rfl, hknown, fun warnings => ?_⟩
  have hless := length_filter_ne h.noted.nodup hknown
  refine ⟨Tracks.entries hplan hjob ⟨?_, ?_, howed, lookup_filter_self _ _, ?_, ?_⟩
    fun other hother hne => (h.entry other hother).frame ?_ ?_ ?_ (lookup_filter_ne hne) Iff.rfl,
    h.ahead, hposted, ⟨?_, ?_⟩, ?_⟩
  · exact Array.getElem?_setIfInBounds_self_of_lt (h.tally.size_lt hplan hjob).1
  · exact Array.getElem?_setIfInBounds_self_of_lt (h.tally.size_lt hplan hjob).2
  · exact hentry.ahead.trans (by simp)
  · rintro _ ⟨⟩
    exact hpaths job
  · exact Array.getElem?_setIfInBounds_ne (Ne.symm hne)
  · exact Array.getElem?_setIfInBounds_ne (Ne.symm hne)
  · exact owed_eq_of_ne hchannel (Ne.symm hne)
  · exact fun e he => h.noted.planned e (List.mem_of_mem_filter he)
  · exact h.noted.nodup.sublist (List.filter_sublist.map _)
  · refine h.tally.settle (h.tally.running_of_lookup hknown) ?_ ?_ ?_ _ _
    · exact ⟨rfl, rfl, rfl, rfl, rfl, rfl, rfl⟩
    · change (r.underWay.filter _).length + r.ahead.length + 1 = r.underWay.length + r.ahead.length
      omega
    · exact List.length_filter_le _ _

/-- The run ends. -/
theorem Tracks.conclude (h : Tracks plan compare limit r phases) (hrunning : r.ended = false)
    (hahead : r.ahead = []) (hunderWay : r.underWay = []) (warnings : List String) :
    Tracks plan compare limit
      { r with warnings := warnings, ended := true, calls := r.calls ++ [.finish] } phases := by
  refine ⟨fun other hother => (h.entry other hother).frame rfl rfl rfl rfl Iff.rfl, h.ahead,
    h.posted, h.noted, ?_⟩
  obtain ⟨limit_eq, total_eq, states, outcomes, count, bound, calls, -⟩ := h.tally
  refine ⟨limit_eq, total_eq, states, outcomes, count, bound, ?_, fun _ => ⟨hahead, hunderWay⟩⟩
  rw [hrunning] at calls
  change r.calls ++ [.finish] = _
  rw [calls]
  simp

/-- The books do not depend on where the messages owed are. -/
theorem Tracks.post (h : Tracks plan compare limit r phases) {pool : List Task}
    {channel : List Message} (hposted : Posted plan pool channel)
    (howed : ∀ id, { r with pool := pool, channel := channel }.owed compare id =
      r.owed compare id) :
    Tracks plan compare limit { r with pool := pool, channel := channel } phases := by
  refine ⟨fun other hother => (h.entry other hother).frame rfl rfl (howed _) rfl Iff.rfl, h.ahead,
    hposted, h.noted, ?_⟩
  obtain ⟨limit_eq, total_eq, states, outcomes, count, bound, calls, closed⟩ := h.tally
  exact ⟨limit_eq, total_eq, states, outcomes, count, bound, calls, closed⟩

/-- A worker speaks, which changes nothing on the books. -/
theorem Tracks.speak (h : Tracks plan compare limit r phases) {before after : List Task} {t : Task}
    (hpool : r.pool = before ++ t :: after) :
    Tracks plan compare limit (r.speak compare before t after) phases := by
  have howed := owed_speak compare hpool h.posted.nodup
  obtain ⟨htasks, hnodup, hmessages⟩ := h.posted
  rw [hpool] at hnodup htasks
  have ht := htasks t (List.mem_append_right _ List.mem_cons_self)
  have hsent {m : Message} (hm : m.id = t.job.id) :
      ∀ n ∈ r.channel ++ [m], ∃ job ∈ plan.jobs, job.id = n.id := by
    intro n hn
    rcases List.mem_append.mp hn with hn | hn
    · exact hmessages n hn
    · obtain rfl := List.mem_singleton.mp hn
      exact ⟨t.job, ht, hm.symm⟩
  unfold Run.speak at howed ⊢
  split at howed
  next hstarted =>
    rw [if_pos hstarted]
    refine h.post ⟨fun u hu => htasks u ?_, ?_, hsent rfl⟩ howed
    · exact (List.sublist_cons_self t after).append_left before |>.subset hu
    · exact hnodup.sublist (((List.sublist_cons_self t after).append_left before).map _)
  next hstarted =>
    rw [if_neg hstarted]
    refine h.post ⟨fun u hu => ?_, by simpa using hnodup, hsent rfl⟩ howed
    rcases List.mem_append.mp hu with hu | hu
    · exact htasks u (List.mem_append_left _ hu)
    · rcases List.mem_cons.mp hu with rfl | hu
      · exact ht
      · exact htasks u (List.mem_append_right _ (List.mem_cons_of_mem _ hu))

/-- The flag goes up, which changes nothing on the books either. -/
theorem Tracks.raise (h : Tracks plan compare limit r phases) :
    Tracks plan compare limit r.raise phases := by
  refine ⟨fun other hother => (h.entry other hother).frame rfl rfl rfl rfl Iff.rfl, h.ahead,
    h.posted, h.noted, ?_⟩
  obtain ⟨limit_eq, total_eq, states, outcomes, count, bound, calls, closed⟩ := h.tally
  exact ⟨limit_eq, total_eq, states, outcomes, count, bound, calls, closed⟩

/-! ### Steps and runs -/

variable {σ : Type} {store : VerdictStore (StateM σ)}

/-- What a step makes of the phases: nothing, or one job moves on. -/
def Moved (plan : Plan) (compare : Job → Except PairFault Verdict) (cancelled : Bool)
    (phases phases' : Nat → Phase) : Prop :=
  phases' = phases ∨ ∃ job ∈ plan.jobs, ∃ p, phases' = Function.update phases job.id p ∧
    Phase.Move compare cancelled job (phases job.id) p

/-- An act of the coordinator, with what the books say of the job that it is about, and the phases of
the jobs after it. -/
inductive Booked (plan : Plan) (compare : Job → Except PairFault Verdict)
    (store : VerdictStore (StateM σ)) (phases : Nat → Phase) (r : Run) (s : σ) :
    Run → σ → (Nat → Phase) → Prop where
  | cancel {job : Job} {rest : List Job} (next : r.next = .cancel job) (planned : job ∈ plan.jobs)
      (phase : phases job.id = .ahead) (ahead : r.ahead = job :: rest) (flag : r.cancelled = true) :
      Booked plan compare store phases r s (r.cancelJob job) s
        (Function.update phases job.id (.ended (.failed (cancellation job))))
  | lookUp {job : Job} {rest : List Job} {answer : Option Verdict} {s' : σ}
      (next : r.next = .lookUp job) (planned : job ∈ plan.jobs) (phase : phases job.id = .ahead)
      (ahead : r.ahead = job :: rest) (free : r.held = none) (waiting : r.waiting = job :: rest)
      (got : (store.get job.first.identity job.second.identity).run s = (answer, s')) :
      Booked plan compare store phases r s (r.answer job answer) s'
        (answer.elim phases fun v => Function.update phases job.id
          (.ended (.cached job.first.identity job.second.identity v)))
  | submit {job : Job} (next : r.next = .submit job) (planned : job ∈ plan.jobs)
      (phase : phases job.id = .ahead) (ahead : r.ahead = job :: r.waiting)
      (held : r.held = some job) :
      Booked plan compare store phases r s (r.submitJob job) s
        (Function.update phases job.id .scheduled)
  | start {job : Job} {rest : List Message} (next : r.next = .receive) (planned : job ∈ plan.jobs)
      (phase : phases job.id = .scheduled) (channel : r.channel = .started job.id :: rest) :
      Booked plan compare store phases r s
        { r with channel := rest, states := r.states.setIfInBounds job.id .running } s
        (Function.update phases job.id .running)
  | fail {job : Job} {f : PairFault} {rest : List Message} (next : r.next = .receive)
      (planned : job ∈ plan.jobs) (phase : phases job.id = .running)
      (compared : compare job = .error f) (channel : r.channel = .finished job.id (.error f) :: rest) :
      Booked plan compare store phases r s ({ r with channel := rest }.collect job.id (.failed f)) s
        (Function.update phases job.id (.ended (.failed f)))
  | compute {job : Job} {v : Verdict} {rest : List Message} {kept : Except StoreFault Unit} {s' : σ}
      (next : r.next = .receive) (planned : job ∈ plan.jobs) (phase : phases job.id = .running)
      (compared : compare job = .ok v) (channel : r.channel = .finished job.id (.ok v) :: rest)
      (put : ((if v.isFull then store.put job.first.identity job.second.identity v
        else pure (.ok ())) : StateM σ (Except StoreFault Unit)).run s = (kept, s')) :
      Booked plan compare store phases r s
        ({ r with channel := rest, warnings := r.warnings ++ trouble kept }.collect job.id
          (.computed job.first.identity job.second.identity v)) s'
        (Function.update phases job.id
          (.ended (.computed job.first.identity job.second.identity v)))
  | conclude {saved : Except StoreFault Unit} {s' : σ} (next : r.next = .conclude)
      (idle : r.ahead = []) (flushed : store.flush.run s = (saved, s')) :
      Booked plan compare store phases r s (r.conclude saved) s' phases

/-- An act of the coordinator keeps the books in order. -/
theorem Tracks.booked (h : Tracks plan compare limit r phases) (hplan : plan.Tidy)
    (hpaths : ∀ job : Job, (job.outcomeOf (compare job)).paths = job.paths) {r' : Run} {s s' : σ}
    (hrunning : r.ended = false) (hacted : Acted store r s r' s') :
    ∃ phases', Booked plan compare store phases r s r' s' phases' ∧
      Tracks plan compare limit r' phases' := by
  have hspec := r.next_spec
  cases hacted with
  | cancel next =>
      rw [next] at hspec
      obtain ⟨hflag, rest, hahead⟩ := hspec
      obtain ⟨hjob, hphase, -⟩ := h.head hplan hahead
      exact ⟨_, .cancel next hjob hphase hahead hflag, h.settleNext hplan hahead rfl⟩
  | @lookUp job answer s' next got =>
      rw [next] at hspec
      obtain ⟨hfree, rest, hwaiting⟩ := hspec
      have hahead : r.ahead = job :: rest := by simp [Run.ahead, hfree, hwaiting]
      obtain ⟨hjob, hphase, -⟩ := h.head hplan hahead
      refine ⟨_, .lookUp next hjob hphase hahead hfree hwaiting got, ?_⟩
      cases answer with
      | none => exact h.hold hfree hwaiting
      | some v => exact h.settleNext hplan hahead rfl
  | @submit job next =>
      rw [next] at hspec
      obtain ⟨hheld, hroom⟩ := hspec
      have hahead : r.ahead = job :: r.waiting := by simp [Run.ahead, hheld]
      obtain ⟨hjob, hphase, -⟩ := h.head hplan hahead
      exact ⟨_, .submit next hjob hphase hahead hheld, h.submitJob hplan hheld hroom⟩
  | start next channel =>
      obtain ⟨job, hjob, rfl, hphase, htracks⟩ := h.start hplan channel
      exact ⟨_, .start next hjob hphase channel, htracks⟩
  | fail next channel known =>
      obtain ⟨job, hjob, rfl, hphase, hresult, -, htracks⟩ := h.collect hplan hpaths channel
      exact ⟨_, .fail next hjob hphase hresult.symm channel, htracks r.warnings⟩
  | compute next channel known put =>
      obtain ⟨job, hjob, rfl, hphase, hresult, hknown, htracks⟩ := h.collect hplan hpaths channel
      obtain ⟨rfl, rfl⟩ := Prod.mk.inj (Option.some.inj (hknown.symm.trans known))
      rw [warn_eq]
      exact ⟨_, .compute next hjob hphase hresult.symm channel put, htracks _⟩
  | conclude next flushed =>
      rw [next] at hspec
      obtain ⟨hahead, hunderWay⟩ := hspec
      refine ⟨_, .conclude next hahead flushed, ?_⟩
      rw [Run.conclude, warn_eq]
      exact h.conclude hrunning hahead hunderWay _

/-- An act moves at most one job on. -/
theorem Booked.moved {r' : Run} {s s' : σ} {phases' : Nat → Phase}
    (h : Booked plan compare store phases r s r' s' phases') :
    Moved plan compare r.cancelled phases phases' := by
  cases h with
  | @cancel job rest next planned phase ahead flag =>
      exact .inr ⟨job, planned, _, rfl, phase ▸ .cancel flag⟩
  | @lookUp job rest answer s' next planned phase ahead free waiting got =>
      cases answer with
      | none => exact .inl rfl
      | some v => exact .inr ⟨job, planned, _, rfl, phase ▸ .hit v⟩
  | @submit job next planned phase ahead held =>
      exact .inr ⟨job, planned, _, rfl, phase ▸ .submit⟩
  | @start job rest next planned phase channel =>
      exact .inr ⟨job, planned, _, rfl, phase ▸ .start⟩
  | @fail job f rest next planned phase compared channel =>
      exact .inr ⟨job, planned, _, rfl, phase ▸ .of_compared compared⟩
  | @compute job v rest kept s' next planned phase compared channel put =>
      exact .inr ⟨job, planned, _, rfl, phase ▸ .of_compared compared⟩
  | conclude next idle flushed => exact .inl rfl

/-- **The books stay in order.** Whatever step a run makes, its books agree with the phases of its
jobs again, of which at most one has moved on. -/
theorem Tracks.step (h : Tracks plan compare limit r phases) (hplan : plan.Tidy)
    (hpaths : ∀ job : Job, (job.outcomeOf (compare job)).paths = job.paths) {r' : Run} {s s' : σ}
    (hstep : Step store compare (r, s) (r', s')) :
    ∃ phases', Tracks plan compare limit r' phases' ∧
      Moved plan compare r.cancelled phases phases' := by
  cases hstep with
  | act awake running acts =>
      obtain ⟨phases', hbooked, h'⟩ := h.booked hplan hpaths running (acted_of_run running acts)
      exact ⟨phases', h', hbooked.moved⟩
  | speak pool => exact ⟨phases, h.speak pool, .inl rfl⟩
  | raise => exact ⟨phases, h.raise, .inl rfl⟩

end Run

end Likeness.Batch
