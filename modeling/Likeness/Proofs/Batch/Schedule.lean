import Mathlib.Algebra.BigOperators.Group.List.Basic
import Mathlib.Algebra.GroupWithZero.Nat
import Mathlib.Logic.Relation
import Likeness.Batch.Run

/-!
# Likeness.Proofs.Batch.Schedule

What the acts of a run do, one lemma for each of them, and the runs that a number of workers allows.

Proofs about runs do not open the coordinator. `Run.next_spec` says when each act comes up,
`Run.acted_of_run` lists all that an act can make of a run and its store, and the lemmas on
`Run.owed` say what becomes of the messages that are on their way or still to come. Every step but
raising the flag brings a run nearer its end (`Run.Step.rank_lt`).
-/

namespace Likeness.Batch

/-! ### Comparisons -/

/-- How the comparison of a job can end. -/
inductive Comparison where
  | verdict (v : Verdict)
  /-- With an error. -/
  | refused (message : String)
  /-- With a crash of the comparator. -/
  | crashed (message : String)

/-- What a worker reports of a comparison. -/
def judge (f : Job → Comparison) (job : Job) : Except PairFault Verdict :=
  match f job with
  | .verdict v => .ok v
  | .refused message => .error ⟨job.first.path, job.second.path, .invalidStructure, message⟩
  | .crashed message => .error ⟨job.first.path, job.second.path, .comparisonPanic, message⟩

theorem verdict_of_judge {f : Job → Comparison} {job : Job} {v : Verdict}
    (h : judge f job = .ok v) : f job = .verdict v := by
  unfold judge at h
  split at h
  next w hw =>
    obtain rfl := Except.ok.inj h
    exact hw
  · cases h
  · cases h

/-- How the comparator of a batch ends. -/
def comparison (s : CompareSettings) (now : Moment) (first second : Work) : Comparison :=
  match compareWorks first second s now with
  | .ok v => .verdict v
  | .error (.malformed m) => .refused m.message
  | .error (.overflow o) => .crashed o.message

theorem compareJob_eq_judge (s : CompareSettings) (now : Moment) :
    compareJob s now = judge fun job => comparison s now job.first job.second := by
  funext job
  simp only [compareJob, judge, comparison]
  cases compareWorks job.first job.second s now with
  | ok v => rfl
  | error e => cases e <;> rfl

/-! ### Messages -/

def Message.id : Message → Nat
  | .started id => id
  | .finished id _ => id

/-- The messages that a task will still send. -/
def Task.toCome (compare : Job → Except PairFault Verdict) (t : Task) : List Message :=
  if t.started then [.finished t.job.id (compare t.job)]
  else [.started t.job.id, .finished t.job.id (compare t.job)]

theorem Task.id_of_mem_toCome {compare : Job → Except PairFault Verdict} {t : Task} {m : Message}
    (hm : m ∈ t.toCome compare) : m.id = t.job.id := by
  unfold toCome at hm
  split at hm
  · obtain rfl := List.mem_singleton.mp hm
    rfl
  · simp only [List.mem_cons, List.not_mem_nil, or_false] at hm
    rcases hm with rfl | rfl <;> rfl

/-- What a task adds to the rank of its run. -/
def Task.rank (t : Task) : Nat := if t.started then 2 else 4

namespace Run

variable {compare : Job → Except PairFault Verdict} {r : Run}

/-- The messages about a job that the coordinator has not taken yet, in the order in which it will
take them. -/
def owed (compare : Job → Except PairFault Verdict) (r : Run) (id : Nat) : List Message :=
  (r.channel ++ r.pool.flatMap (Task.toCome compare)).filter (·.id = id)

/-- Jobs that the coordinator has not dealt with yet. -/
def ahead (r : Run) : List Job := r.held.toList ++ r.waiting

/-- How many tasks are started and not finished. -/
def busy (r : Run) : Nat := r.pool.countP (·.started)

theorem owed_eq_nil_of_ne {tasks : List Task} {id : Nat} (h : ∀ t ∈ tasks, t.job.id ≠ id) :
    (tasks.flatMap (Task.toCome compare)).filter (·.id = id) = [] := by
  refine List.filter_eq_nil_iff.mpr fun m hm => ?_
  obtain ⟨t, ht, hm⟩ := List.mem_flatMap.mp hm
  simpa [Task.id_of_mem_toCome hm] using h t ht

/-- Speaking moves a message of a job from those to come to those on their way. -/
theorem owed_speak (compare : Job → Except PairFault Verdict) {before after : List Task}
    {t : Task} (hpool : r.pool = before ++ t :: after)
    (hnodup : (r.pool.map (·.job.id)).Nodup) (id : Nat) :
    (r.speak compare before t after).owed compare id = r.owed compare id := by
  -- The message passes those of tasks before `t`, which are about other jobs.
  have hpass (m : Message) (hm : m.id = t.job.id) (rest : List Message) :
      [m].filter (·.id = id) ++ ((before.flatMap (Task.toCome compare)).filter (·.id = id) ++ rest) =
        (before.flatMap (Task.toCome compare)).filter (·.id = id) ++
          ([m].filter (·.id = id) ++ rest) := by
    by_cases hid : t.job.id = id
    · have hne : ∀ u ∈ before, u.job.id ≠ id := by
        rw [hpool, List.map_append, List.map_cons] at hnodup
        intro u hu heq
        exact (List.nodup_append.mp hnodup).2.2 _ (List.mem_map_of_mem hu) t.job.id
          List.mem_cons_self (heq.trans hid.symm)
      rw [owed_eq_nil_of_ne hne, List.nil_append, List.nil_append]
    · rw [List.filter_eq_nil_iff.mpr (by simp [hm, hid]), List.nil_append, List.nil_append]
  cases hstarted : t.started with
  | true =>
      have htoCome : t.toCome compare = [.finished t.job.id (compare t.job)] := if_pos hstarted
      simp only [owed, speak, hstarted, if_true, hpool, List.flatMap_append, List.flatMap_cons,
        htoCome, List.filter_append, List.append_assoc]
      rw [hpass _ rfl]
  | false =>
      have htoCome : t.toCome compare =
          [.started t.job.id] ++ [.finished t.job.id (compare t.job)] := by
        simp [Task.toCome, hstarted]
      have htoCome' : Task.toCome compare ⟨t.job, true⟩ = [.finished t.job.id (compare t.job)] := rfl
      simp only [owed, speak, hstarted, Bool.false_eq_true, if_false, hpool, List.flatMap_append,
        List.flatMap_cons, htoCome, htoCome', List.filter_append, List.append_assoc]
      rw [hpass _ rfl]

/-- Handing out a job promises its messages. -/
theorem owed_submitJob (compare : Job → Except PairFault Verdict) (r : Run) (job : Job) (id : Nat) :
    (r.submitJob job).owed compare id =
      r.owed compare id ++ (Task.toCome compare ⟨job, false⟩).filter (·.id = id) := by
  unfold submitJob moveOn
  split <;> simp [owed]

/-- Taking a message takes it off what is owed for its job. -/
theorem owed_eq_cons {m : Message} {rest : List Message} (hchannel : r.channel = m :: rest) :
    r.owed compare m.id = m :: { r with channel := rest }.owed compare m.id := by
  simp [owed, hchannel]

theorem owed_eq_of_ne {m : Message} {rest : List Message} (hchannel : r.channel = m :: rest)
    {id : Nat} (hid : m.id ≠ id) :
    { r with channel := rest }.owed compare id = r.owed compare id := by
  simp [owed, hchannel, hid]

/-! ### Acts of the coordinator -/

theorem moveOn_eq (r : Run) : r.moveOn =
    { r with held := none, waiting := if r.held.isSome then r.waiting else r.waiting.tail } := by
  unfold moveOn
  split
  next h => simp [h]
  next h =>
    obtain ⟨limit, total, waiting, held⟩ := r
    obtain rfl : held = none := h
    rfl

@[simp] theorem ahead_moveOn (r : Run) : r.moveOn.ahead = r.ahead.tail := by
  rw [moveOn_eq]
  cases h : r.held <;> simp [ahead, h]

/-- The warning that an answer of the store gives rise to. -/
def trouble : Except StoreFault Unit → List String
  | .ok _ => []
  | .error f => [f.message]

theorem warn_eq (r : Run) (answer : Except StoreFault Unit) :
    r.warn answer = { r with warnings := r.warnings ++ trouble answer } := by
  cases answer with
  | ok => simp [warn, trouble]
  | error f => rfl

theorem submitJob_eq {held : Job} (h : r.held = some held) (job : Job) : r.submitJob job =
    { r with
      held := none
      states := r.states.setIfInBounds job.id .scheduled
      underWay := r.underWay ++ [(job.id, job.first.identity, job.second.identity)]
      pool := r.pool ++ [⟨job, false⟩] } := by
  simp only [submitJob, moveOn, h]

theorem answer_none_eq (h : r.held = none) (job : Job) : r.answer job none =
    { r with waiting := r.waiting.tail, held := some job } := by
  simp only [answer, moveOn, h]

@[simp] theorem ahead_settle (r : Run) (id : Nat) (o : Outcome) :
    (r.settle id o).ahead = r.ahead := rfl

/-- When each act comes up. -/
theorem next_spec (r : Run) :
    match r.next with
    | .cancel job => r.cancelled = true ∧ ∃ rest, r.ahead = job :: rest
    | .lookUp job => r.held = none ∧ ∃ rest, r.waiting = job :: rest
    | .submit job => r.held = some job ∧ r.underWay.length < r.limit
    | .receive => r.limit ≤ r.underWay.length ∨ r.underWay ≠ []
    | .conclude => r.ahead = [] ∧ r.underWay = []
    | .rest => r.ended = true := by
  unfold next ahead
  cases hheld : r.held with
  | some job =>
      by_cases hlimit : r.limit ≤ r.underWay.length
      · simp [hlimit]
      · have hroom : r.underWay.length < r.limit := Nat.lt_of_not_le hlimit
        cases hcancelled : r.cancelled <;> simp [hlimit, hroom]
  | none =>
      cases hwaiting : r.waiting with
      | cons job rest => cases hcancelled : r.cancelled <;> simp
      | nil =>
          cases hended : r.ended with
          | true => simp
          | false => by_cases hunderWay : r.underWay = [] <;> simp [hunderWay]

variable {σ : Type} {store : VerdictStore (StateM σ)} {s : σ}

/-- What an act of the coordinator makes of a run and its store. -/
inductive Acted (store : VerdictStore (StateM σ)) (r : Run) (s : σ) : Run → σ → Prop where
  | cancel {job : Job} (next : r.next = .cancel job) : Acted store r s (r.cancelJob job) s
  | lookUp {job : Job} {answer : Option Verdict} {s' : σ} (next : r.next = .lookUp job)
      (got : (store.get job.first.identity job.second.identity).run s = (answer, s')) :
      Acted store r s (r.answer job answer) s'
  | submit {job : Job} (next : r.next = .submit job) : Acted store r s (r.submitJob job) s
  | start {id : Nat} {rest : List Message} (next : r.next = .receive)
      (channel : r.channel = .started id :: rest) : Acted store r s
        { r with channel := rest, states := r.states.setIfInBounds id .running } s
  | fail {id : Nat} {f : PairFault} {rest : List Message} {first second : Identity}
      (next : r.next = .receive) (channel : r.channel = .finished id (.error f) :: rest)
      (known : r.underWay.lookup id = some (first, second)) :
      Acted store r s ({ r with channel := rest }.collect id (.failed f)) s
  | compute {id : Nat} {v : Verdict} {rest : List Message} {first second : Identity}
      {kept : Except StoreFault Unit} {s' : σ} (next : r.next = .receive)
      (channel : r.channel = .finished id (.ok v) :: rest)
      (known : r.underWay.lookup id = some (first, second))
      (put : ((if v.isFull then store.put first second v else pure (.ok ())) :
        StateM σ (Except StoreFault Unit)).run s = (kept, s')) :
      Acted store r s (({ r with channel := rest }.warn kept).collect id
        (.computed first second v)) s'
  | conclude {saved : Except StoreFault Unit} {s' : σ} (next : r.next = .conclude)
      (flushed : store.flush.run s = (saved, s')) : Acted store r s (r.conclude saved) s'

theorem run_act_lookUp {job : Job} (h : r.next = .lookUp job) : (r.act store).run s =
    (fun x => (.ok (r.answer job x.1), x.2))
      ((store.get job.first.identity job.second.identity).run s) := by
  rw [act, h]
  rfl

theorem run_act_conclude (h : r.next = .conclude) :
    (r.act store).run s = (fun x => (.ok (r.conclude x.1), x.2)) (store.flush.run s) := by
  rw [act, h]
  rfl

theorem run_receive_started {id : Nat} {rest : List Message} (h : r.channel = .started id :: rest) :
    (r.receive store).run s =
      (.ok { r with channel := rest, states := r.states.setIfInBounds id .running }, s) := by
  rw [receive, h]
  rfl

theorem run_receive_finished {id : Nat} {result : Except PairFault Verdict} {rest : List Message}
    {first second : Identity} (h : r.channel = .finished id result :: rest)
    (known : r.underWay.lookup id = some (first, second)) :
    (r.receive store).run s = (fun x => (.ok x.1, x.2))
      ((receiveResult store { r with channel := rest } id first second result).run s) := by
  rw [receive, h]
  simp only [known]
  rfl

theorem run_receiveResult_ok (id : Nat) (first second : Identity) (v : Verdict) :
    (receiveResult store r id first second (.ok v)).run s =
      (fun x => ((r.warn x.1).collect id (.computed first second v), x.2))
        (((if v.isFull then store.put first second v else pure (.ok ())) :
          StateM σ (Except StoreFault Unit)).run s) := by
  simp only [receiveResult]
  split <;> rfl

theorem ok_inj {ε α τ : Type} {a b : α} {t u : τ} (h : ((.ok a, t) : Except ε α × τ) = (.ok b, u)) :
    a = b ∧ t = u := by
  obtain ⟨ha, ht⟩ := Prod.mk.inj h
  exact ⟨Except.ok.inj ha, ht⟩

/-- A message that does not break the run off is a start, a failure or a verdict. -/
theorem acted_of_receive {r' : Run} {s' : σ} (hnext : r.next = .receive)
    (h : (r.receive store).run s = (.ok r', s')) : Acted store r s r' s' := by
  cases hchannel : r.channel with
  | nil =>
      rw [receive, hchannel] at h
      cases congrArg Prod.fst h
  | cons m rest =>
      cases m with
      | started id =>
          rw [run_receive_started hchannel] at h
          obtain ⟨rfl, rfl⟩ := ok_inj h
          exact .start hnext hchannel
      | finished id result =>
          cases hknown : r.underWay.lookup id with
          | none =>
              rw [receive, hchannel] at h
              simp only [hknown] at h
              cases congrArg Prod.fst h
          | some identities =>
              obtain ⟨first, second⟩ := identities
              rw [run_receive_finished hchannel hknown] at h
              obtain ⟨rfl, rfl⟩ := ok_inj h
              cases result with
              | error f => exact .fail hnext hchannel hknown
              | ok v =>
                  rw [run_receiveResult_ok]
                  exact .compute hnext hchannel hknown rfl

/-- An act that does not break off is one of those listed. -/
theorem acted_of_run {r' : Run} {s' : σ} (hrunning : r.ended = false)
    (h : (r.act store).run s = (.ok r', s')) : Acted store r s r' s' := by
  have hspec := r.next_spec
  cases hnext : r.next with
  | cancel job =>
      rw [act, hnext] at h
      obtain ⟨rfl, rfl⟩ := ok_inj h
      exact .cancel hnext
  | lookUp job =>
      rw [run_act_lookUp hnext] at h
      obtain ⟨rfl, rfl⟩ := ok_inj h
      exact .lookUp hnext rfl
  | submit job =>
      rw [act, hnext] at h
      obtain ⟨rfl, rfl⟩ := ok_inj h
      exact .submit hnext
  | receive =>
      rw [act, hnext] at h
      exact acted_of_receive hnext h
  | conclude =>
      rw [run_act_conclude hnext] at h
      obtain ⟨rfl, rfl⟩ := ok_inj h
      exact .conclude hnext rfl
  | rest =>
      rw [hnext, hrunning] at hspec
      cases hspec

theorem run_of_acted {r' : Run} {s' : σ} (h : Acted store r s r' s') :
    (r.act store).run s = (.ok r', s') := by
  cases h with
  | cancel next =>
      rw [act, next]
      rfl
  | lookUp next got => rw [run_act_lookUp next, got]
  | submit next =>
      rw [act, next]
      rfl
  | start next channel =>
      rw [act, next]
      exact run_receive_started channel
  | fail next channel known =>
      rw [act, next]
      exact run_receive_finished channel known
  | compute next channel known put =>
      rw [act, next]
      refine (run_receive_finished channel known).trans ?_
      rw [run_receiveResult_ok, put]
  | conclude next flushed => rw [run_act_conclude next, flushed]

/-- The coordinator breaks off only when it waits or hears of a job that is not under way. -/
theorem exists_run_act (hawake : r.isWaiting = false)
    (hknown : ∀ id result rest, r.channel = .finished id result :: rest →
      (r.underWay.lookup id).isSome) : ∃ r' s', (r.act store).run s = (.ok r', s') := by
  cases hnext : r.next with
  | cancel job => exact ⟨_, _, by rw [act, hnext]; rfl⟩
  | lookUp job => exact ⟨_, _, run_act_lookUp hnext⟩
  | submit job => exact ⟨_, _, by rw [act, hnext]; rfl⟩
  | receive =>
      rw [act, hnext]
      cases hchannel : r.channel with
      | nil => simp [isWaiting, hnext, hchannel] at hawake
      | cons m rest =>
          cases m with
          | started id => exact ⟨_, _, run_receive_started hchannel⟩
          | finished id result =>
              obtain ⟨⟨first, second⟩, hfound⟩ :=
                Option.isSome_iff_exists.mp (hknown id result rest hchannel)
              exact ⟨_, _, run_receive_finished hchannel hfound⟩
  | conclude => exact ⟨_, _, run_act_conclude hnext⟩
  | rest => exact ⟨_, _, by rw [act, hnext]; rfl⟩

/-! ### Nearer the end -/

theorem rank_eq (r : Run) : r.rank =
    6 * r.waiting.length + (if r.held.isSome then 5 else 0) + (r.pool.map Task.rank).sum +
      r.channel.length + (if r.ended then 0 else 1) := by
  rw [rank, List.sum_eq_foldr, List.foldr_map]
  rfl

theorem rank_moveOn {job : Job} {rest : List Job} (h : r.ahead = job :: rest) :
    r.moveOn.rank + 5 ≤ r.rank := by
  rw [moveOn_eq, rank_eq, rank_eq]
  cases hheld : r.held with
  | some _ =>
      simp only [Option.isSome_some, Option.isSome_none, Bool.false_eq_true, if_true, if_false]
      omega
  | none =>
      have hwaiting : r.waiting = job :: rest := by simpa [ahead, hheld] using h
      simp only [hwaiting, Option.isSome_none, Bool.false_eq_true, if_false, List.tail_cons,
        List.length_cons]
      omega

theorem rank_receive {m : Message} {rest : List Message} (h : r.channel = m :: rest) :
    { r with channel := rest }.rank < r.rank := by
  rw [rank_eq, rank_eq, h]
  simp

theorem Acted.rank_lt (hrunning : r.ended = false) {r' : Run} {s' : σ} (h : Acted store r s r' s') :
    r'.rank < r.rank := by
  have hspec := r.next_spec
  cases h with
  | cancel next =>
      rw [next] at hspec
      obtain ⟨-, rest, hahead⟩ := hspec
      have hless := rank_moveOn hahead
      change r.moveOn.rank < r.rank
      omega
  | @lookUp job answer s' next got =>
      rw [next] at hspec
      obtain ⟨hheld, rest, hwaiting⟩ := hspec
      cases answer with
      | none =>
          rw [answer_none_eq hheld, rank_eq, rank_eq]
          simp [hheld, hwaiting]
          omega
      | some v =>
          have hahead : r.ahead = job :: rest := by simp [ahead, hheld, hwaiting]
          have hless := rank_moveOn hahead
          change r.moveOn.rank < r.rank
          omega
  | submit next =>
      rw [next] at hspec
      rw [submitJob_eq hspec.1, rank_eq, rank_eq]
      simp [hspec.1, Task.rank]
      omega
  | start next channel => exact rank_receive channel
  | fail next channel known => exact rank_receive channel
  | compute next channel known put =>
      rw [warn_eq]
      exact rank_receive channel
  | conclude next flushed =>
      rw [Run.conclude, warn_eq, rank_eq, rank_eq, hrunning]
      simp

theorem rank_speak {before after : List Task} {t : Task} (hpool : r.pool = before ++ t :: after) :
    (r.speak compare before t after).rank < r.rank := by
  unfold speak
  split
  next hstarted =>
    rw [rank_eq, rank_eq, hpool]
    simp [Task.rank, hstarted]
    omega
  next hstarted =>
    rw [rank_eq, rank_eq, hpool]
    simp [Task.rank, hstarted]
    omega

/-- Every step but raising the flag brings a run nearer its end. -/
theorem Step.rank_lt {r' : Run} {s' : σ} (h : Step store compare (r, s) (r', s')) :
    r' = r.raise ∨ r'.rank < r.rank := by
  cases h with
  | act awake running acts => exact .inr ((acted_of_run running acts).rank_lt running)
  | speak pool => exact .inr (rank_speak pool)
  | raise => exact .inl rfl

/-! ### Runs with so many workers -/

/-- A step after which no more tasks are started and unfinished than there are workers. -/
def StepWith (workers : Nat) (store : VerdictStore (StateM σ))
    (compare : Job → Except PairFault Verdict) (x y : Run × σ) : Prop :=
  Step store compare x y ∧ y.1.busy ≤ workers

/-- Some steps later. -/
abbrev Reaches (workers : Nat) (store : VerdictStore (StateM σ))
    (compare : Job → Except PairFault Verdict) : Run × σ → Run × σ → Prop :=
  Relation.ReflTransGen (StepWith workers store compare)

end Run

end Likeness.Batch
