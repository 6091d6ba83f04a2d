import Likeness.Proofs.Batch.Results
import Likeness.Proofs.Batch.Status

/-!
# Likeness.Proofs.Batch.Cancellation

What becomes of the jobs of a run whose flag for cancelling goes up.

A run is recorded: each job that is served from the store, handed out, cancelled or collected makes
an event (`Run.Recorded`). The record agrees with the books (`Run.Recorded.agrees`): the events about
a job are those of its phase, and the jobs that the coordinator is done looking at are, in order, the
plan without the jobs ahead. Once a job was cancelled the flag stays up and no job is held, so all
jobs after it are cancelled too.
-/

namespace Likeness

namespace Batch

/-- What the coordinator does about a job. -/
inductive Event where
  /-- The store has a verdict for the job. -/
  | served (job : Job) (v : Verdict)
  /-- The job goes to the pool. -/
  | handed (job : Job)
  /-- The coordinator has seen the flag. -/
  | cancelled (job : Job)
  /-- The result of a worker comes in. -/
  | collected (id : Nat) (result : Except PairFault Verdict)

namespace Event

/-- The id of the job that an event is about. -/
def id : Event → Nat
  | .served job _ | .handed job | .cancelled job => job.id
  | .collected id _ => id

/-- The job that the coordinator is done looking at. -/
def dealt? : Event → Option Job
  | .served job _ | .handed job | .cancelled job => some job
  | .collected _ _ => none

def isCancelled : Event → Bool
  | .cancelled _ => true
  | _ => false

/-- Once a job was cancelled, the coordinator only cancels and collects. -/
def Obeys (e e' : Event) : Prop :=
  e.isCancelled = true → ∀ job, e'.dealt? = some job → e' = .cancelled job

end Event

/-- Whether a job was cancelled. -/
def Outcome.isCancelled : Outcome → Bool
  | .failed f => f.kind = .cancelled
  | _ => false

/-- A job that was compared does not end as cancelled. -/
theorem Job.isCancelled_outcomeOf (f : Job → Comparison) (job : Job) :
    (job.outcomeOf (judge f job)).isCancelled = false := by
  unfold judge
  cases f job <;> rfl

/-- What is recorded of a job in a phase. -/
inductive Phase.Told (compare : Job → Except PairFault Verdict) (job : Job) :
    Phase → List Event → Prop where
  | ahead : Told compare job .ahead []
  | scheduled : Told compare job .scheduled [.handed job]
  | running : Told compare job .running [.handed job]
  | served (v : Verdict) : Told compare job
      (.ended (.cached job.first.identity job.second.identity v)) [.served job v]
  | cancelled : Told compare job (.ended (.failed (Run.cancellation job))) [.cancelled job]
  | collected : Told compare job (.ended (job.outcomeOf (compare job)))
      [.handed job, .collected job.id (compare job)]

/-- There is one event at which the coordinator is done looking at a job. -/
theorem Phase.Told.eq_of_dealt {compare : Job → Except PairFault Verdict} {job : Job} {p : Phase}
    {es : List Event} (h : Told compare job p es) {e e' : Event} (he : e ∈ es) (he' : e' ∈ es)
    (hdealt : e.dealt?.isSome) (hdealt' : e'.dealt?.isSome) : e = e' := by
  cases h with
  | ahead => cases he
  | scheduled | running | served | cancelled => simp_all
  | collected =>
      have hhanded {e : Event} (he : e ∈ [.handed job, .collected job.id (compare job)])
          (hdealt : e.dealt?.isSome) : e = .handed job := by
        rcases List.mem_pair.mp he with rfl | rfl
        · rfl
        · cases hdealt
      rw [hhanded he hdealt, hhanded he' hdealt']

theorem Event.mem_iff {events : List Event} {e : Event} (job : Job) (hid : e.id = job.id) :
    e ∈ events ↔ e ∈ events.filter (·.id = job.id) := by
  simp [hid]

/-- Of a job that has ended: it was cancelled just when it was neither served nor handed out, and if
it was handed out, its result was collected. -/
theorem Phase.Told.of_ended {f : Job → Comparison} {job : Job} {o : Outcome} {events : List Event}
    (h : Told (judge f) job (.ended o) (events.filter (·.id = job.id))) :
    (o.isCancelled = true ↔ .cancelled job ∈ events) ∧
      (o.isCancelled = true ↔ .handed job ∉ events ∧ ∀ v, .served job v ∉ events) ∧
      (o.isCancelled = true → o = .failed (Run.cancellation job)) ∧
      (.handed job ∈ events → o = job.outcomeOf (judge f job) ∧
        events.filter (·.id = job.id) = [.handed job, .collected job.id (judge f job)]) := by
  have hserved (v : Verdict) : .served job v ∈ events ↔ _ := Event.mem_iff job rfl
  have hhanded : .handed job ∈ events ↔ _ := Event.mem_iff job rfl
  have hcancelled : .cancelled job ∈ events ↔ _ := Event.mem_iff job rfl
  rw [hhanded, hcancelled, forall_congr' fun v => not_congr (hserved v)]
  generalize events.filter (·.id = job.id) = es at h
  cases h with
  | served v => simp [Outcome.isCancelled]
  | cancelled => simp [Outcome.isCancelled, Run.cancellation]
  | collected => simp [Job.isCancelled_outcomeOf]

namespace Run

/-! ### Records -/

section

variable {σ : Type}

/-- The event of the next act of the coordinator, if it makes one. -/
def event? (store : VerdictStore (StateM σ)) (r : Run) (s : σ) : Option Event :=
  match r.next with
  | .cancel job => some (.cancelled job)
  | .lookUp job => ((store.get job.first.identity job.second.identity).run s).1.map (.served job)
  | .submit job => some (.handed job)
  | .receive =>
    match r.channel with
    | .finished id result :: _ => some (.collected id result)
    | _ => none
  | .conclude | .rest => none

/-- The runs that may come after a run, with the events on the way. -/
inductive Recorded (workers : Nat) (store : VerdictStore (StateM σ))
    (compare : Job → Except PairFault Verdict) (x : Run × σ) : List Event → Run × σ → Prop where
  | start : Recorded workers store compare x [] x
  | act {events : List Event} {r r' : Run} {s s' : σ}
      (before : Recorded workers store compare x events (r, s)) (awake : r.isWaiting = false)
      (running : r.ended = false) (acts : (r.act store).run s = (.ok r', s'))
      (busy : r'.busy ≤ workers) :
      Recorded workers store compare x (events ++ (r.event? store s).toList) (r', s')
  | speak {events : List Event} {r : Run} {s : σ} {ahead after : List Task} {t : Task}
      (before : Recorded workers store compare x events (r, s)) (pool : r.pool = ahead ++ t :: after)
      (busy : (r.speak compare ahead t after).busy ≤ workers) :
      Recorded workers store compare x events (r.speak compare ahead t after, s)
  | raise {events : List Event} {r : Run} {s : σ}
      (before : Recorded workers store compare x events (r, s)) (busy : r.raise.busy ≤ workers) :
      Recorded workers store compare x events (r.raise, s)

end

variable {σ : Type} {store : VerdictStore (StateM σ)} {compare : Job → Except PairFault Verdict}
  {plan : Plan} {limit workers : Nat} {r : Run} {s : σ} {phases : Nat → Phase} {events : List Event}
  {x y : Run × σ}

theorem Recorded.reaches (h : Recorded workers store compare x events y) :
    Reaches workers store compare x y := by
  induction h with
  | start => exact .refl
  | act _ awake running acts busy ih => exact ih.tail ⟨.act awake running acts, busy⟩
  | speak _ pool busy ih => exact ih.tail ⟨.speak pool, busy⟩
  | raise _ busy ih => exact ih.tail ⟨.raise, busy⟩

theorem Recorded.acted {r' : Run} {s' : σ} {e : Option Event}
    (before : Recorded workers store compare x events (r, s)) (acted : Acted store r s r' s')
    (awake : r.isWaiting = false) (running : r.ended = false) (said : r.event? store s = e)
    (busy : r'.busy ≤ workers) : Recorded workers store compare x (events ++ e.toList) (r', s') :=
  said ▸ before.act awake running (run_of_acted acted) busy

theorem Recorded.speakFirst {t : Task} {after : List Task}
    (before : Recorded workers store compare x events (r, s)) (pool : r.pool = t :: after)
    (busy : (r.speak compare [] t after).busy ≤ workers) :
    Recorded workers store compare x events (r.speak compare [] t after, s) :=
  before.speak (show r.pool = [] ++ t :: after from pool) busy

theorem event?_of_lookUp {job : Job} {answer : Option Verdict} {s' : σ} (next : r.next = .lookUp job)
    (got : (store.get job.first.identity job.second.identity).run s = (answer, s')) :
    r.event? store s = answer.map (.served job) := by
  simp only [event?, next]
  rw [got]

/-- Every run can be recorded. -/
theorem exists_recorded (h : Reaches workers store compare x y) :
    ∃ events, Recorded workers store compare x events y := by
  induction h with
  | refl => exact ⟨[], .start⟩
  | @tail y z _ hstep ih =>
      obtain ⟨events, hrecorded⟩ := ih
      obtain ⟨hstep, busy⟩ := hstep
      cases hstep with
      | act awake running acts => exact ⟨_, hrecorded.act awake running acts busy⟩
      | speak pool => exact ⟨_, hrecorded.speak pool busy⟩
      | raise => exact ⟨_, hrecorded.raise busy⟩

/-! ### The record and the books -/

/-- The record agrees with the phases of the jobs and with the jobs ahead. -/
structure Agrees (plan : Plan) (compare : Job → Except PairFault Verdict) (r : Run)
    (phases : Nat → Phase) (events : List Event) : Prop where
  told : ∀ job ∈ plan.jobs, Phase.Told compare job (phases job.id) (events.filter (·.id = job.id))
  dealt : events.filterMap Event.dealt? ++ r.ahead = plan.jobs.toList
  obeys : events.Pairwise Event.Obeys
  seen : ∀ e ∈ events, e.isCancelled = true → r.cancelled = true ∧ r.held = none
  planned : ∀ e ∈ events, ∃ job ∈ plan.jobs, job.id = e.id

theorem agrees_start (plan : Plan) (compare : Job → Except PairFault Verdict) (limit : Nat) :
    Agrees plan compare (start plan limit) (fun _ => .ahead) [] where
  told _ _ := .ahead
  dealt := rfl
  obeys := .nil
  seen _ he := by cases he
  planned _ he := by cases he

/-- No event is added while only the phase of a job may move on. -/
theorem Agrees.frame (h : Agrees plan compare r phases events) {r' : Run} {phases' : Nat → Phase}
    (hphases : ∀ job ∈ plan.jobs, ∀ es, Phase.Told compare job (phases job.id) es →
      Phase.Told compare job (phases' job.id) es)
    (hahead : r'.ahead = r.ahead)
    (hflag : r.cancelled = true → r.held = none → r'.cancelled = true ∧ r'.held = none) :
    Agrees plan compare r' phases' events where
  told job hjob := hphases job hjob _ (h.told job hjob)
  dealt := hahead ▸ h.dealt
  obeys := h.obeys
  seen e he hcancelled := by
    obtain ⟨hflagged, hheld⟩ := h.seen e he hcancelled
    exact hflag hflagged hheld
  planned := h.planned

/-- One event is added, about a job that moves on. -/
theorem Agrees.record (h : Agrees plan compare r phases events) (hplan : plan.Tidy) {r' : Run}
    {job : Job} (hjob : job ∈ plan.jobs) {p q : Phase} (hphase : phases job.id = p) {e : Event}
    (hid : e.id = job.id)
    (htold : ∀ es, Phase.Told compare job p es → Phase.Told compare job q (es ++ [e]))
    (hdealt : e.dealt?.toList ++ r'.ahead = r.ahead)
    (hobeys : ∀ e' ∈ events, e'.Obeys e)
    (hseen : ∀ e' ∈ events ++ [e], e'.isCancelled = true → r'.cancelled = true ∧ r'.held = none) :
    Agrees plan compare r' (Function.update phases job.id q) (events ++ [e]) where
  told other hother := by
    rw [List.filter_append]
    by_cases hsame : other.id = job.id
    · obtain rfl := hplan.eq_of_id_eq hother hjob hsame
      rw [Function.update_self, List.filter_cons_of_pos (by simp [hid]), List.filter_nil]
      exact htold _ (hphase ▸ h.told other hother)
    · rw [Function.update_of_ne hsame, List.filter_cons_of_neg (by simp [hid, Ne.symm hsame]),
        List.filter_nil, List.append_nil]
      exact h.told other hother
  dealt := by
    have hlast : [e].filterMap Event.dealt? = e.dealt?.toList := by
      cases hd : e.dealt? <;> simp [hd]
    rw [List.filterMap_append, hlast, List.append_assoc, hdealt]
    exact h.dealt
  obeys := by
    refine List.pairwise_append.mpr ⟨h.obeys, List.pairwise_singleton _ _, fun e' he' _ hlast => ?_⟩
    obtain rfl := List.mem_singleton.mp hlast
    exact hobeys e' he'
  seen := hseen
  planned e' he' := by
    rcases List.mem_append.mp he' with he' | he'
    · exact h.planned e' he'
    · rw [List.mem_singleton.mp he']
      exact ⟨job, hjob, hid.symm⟩

/-- Before anything is cancelled, an event is added that is not a cancellation either. -/
theorem Agrees.recordBefore (h : Agrees plan compare r phases events) (hplan : plan.Tidy) {r' : Run}
    {job : Job} (hjob : job ∈ plan.jobs) {p q : Phase} (hphase : phases job.id = p) {e : Event}
    (hid : e.id = job.id)
    (htold : ∀ es, Phase.Told compare job p es → Phase.Told compare job q (es ++ [e]))
    (hdealt : e.dealt?.toList ++ r'.ahead = r.ahead)
    (hnone : ∀ e' ∈ events, e'.isCancelled = false) (hother : e.isCancelled = false) :
    Agrees plan compare r' (Function.update phases job.id q) (events ++ [e]) := by
  refine h.record hplan hjob hphase hid htold hdealt (fun e' he' hseen => ?_) fun e' he' hseen => ?_
  · rw [hnone e' he'] at hseen
    cases hseen
  · rcases List.mem_append.mp he' with he' | he'
    · rw [hnone e' he'] at hseen
      cases hseen
    · rw [List.mem_singleton.mp he', hother] at hseen
      cases hseen

/-- While the flag is down or a job is held, nothing was cancelled. -/
theorem Agrees.isCancelled_eq_false (h : Agrees plan compare r phases events)
    (hopen : r.cancelled = true → r.held ≠ none) : ∀ e ∈ events, e.isCancelled = false := by
  refine fun e he => Bool.eq_false_iff.mpr fun hcancelled => ?_
  obtain ⟨hflag, hfree⟩ := h.seen e he hcancelled
  exact hopen hflag hfree

/-- The coordinator only looks a job up while it has not seen the flag. -/
theorem cancelled_of_lookUp {job : Job} (h : r.next = .lookUp job) : r.cancelled = false := by
  by_contra hflag
  unfold next at h
  simp only [Bool.not_eq_false] at hflag
  repeat' split at h
  all_goals cases h

/-! ### One act at a time -/

/-- The next job is cancelled. -/
theorem Agrees.cancelJob (h : Agrees plan compare r phases events) (hplan : plan.Tidy) {job : Job}
    (hjob : job ∈ plan.jobs) (hphase : phases job.id = .ahead) {rest : List Job}
    (hahead : r.ahead = job :: rest) (hflag : r.cancelled = true) :
    Agrees plan compare (r.cancelJob job)
      (Function.update phases job.id (.ended (.failed (cancellation job))))
      (events ++ [.cancelled job]) := by
  refine h.record hplan hjob hphase rfl (fun es hes => ?_) ?_ ?_ fun e _ _ => ?_
  · cases hes
    exact .cancelled
  · rw [Run.cancelJob, ahead_settle, ahead_moveOn, hahead]
    rfl
  · rintro e - - other ⟨⟩
    rfl
  · rw [Run.cancelJob, moveOn_eq]
    exact ⟨hflag, rfl⟩

/-- The store answers for the next job, which is served or held. -/
theorem Agrees.answer (h : Agrees plan compare r phases events) (hplan : plan.Tidy) {job : Job}
    (hjob : job ∈ plan.jobs) (hphase : phases job.id = .ahead) {rest : List Job}
    (hfree : r.held = none) (hwaiting : r.waiting = job :: rest) (hflag : r.cancelled = false) :
    ∀ answer : Option Verdict, Agrees plan compare (r.answer job answer)
      (answer.elim phases fun v => Function.update phases job.id
        (.ended (.cached job.first.identity job.second.identity v)))
      (events ++ (answer.map (.served job)).toList)
  | none => by
      have hahead : (r.answer job none).ahead = r.ahead := by
        simp [answer_none_eq hfree, Run.ahead, hfree, hwaiting]
      rw [Option.map_none, Option.toList_none, List.append_nil]
      refine h.frame (fun _ _ _ hes => hes) hahead fun hraised => ?_
      rw [hflag] at hraised
      cases hraised
  | some v => by
      have hahead : r.ahead = job :: rest := by simp [Run.ahead, hfree, hwaiting]
      have hnone := h.isCancelled_eq_false fun hraised => by
        rw [hflag] at hraised
        cases hraised
      refine h.recordBefore hplan hjob hphase rfl (fun es hes => ?_) ?_ hnone rfl
      · cases hes
        exact .served v
      · rw [Run.answer, ahead_settle, ahead_moveOn, hahead]
        rfl

/-- The job held is handed out. -/
theorem Agrees.submitJob (h : Agrees plan compare r phases events) (hplan : plan.Tidy) {job : Job}
    (hjob : job ∈ plan.jobs) (hphase : phases job.id = .ahead) (hheld : r.held = some job)
    (hahead : r.ahead = job :: r.waiting) :
    Agrees plan compare (r.submitJob job) (Function.update phases job.id .scheduled)
      (events ++ [.handed job]) := by
  have hnone := h.isCancelled_eq_false fun _ => by
    rw [hheld]
    exact Option.some_ne_none job
  refine h.recordBefore hplan hjob hphase rfl (fun es hes => ?_) ?_ hnone rfl
  · cases hes
    exact .scheduled
  · rw [submitJob_eq hheld, hahead]
    rfl

/-- A worker has started a job, of which nothing is recorded. -/
theorem Agrees.start (h : Agrees plan compare r phases events) (hplan : plan.Tidy) {job : Job}
    (hjob : job ∈ plan.jobs) (hphase : phases job.id = .scheduled) (rest : List Message)
    (states : Array JobState) :
    Agrees plan compare { r with channel := rest, states := states }
      (Function.update phases job.id .running) events := by
  refine h.frame (fun other hother es hes => ?_) rfl fun hflag hheld => ⟨hflag, hheld⟩
  by_cases hsame : other.id = job.id
  · obtain rfl := hplan.eq_of_id_eq hother hjob hsame
    rw [hphase] at hes
    rw [Function.update_self]
    cases hes
    exact .running
  · rwa [Function.update_of_ne hsame]

/-- A result comes in. -/
theorem Agrees.collect (h : Agrees plan compare r phases events) (hplan : plan.Tidy) {job : Job}
    (hjob : job ∈ plan.jobs) (hphase : phases job.id = .running)
    {result : Except PairFault Verdict} (hresult : compare job = result) (rest : List Message)
    (warnings : List String) :
    Agrees plan compare
      ({ r with channel := rest, warnings := warnings }.collect job.id (job.outcomeOf result))
      (Function.update phases job.id (.ended (job.outcomeOf result)))
      (events ++ [.collected job.id result]) := by
  subst hresult
  refine h.record hplan hjob hphase rfl (fun es hes => ?_) rfl ?_ fun e he hseen => ?_
  · cases hes
    exact .collected
  · rintro e - - other ⟨⟩
  · rcases List.mem_append.mp he with he | he
    · exact h.seen e he hseen
    · rw [List.mem_singleton.mp he] at hseen
      cases hseen

/-- An act of the coordinator keeps the record in agreement with the books. -/
theorem Agrees.act (h : Agrees plan compare r phases events) (hplan : plan.Tidy) {r' : Run}
    {s s' : σ} {phases' : Nat → Phase}
    (hbooked : Booked plan compare store phases r s r' s' phases') :
    Agrees plan compare r' phases' (events ++ (r.event? store s).toList) := by
  cases hbooked with
  | @cancel job rest next planned phase ahead flag =>
      have hevent : r.event? store s = some (.cancelled job) := by rw [event?, next]
      rw [hevent]
      exact h.cancelJob hplan planned phase ahead flag
  | @lookUp job rest answer s' next planned phase ahead free waiting got =>
      rw [event?_of_lookUp next got]
      exact h.answer hplan planned phase free waiting (cancelled_of_lookUp next) answer
  | @submit job next planned phase ahead held =>
      have hevent : r.event? store s = some (.handed job) := by rw [event?, next]
      rw [hevent]
      exact h.submitJob hplan planned phase held ahead
  | @start job rest next planned phase channel =>
      have hevent : r.event? store s = none := by simp only [event?, next, channel]
      rw [hevent, Option.toList_none, List.append_nil]
      exact h.start hplan planned phase rest _
  | @fail job f rest next planned phase compared channel =>
      have hevent : r.event? store s = some (.collected job.id (.error f)) := by
        simp only [event?, next, channel]
      rw [hevent]
      exact h.collect hplan planned phase compared rest r.warnings
  | @compute job v rest kept s' next planned phase compared channel put =>
      have hevent : r.event? store s = some (.collected job.id (.ok v)) := by
        simp only [event?, next, channel]
      rw [hevent]
      exact h.collect hplan planned phase compared rest _
  | @conclude saved s' next idle flushed =>
      have hevent : r.event? store s = none := by rw [event?, next]
      rw [hevent, Option.toList_none, List.append_nil, Run.conclude, warn_eq]
      exact h.frame (fun _ _ _ hes => hes) rfl fun hflag hheld => ⟨hflag, hheld⟩

theorem Recorded.agrees (hplan : plan.Tidy)
    (hpaths : ∀ job : Job, (job.outcomeOf (compare job)).paths = job.paths) {s₀ : σ} {y : Run × σ}
    (h : Recorded workers store compare (Run.start plan limit, s₀) events y) :
    ∃ phases, Tracks plan compare limit y.1 phases ∧ Agrees plan compare y.1 phases events := by
  induction h with
  | start => exact ⟨_, tracks_start hplan compare limit, agrees_start plan compare limit⟩
  | act _ awake running acts busy ih =>
      obtain ⟨phases, htracks, hagrees⟩ := ih
      obtain ⟨phases', hbooked, htracks'⟩ :=
        htracks.booked hplan hpaths running (acted_of_run running acts)
      exact ⟨phases', htracks', hagrees.act hplan hbooked⟩
  | speak _ pool busy ih =>
      obtain ⟨phases, htracks, hagrees⟩ := ih
      refine ⟨phases, htracks.speak pool, hagrees.frame (fun _ _ _ hes => hes) ?_ ?_⟩
      · unfold Run.speak
        split <;> rfl
      · unfold Run.speak
        split <;> exact fun hflag hheld => ⟨hflag, hheld⟩
  | raise _ busy ih =>
      obtain ⟨phases, htracks, hagrees⟩ := ih
      exact ⟨phases, htracks.raise,
        hagrees.frame (fun _ _ _ hes => hes) rfl fun _ hheld => ⟨rfl, hheld⟩⟩

/-! ### What a job comes to -/

/-- A run that has ended knows of each job one of three endings. -/
theorem Agrees.ended (h : Agrees plan compare r phases events)
    (htracks : Tracks plan compare limit r phases) (hended : r.ended = true) {job : Job}
    (hjob : job ∈ plan.jobs) : ∃ o, r.outcomes[job.id]? = some (some o) ∧ phases job.id = .ended o ∧
      Phase.Told compare job (.ended o) (events.filter (·.id = job.id)) := by
  obtain ⟨o, hphase⟩ := htracks.exists_outcome hended hjob
  have houtcome := (htracks.entry job hjob).outcome
  have htold := h.told job hjob
  rw [hphase] at houtcome htold
  exact ⟨o, houtcome, hphase, htold⟩

/-- If every member after one with a property has it, those with it are a suffix. -/
theorem exists_suffix_of_pairwise {p : α → Bool} {as : List α}
    (h : as.Pairwise fun a b => p a = true → p b = true) : ∃ kept dropped, as = kept ++ dropped ∧
      (∀ a ∈ kept, p a = false) ∧ ∀ a ∈ dropped, p a = true := by
  induction as with
  | nil => exact ⟨[], [], rfl, List.forall_mem_nil _, List.forall_mem_nil _⟩
  | cons a as ih =>
      obtain ⟨hfirst, hrest⟩ := List.pairwise_cons.mp h
      cases ha : p a with
      | true =>
          exact ⟨[], a :: as, rfl, List.forall_mem_nil _,
            List.forall_mem_cons.mpr ⟨ha, fun b hb => hfirst b hb ha⟩⟩
      | false =>
          obtain ⟨kept, dropped, rfl, hkept, hdropped⟩ := ih hrest
          exact ⟨a :: kept, dropped, rfl, List.forall_mem_cons.mpr ⟨ha, hkept⟩, hdropped⟩

/-- In a run that has ended, the jobs that were cancelled are a suffix of the plan. -/
theorem Agrees.exists_dropped {f : Job → Comparison} (h : Agrees plan (judge f) r phases events)
    (htracks : Tracks plan (judge f) limit r phases) (hended : r.ended = true) :
    ∃ kept dropped, plan.jobs.toList = kept ++ dropped ∧
      (∀ job ∈ kept, .cancelled job ∉ events) ∧ ∀ job ∈ dropped, .cancelled job ∈ events := by
  classical
  have hplanned : events.filterMap Event.dealt? = plan.jobs.toList := by
    rw [← h.dealt, (htracks.tally.closed hended).1, List.append_nil]
  -- The jobs are those of the events, in order, and an event after that of a cancelled job obeys.
  have hpairwise : plan.jobs.toList.Pairwise fun job job' =>
      decide (.cancelled job ∈ events) = true → decide (.cancelled job' ∈ events) = true := by
    rw [← hplanned, List.pairwise_filterMap]
    refine h.obeys.imp_of_mem fun {e e'} he he' hobeys job hjob job' hjob' hcancelled => ?_
    have hcancelled := of_decide_eq_true hcancelled
    have hmem : job ∈ plan.jobs :=
      Array.mem_toList_iff.mp (hplanned ▸ List.mem_filterMap.mpr ⟨e, he, hjob⟩)
    have hid : e.id = job.id := by cases e <;> cases hjob <;> rfl
    obtain rfl : e = .cancelled job := (h.told job hmem).eq_of_dealt
      ((Event.mem_iff job hid).mp he) ((Event.mem_iff job rfl).mp hcancelled) (by rw [hjob]; rfl) rfl
    exact decide_eq_true (hobeys rfl job' hjob' ▸ he')
  obtain ⟨kept, dropped, hsplit, hkept, hdropped⟩ := exists_suffix_of_pairwise hpairwise
  exact ⟨kept, dropped, hsplit, fun job hjob => of_decide_eq_false (hkept job hjob),
    fun job hjob => of_decide_eq_true (hdropped job hjob)⟩

end Run

/-- A failure marks the status of its batch. -/
theorem Report.contains_of_failed {os : List Outcome} {f : PairFault} (h : .failed f ∈ os)
    (threshold : UInt8) : (ofOutcomes os threshold).status.contains .errorsOccurred = true :=
  (contains_iff (.inr rfl) os threshold).mpr ⟨_, h, rfl⟩

namespace Run

/-! ### Winding down -/

variable {σ : Type} {store : VerdictStore (StateM σ)}

/-- How a run goes on and ends, whenever its flag went up. -/
structure WindsDown (plan : Plan) (workers : Nat) (store : VerdictStore (StateM σ))
    (compare : Job → Except PairFault Verdict) (threshold : UInt8) (events : List Event) (r : Run)
    (s : σ) : Prop where
  /-- Jobs are only cancelled once the flag is up. -/
  flagged : ∀ job, .cancelled job ∈ events → r.cancelled = true
  /-- Once the flag was seen, no job is served or handed out. -/
  obeys : events.Pairwise Event.Obeys
  /-- What comes in is the result of the own comparison of a job that was handed out. -/
  collects : ∀ id result, .collected id result ∈ events →
    ∃ job ∈ plan.jobs, job.id = id ∧ result = compare job ∧ .handed job ∈ events
  /-- A job that was handed out stays under way until its result came in. -/
  underWay : ∀ job ∈ plan.jobs, .handed job ∈ events →
    .collected job.id (compare job) ∈ events ∨ (r.underWay.lookup job.id).isSome
  /-- A run that has not ended can go on, and comes nearer its end. -/
  unfinished : r.ended = false → 0 < workers →
    ∃ r' s', StepWith workers store compare (r, s) (r', s') ∧ r'.rank < r.rank
  /-- Nothing but raising the flag leaves it where it is. -/
  descends : ∀ r' s', Step store compare (r, s) (r', s') → r' = r.raise ∨ r'.rank < r.rank
  /-- By the end, all that was handed out has been collected, once, with its own result. -/
  drained : r.ended = true → ∀ job ∈ plan.jobs, .handed job ∈ events →
    events.filter (·.id = job.id) = [.handed job, .collected job.id (compare job)] ∧
      r.outcomes[job.id]? = some (some (job.outcomeOf (compare job)))
  /-- By then a job was cancelled if it was neither handed out nor served, and not otherwise. -/
  cancelled : r.ended = true → ∀ job ∈ plan.jobs, ∃ o, r.outcomes[job.id]? = some (some o) ∧
    (o.isCancelled = true ↔ .handed job ∉ events ∧ ∀ v, .served job v ∉ events)
  /-- The jobs that were cancelled are a suffix of the plan, and mark the status. -/
  suffix : r.ended = true → ∃ kept dropped settled, plan.jobs.toList = kept ++ dropped ∧
    (r.report threshold).outcomes =
      settled ++ dropped.map (fun job => .failed (cancellation job)) ∧
    settled.length = kept.length ∧ (∀ o ∈ settled, o.isCancelled = false) ∧
    (dropped ≠ [] → (r.report threshold).status.contains .errorsOccurred = true)

variable {plan : Plan} {limit workers : Nat} {r : Run} {s : σ} {phases : Nat → Phase}
  {events : List Event} {f : Job → Comparison}

/-- What is recorded of a job before its run has ended. -/
theorem Agrees.handed (h : Agrees plan (judge f) r phases events) {job : Job} (hjob : job ∈ plan.jobs)
    (hhanded : .handed job ∈ events) : phases job.id = .scheduled ∨ phases job.id = .running ∨
      .collected job.id (judge f job) ∈ events := by
  have htold := h.told job hjob
  rw [Event.mem_iff job rfl] at hhanded ⊢
  generalize events.filter (·.id = job.id) = es at htold hhanded
  generalize phases job.id = p at htold
  cases htold <;> simp_all

theorem Agrees.collected (h : Agrees plan (judge f) r phases events) {job : Job}
    (hjob : job ∈ plan.jobs) {result : Except PairFault Verdict}
    (hcollected : .collected job.id result ∈ events) :
    result = judge f job ∧ .handed job ∈ events := by
  have htold := h.told job hjob
  rw [Event.mem_iff job rfl] at hcollected ⊢
  generalize events.filter (·.id = job.id) = es at htold hcollected
  generalize phases job.id = p at htold
  cases htold <;> simp_all

/-- No act of the coordinator starts a task. -/
theorem Acted.busy_eq {r' : Run} {s' : σ} (h : Acted store r s r' s') : r'.busy = r.busy := by
  have hspec := r.next_spec
  cases h with
  | cancel next => rw [cancelJob, moveOn_eq]; rfl
  | @lookUp job answer s' next got =>
      rw [next] at hspec
      cases answer with
      | none => rw [answer_none_eq hspec.1]; rfl
      | some v => rw [Run.answer, moveOn_eq]; rfl
  | @submit job next =>
      rw [next] at hspec
      rw [submitJob_eq hspec.1]
      simp [busy]
  | start next channel => rfl
  | fail next channel known => rfl
  | compute next channel known put => rw [warn_eq]; rfl
  | conclude next flushed => rw [Run.conclude, warn_eq]; rfl

/-- A run that has not ended can go on. -/
theorem Tracks.exists_step {compare : Job → Except PairFault Verdict}
    (h : Tracks plan compare limit r phases) (hlimit : 0 < limit) (hworkers : 0 < workers)
    (hbusy : r.busy ≤ workers) (hrunning : r.ended = false) (s : σ) :
    ∃ r' s', StepWith workers store compare (r, s) (r', s') ∧ r'.rank < r.rank := by
  cases hwaiting : r.isWaiting with
  | true =>
      obtain ⟨before, t, after, hpool, hbusy'⟩ :=
        exists_speak compare hworkers hbusy (h.pool_ne_nil hlimit hwaiting)
      exact ⟨_, s, ⟨.speak hpool, hbusy'⟩, rank_speak hpool⟩
  | false =>
      have hact : ∃ r' s', (r.act store).run s = (.ok r', s') :=
        exists_run_act hwaiting fun _ _ _ hchannel => h.known hchannel
      obtain ⟨r', s', hact⟩ := hact
      have hacted := acted_of_run hrunning hact
      exact ⟨r', s', ⟨.act hwaiting hrunning hact, hacted.busy_eq.le.trans hbusy⟩,
        hacted.rank_lt hrunning⟩

theorem Agrees.suffix_of_ended (h : Agrees plan (judge f) r phases events)
    (htracks : Tracks plan (judge f) limit r phases) (hplan : plan.Tidy) (hended : r.ended = true)
    (threshold : UInt8) : ∃ kept dropped settled, plan.jobs.toList = kept ++ dropped ∧
      (r.report threshold).outcomes =
        settled ++ dropped.map (fun job => .failed (cancellation job)) ∧
      settled.length = kept.length ∧ (∀ o ∈ settled, o.isCancelled = false) ∧
      (dropped ≠ [] → (r.report threshold).status.contains .errorsOccurred = true) := by
  obtain ⟨kept, dropped, hsplit, hkept, hdropped⟩ := h.exists_dropped htracks hended
  let ending (job : Job) : Outcome := (phases job.id).outcome?.getD (.failed (cancellation job))
  have hending {job : Job} (hjob : job ∈ kept ++ dropped) : ∃ o, ending job = o ∧
      Phase.Told (judge f) job (.ended o) (events.filter (·.id = job.id)) := by
    obtain ⟨o, -, hphase, htold⟩ :=
      h.ended htracks hended (Array.mem_toList_iff.mp (hsplit ▸ hjob))
    exact ⟨o, by simp only [ending, hphase]; rfl, htold⟩
  have hreport : (r.report threshold).outcomes = kept.map ending ++ dropped.map ending := by
    have hmap := htracks.map_report hplan hended threshold (g := id) (k := ending)
      fun job _ o ho => by simp only [ending, ho]; rfl
    rwa [List.map_id, hsplit, List.map_append] at hmap
  have hcancelled : dropped.map ending = dropped.map fun job => .failed (cancellation job) := by
    refine List.map_congr_left fun job hjob => ?_
    obtain ⟨o, ho, htold⟩ := hending (List.mem_append_right _ hjob)
    obtain ⟨hiff, -, heq, -⟩ := htold.of_ended
    exact ho.trans (heq (hiff.mpr (hdropped job hjob)))
  refine ⟨kept, dropped, kept.map ending, hsplit, hcancelled ▸ hreport, List.length_map _, ?_, ?_⟩
  · intro o' ho'
    obtain ⟨job, hjob, rfl⟩ := List.mem_map.mp ho'
    obtain ⟨o, rfl, htold⟩ := hending (List.mem_append_left _ hjob)
    exact Bool.eq_false_iff.mpr fun hyes => hkept job hjob (htold.of_ended.1.mp hyes)
  · intro hne
    obtain ⟨job, hjob⟩ := List.exists_mem_of_ne_nil _ hne
    rw [status_report, hreport, hcancelled]
    exact Report.contains_of_failed (f := cancellation job)
      (List.mem_append_right _ (List.mem_map.mpr ⟨job, hjob, rfl⟩)) threshold

theorem Recorded.windsDown (hplan : plan.Tidy) (hlimit : 0 < limit) (threshold : UInt8) {s₀ s : σ}
    (hrun : Recorded workers store (judge f) (Run.start plan limit, s₀) events (r, s)) :
    WindsDown plan workers store (judge f) threshold events r s := by
  have hpaths (job : Job) := job.paths_outcomeOf_judge f
  obtain ⟨phases, htracks, hagrees⟩ := hrun.agrees hplan hpaths
  exact {
    flagged := fun job he => (hagrees.seen _ he rfl).1
    obeys := hagrees.obeys
    collects := fun id result he => by
      obtain ⟨job, hjob, rfl⟩ := hagrees.planned _ he
      obtain ⟨hresult, hhanded⟩ := hagrees.collected hjob he
      exact ⟨job, hjob, rfl, hresult, hhanded⟩
    underWay := fun job hjob hhanded => by
      rw [(htracks.entry job hjob).underWay]
      rcases hagrees.handed hjob hhanded with hphase | hphase | hcollected
      · exact .inr (by rw [hphase]; rfl)
      · exact .inr (by rw [hphase]; rfl)
      · exact .inl hcollected
    unfinished := fun hrunning hworkers =>
      htracks.exists_step hlimit hworkers (busy_le hrun.reaches) hrunning s
    descends := fun _ _ hstep => hstep.rank_lt
    drained := fun hended job hjob hhanded => by
      obtain ⟨o, houtcome, -, htold⟩ := hagrees.ended htracks hended hjob
      obtain ⟨rfl, hevents⟩ := htold.of_ended.2.2.2 hhanded
      exact ⟨hevents, houtcome⟩
    cancelled := fun hended job hjob => by
      obtain ⟨o, houtcome, -, htold⟩ := hagrees.ended htracks hended hjob
      exact ⟨o, houtcome, htold.of_ended.2.1⟩
    suffix := fun hended => hagrees.suffix_of_ended htracks hplan hended threshold }

/-- **Cancelling leaves nothing behind.** Whatever the groups, the settings, the store and the
comparisons, and whenever the flag goes up: once the coordinator has seen it, all jobs that are left end
as cancelled, and no others; what was handed out before is waited for and collected, and the run goes
on to its end. -/
theorem windsDown_of_reaches (groups : List Group) (pairing : Pairing) (w : WorkerSettings)
    (processors : Nat) (store : VerdictStore (StateM σ)) (f : Job → Comparison) (threshold : UInt8)
    {s₀ s : σ} {r : Run}
    (hrun : Reaches (w.effectiveCount processors) store (judge f)
      (start (Plan.ofGroups groups pairing) (w.inFlightLimit processors), s₀) (r, s)) :
    (∃ events, Recorded (w.effectiveCount processors) store (judge f)
      (start (Plan.ofGroups groups pairing) (w.inFlightLimit processors), s₀) events (r, s)) ∧
    ∀ events, Recorded (w.effectiveCount processors) store (judge f)
        (start (Plan.ofGroups groups pairing) (w.inFlightLimit processors), s₀) events (r, s) →
      WindsDown (Plan.ofGroups groups pairing) (w.effectiveCount processors) store (judge f) threshold
        events r s :=
  ⟨exists_recorded hrun, fun _ hrecorded => hrecorded.windsDown (Plan.tidy_ofGroups groups pairing)
    (by simp [WorkerSettings.inFlightLimit]) threshold⟩

/-- A run with two jobs and room for one. The flag goes up while the first is compared, and the second,
for which the store has no verdict, is not handed out. -/
theorem exists_cut_run {s : σ} {a b c : Work} (message : String)
    (gotFirst : (store.get a.identity b.identity).run s = (none, s))
    (gotSecond : (store.get a.identity c.identity).run s = (none, s))
    (flushed : store.flush.run s = (.ok (), s)) :
    ∃ r : Run, r.ended = true ∧ Recorded 1 store (judge fun _ => .crashed message)
      (start ⟨#[⟨0, a, b⟩, ⟨1, a, c⟩], 0, 0⟩ 1, s)
      [.handed ⟨0, a, b⟩, .collected 0 (judge (fun _ => .crashed message) ⟨0, a, b⟩),
        .cancelled ⟨1, a, c⟩] (r, s) := by
  have hstart : Recorded 1 store (judge fun _ => .crashed message)
      (start ⟨#[⟨0, a, b⟩, ⟨1, a, c⟩], 0, 0⟩ 1, s) [] _ := .start
  have hhanded := hstart
    |>.acted (.lookUp rfl gotFirst) rfl rfl (event?_of_lookUp rfl gotFirst) (Nat.le_of_ble_eq_true rfl)
    |>.acted (.submit rfl) rfl rfl rfl (Nat.le_of_ble_eq_true rfl)
    |>.acted (.lookUp rfl gotSecond) rfl rfl (event?_of_lookUp rfl gotSecond)
      (Nat.le_of_ble_eq_true rfl)
  have hraised := hhanded
    |>.speakFirst rfl (Nat.le_of_ble_eq_true rfl)
    |>.acted (.start rfl rfl) rfl rfl rfl (Nat.le_of_ble_eq_true rfl)
    |>.raise (Nat.le_of_ble_eq_true rfl)
  have hended := hraised
    |>.speakFirst rfl (Nat.le_of_ble_eq_true rfl)
    |>.acted (.fail rfl rfl rfl) rfl rfl rfl (Nat.le_of_ble_eq_true rfl)
    |>.acted (.cancel rfl) rfl rfl rfl (Nat.le_of_ble_eq_true rfl)
    |>.acted (.conclude rfl flushed) rfl rfl rfl (Nat.le_of_ble_eq_true rfl)
  exact ⟨_, rfl, hended⟩

/-- The first job has the outcome of its comparison, the second is cancelled. -/
theorem windsDown_of_reaches_cut : ∃ r : Run,
    Reaches (WorkerSettings.effectiveCount ⟨some 1, 1⟩ 8) .none
      (judge fun _ => .crashed "out of memory")
      (start (Plan.ofGroups [⟨"essays", [.blank ⟨"a"⟩]⟩, ⟨"rest", [.blank ⟨"b"⟩, .blank ⟨"c"⟩]⟩]
        .oneToOne) (WorkerSettings.inFlightLimit ⟨some 1, 1⟩ 8), ()) (r, ()) ∧
    r.ended = true ∧
    r.outcomes[0]? = some (some (.failed ⟨⟨"a"⟩, ⟨"b"⟩, .comparisonPanic, "out of memory"⟩)) ∧
    ∃ o, r.outcomes[1]? = some (some o) ∧ o.isCancelled = true := by
  have hab : (Work.blank ⟨"a"⟩).path.before (Work.blank ⟨"b"⟩).path = true := by decide +kernel
  have hac : (Work.blank ⟨"a"⟩).path.before (Work.blank ⟨"c"⟩).path = true := by decide +kernel
  have hplan := Plan.ofGroups_oneToOne "essays" "rest" hab hac (by decide +kernel)
  obtain ⟨r, hended, hrun⟩ := @exists_cut_run Unit .none () (.blank ⟨"a"⟩) (.blank ⟨"b"⟩)
    (.blank ⟨"c"⟩) "out of memory" rfl rfl rfl
  rw [← hplan] at hrun
  have hdown := (windsDown_of_reaches _ _ ⟨some 1, 1⟩ 8 .none _ 65 hrun.reaches).2 _ hrun
  obtain ⟨o, ho, hcancelled⟩ :=
    hdown.cancelled hended ⟨1, .blank ⟨"a"⟩, .blank ⟨"c"⟩⟩ (by simp [hplan])
  refine ⟨r, hrun.reaches, hended, ?_, o, ho, hcancelled.mpr (by simp)⟩
  exact (hdown.drained hended ⟨0, .blank ⟨"a"⟩, .blank ⟨"b"⟩⟩ (by simp [hplan]) List.mem_cons_self).2

end Run

end Batch

end Likeness
