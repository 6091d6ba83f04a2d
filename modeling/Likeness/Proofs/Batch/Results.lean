import Mathlib.Data.List.Forall2
import Likeness.Proofs.Batch.StoreCalls

/-!
# Likeness.Proofs.Batch.Results

What a run comes to does not depend on the order of its steps.

No two jobs of a plan are for the same pair of paths, so what a separate store answers for a job is
what it had before the run, however late the job is looked at. Unless the job is cancelled, its outcome
then follows from the store at the start and the comparison of its works alone (`Job.expected`).
-/

namespace Likeness

namespace Batch

/-- The outcome of a job that is compared. -/
def Comparison.outcome (job : Job) : Comparison → Outcome
  | .verdict v => .computed job.first.identity job.second.identity v
  | .refused message =>
    .failed ⟨job.first.path, job.second.path, .invalidStructure, message⟩
  | .crashed message =>
    .failed ⟨job.first.path, job.second.path, .comparisonPanic, message⟩

theorem Job.outcomeOf_judge (f : Job → Comparison) (job : Job) :
    job.outcomeOf (judge f job) = (f job).outcome job := by
  unfold judge
  cases f job <;> rfl

/-- The outcome of a job, given what the store has for it and how its works compare. -/
def Job.expected (found : Option Verdict) (c : Comparison) (job : Job) : Outcome :=
  match found with
  | some v => .cached job.first.identity job.second.identity v
  | none => c.outcome job

/-- What every member of a list gives is a list as long. -/
theorem exists_forall₂_of_map {α β : Type} {g : α → Option β} {R : α → β → Prop} {as : List α}
    (h : ∀ a ∈ as, ∃ b, g a = some b ∧ R a b) :
    ∃ bs, as.map g = bs.map some ∧ List.Forall₂ R as bs := by
  induction as with
  | nil => exact ⟨[], rfl, .nil⟩
  | cons a as ih =>
      obtain ⟨b, hb, hab⟩ := h a List.mem_cons_self
      obtain ⟨bs, hbs, hall⟩ := ih fun a ha => h a (List.mem_cons_of_mem _ ha)
      exact ⟨b :: bs, by rw [List.map_cons, List.map_cons, hb, hbs], .cons hab hall⟩

namespace Run

variable {σ : Type} {store : VerdictStore (StateM σ)} {plan : Plan} {limit : Nat} {r : Run}
  {phases : Nat → Phase} {s₀ s : σ} {f : Work → Work → Comparison}

/-- What a store has for a job. -/
def found (store : VerdictStore (StateM σ)) (s : σ) (job : Job) : Option Verdict :=
  store.peek s job.first.identity job.second.identity

/-- The outcome of a job, given the store before the run. -/
def expected (store : VerdictStore (StateM σ)) (s₀ : σ) (f : Work → Work → Comparison) (job : Job) :
    Outcome :=
  job.expected (found store s₀ job) (f job.first job.second)

/-- A job ends as expected, or it was cancelled. -/
def Foretold (store : VerdictStore (StateM σ)) (s₀ : σ) (f : Work → Work → Comparison)
    (cancelled : Bool) (job : Job) (o : Outcome) : Prop :=
  o = expected store s₀ f job ∨ cancelled = true ∧ o = .failed (cancellation job)

theorem Foretold.expected {job : Job} {o : Outcome} (h : Foretold store s₀ f false job o) :
    o = expected store s₀ f job := by
  rcases h with ho | ⟨hflag, -⟩
  · exact ho
  · cases hflag

/-- Outcomes are as foretold, jobs held or under way are not in the store, and for jobs not looked
at yet the store has what it had before the run. -/
structure Foreseen (plan : Plan) (store : VerdictStore (StateM σ)) (s₀ : σ)
    (f : Work → Work → Comparison) (r : Run) (s : σ) : Prop where
  outcomes : ∀ job ∈ plan.jobs, ∀ o, r.outcomes[job.id]? = some (some o) →
    Foretold store s₀ f r.cancelled job o
  missed : ∀ job ∈ plan.jobs, (r.underWay.lookup job.id).isSome → found store s₀ job = none
  held : ∀ job, r.held = some job → found store s₀ job = none
  waiting : ∀ job ∈ r.waiting, found store s job = found store s₀ job

theorem foreseen_start (plan : Plan) (limit : Nat) :
    Foreseen plan store s₀ f (start plan limit) s₀ := by
  refine ⟨fun job _ o ho => ?_, fun _ _ hknown => ?_, fun _ hheld => ?_, fun _ _ => rfl⟩
  · rw [start, Array.getElem?_replicate] at ho
    split at ho <;> cases ho
  · cases hknown
  · cases hheld

/-- Entering an outcome that was foretold. -/
theorem outcomes_settle (hplan : plan.Tidy)
    (h : ∀ job ∈ plan.jobs, ∀ o, r.outcomes[job.id]? = some (some o) →
      Foretold store s₀ f r.cancelled job o)
    {job : Job} (hjob : job ∈ plan.jobs) {o : Outcome} (ho : Foretold store s₀ f r.cancelled job o) :
    ∀ other ∈ plan.jobs, ∀ o', (r.settle job.id o).outcomes[other.id]? = some (some o') →
      Foretold store s₀ f r.cancelled other o' := by
  intro other hother o' ho'
  rw [settle, Array.getElem?_setIfInBounds] at ho'
  split at ho'
  next hid =>
    obtain rfl := hplan.eq_of_id_eq hjob hother hid
    split at ho'
    · obtain rfl := Option.some.inj (Option.some.inj ho')
      exact ho
    · cases ho'
  next => exact h other hother o' ho'

/-- A job that was compared ends as expected. -/
theorem Foreseen.collect (h : Foreseen plan store s₀ f r s) (hplan : plan.Tidy) {job : Job}
    (hjob : job ∈ plan.jobs) (hknown : (r.underWay.lookup job.id).isSome)
    {result : Except PairFault Verdict}
    (hcompared : judge (fun job => f job.first job.second) job = result) (rest : List Message)
    (warnings : List String) {s' : σ}
    (hwaiting : ∀ job ∈ r.waiting, found store s' job = found store s₀ job) :
    Foreseen plan store s₀ f
      ({ r with channel := rest, warnings := warnings }.collect job.id (job.outcomeOf result)) s' := by
  have hmissed := h.missed job hjob hknown
  refine ⟨outcomes_settle hplan h.outcomes hjob ?_, fun other hother hother' => ?_, h.held,
    hwaiting⟩
  · left
    rw [← hcompared, Job.outcomeOf_judge, expected, hmissed]
    rfl
  · change (List.lookup _ (r.underWay.filter _)).isSome at hother'
    by_cases hid : other.id = job.id
    · rw [hid, lookup_filter_self] at hother'
      cases hother'
    · rw [lookup_filter_ne hid] at hother'
      exact h.missed other hother hother'

/-- The flag is up, and a job ahead ends without being looked at or handed out. -/
theorem Foreseen.cancelJob (h : Foreseen plan store s₀ f r s) (hplan : plan.Tidy) {job : Job}
    (hjob : job ∈ plan.jobs) (hcancelled : r.cancelled = true) :
    Foreseen plan store s₀ f (r.cancelJob job) s := by
  rw [Run.cancelJob, moveOn_eq]
  refine ⟨outcomes_settle hplan h.outcomes hjob (.inr ⟨hcancelled, rfl⟩), h.missed, ?_, ?_⟩
  · intro _ hnone
    cases hnone
  · intro other hother
    change other ∈ if r.held.isSome then r.waiting else r.waiting.tail at hother
    split at hother
    · exact h.waiting other hother
    · exact h.waiting other (List.mem_of_mem_tail hother)

/-- The next job is looked up. -/
theorem Foreseen.answer (h : Foreseen plan store s₀ f r s) (hstore : store.Separate)
    (hplan : plan.Tidy) {job : Job} (hjob : job ∈ plan.jobs) (hheld : r.held = none) {rest : List Job}
    (hwaiting : r.waiting = job :: rest) {answer : Option Verdict} {s' : σ}
    (got : (store.get job.first.identity job.second.identity).run s = (answer, s')) :
    Foreseen plan store s₀ f (r.answer job answer) s' := by
  have hfound : found store s₀ job = answer := by
    rw [← h.waiting job (by rw [hwaiting]; exact List.mem_cons_self), found, VerdictStore.peek, got]
  have hlater : ∀ other ∈ rest, found store s' other = found store s₀ other := by
    intro other hother
    rw [← h.waiting other (by rw [hwaiting]; exact List.mem_cons_of_mem _ hother), found, found,
      ← hstore.get s job.first.identity job.second.identity, got]
  cases answer with
  | none =>
      rw [answer_none_eq hheld]
      refine ⟨h.outcomes, h.missed, ?_, ?_⟩
      · rintro _ ⟨⟩
        exact hfound
      · rw [hwaiting]
        exact hlater
  | some v =>
      have hexpected : Outcome.cached job.first.identity job.second.identity v =
          expected store s₀ f job := by
        rw [expected, hfound]
        rfl
      rw [Run.answer, moveOn_eq]
      refine ⟨outcomes_settle hplan h.outcomes hjob (.inl hexpected), h.missed, ?_, ?_⟩
      · intro _ hnone
        cases hnone
      · change ∀ other ∈ if r.held.isSome then r.waiting else r.waiting.tail, _
        rw [hheld, hwaiting]
        exact hlater

/-- The job that is held is handed out. -/
theorem Foreseen.submitJob (h : Foreseen plan store s₀ f r s) (hplan : plan.Tidy) {job : Job}
    (hjob : job ∈ plan.jobs) (hheld : r.held = some job) :
    Foreseen plan store s₀ f (r.submitJob job) s := by
  rw [submitJob_eq hheld]
  refine ⟨h.outcomes, ?_, ?_, h.waiting⟩
  · intro other hother hknown
    by_cases hid : other.id = job.id
    · rw [hplan.eq_of_id_eq hother hjob hid]
      exact h.held job hheld
    · refine h.missed other hother ?_
      rwa [← lookup_append_singleton_ne _ hid]
  · intro _ hnone
    cases hnone

/-- What is put for a job under way does not change what the store has for the jobs still to be looked
at. -/
theorem Foreseen.waiting_put (h : Foreseen plan store s₀ f r s) (hstore : store.Separate)
    (htracks : Tracks plan (judge fun job => f job.first job.second) limit r phases)
    (hplan : plan.Tidy) {job : Job} (hjob : job ∈ plan.jobs) (hphase : phases job.id = .running)
    {v : Verdict} {kept : Except StoreFault Unit} {s' : σ}
    (put : (if v.isFull then store.put job.first.identity job.second.identity v else pure (.ok ()) :
      StateM σ (Except StoreFault Unit)).run s = (kept, s')) :
    ∀ other ∈ r.waiting, found store s' other = found store s₀ other := by
  intro other hother
  rw [← h.waiting other hother]
  have hahead : other ∈ r.ahead := List.mem_append_right _ hother
  have hplanned : other ∈ plan.jobs :=
    Array.mem_toList_iff.mp (htracks.ahead.subset hahead)
  have hne : other ≠ job := by
    rintro rfl
    rw [(htracks.entry other hjob).ahead.mp hahead] at hphase
    cases hphase
  cases hfull : v.isFull with
  | true =>
      simp only [hfull, if_true] at put
      have hkept := hstore.put s job.first.identity job.second.identity v other.first.identity
        other.second.identity fun heq => hne (hplan.eq_of_pairKey_eq hplanned hjob heq)
      rw [put] at hkept
      exact hkept
  | false =>
      simp only [hfull, Bool.false_eq_true, if_false] at put
      cases put
      rfl

theorem Foreseen.act (h : Foreseen plan store s₀ f r s) (hstore : store.Separate)
    (htracks : Tracks plan (judge fun job => f job.first job.second) limit r phases)
    (hplan : plan.Tidy) {r' : Run} {s' : σ} {phases' : Nat → Phase}
    (hbooked : Booked plan (judge fun job => f job.first job.second) store phases r s r' s' phases') :
    Foreseen plan store s₀ f r' s' := by
  cases hbooked with
  | cancel next planned phase ahead flag => exact h.cancelJob hplan planned flag
  | lookUp next planned phase ahead free waiting got =>
      exact h.answer hstore hplan planned free waiting got
  | submit next planned phase ahead held => exact h.submitJob hplan planned held
  | start next planned phase channel => exact ⟨h.outcomes, h.missed, h.held, h.waiting⟩
  | @fail job fault rest next planned phase compared channel =>
      have hknown := htracks.isSome_lookup planned phase
      exact h.collect hplan planned hknown compared rest r.warnings h.waiting
  | @compute job v rest kept s' next planned phase compared channel put =>
      have hknown := htracks.isSome_lookup planned phase
      have hwaiting := h.waiting_put hstore htracks hplan planned phase put
      exact h.collect hplan planned hknown compared rest _ hwaiting
  | conclude next idle flushed =>
      have hwaiting := (List.append_eq_nil_iff.mp idle).2
      rw [Run.conclude, warn_eq]
      refine ⟨h.outcomes, h.missed, h.held, ?_⟩
      rw [hwaiting]
      exact List.forall_mem_nil _

/-! ### Runs -/

theorem Acted.cancelled {r' : Run} {s' : σ} (h : Acted store r s r' s') :
    r'.cancelled = r.cancelled := by
  cases h with
  | cancel next => rw [cancelJob, moveOn_eq]; rfl
  | @lookUp job answer s' next got =>
      cases answer with
      | none => simp only [Run.answer, moveOn_eq]
      | some v => simp only [Run.answer, moveOn_eq, settle]
  | submit next => simp only [submitJob, moveOn_eq]
  | start next channel => rfl
  | fail next channel known => rfl
  | compute next channel known put => rw [warn_eq]; rfl
  | conclude next flushed => rw [Run.conclude, warn_eq]

theorem Foreseen.raise (h : Foreseen plan store s₀ f r s) : Foreseen plan store s₀ f r.raise s where
  outcomes job hjob o ho := by
    rcases h.outcomes job hjob o ho with hexpected | ⟨-, hcancelled⟩
    · exact .inl hexpected
    · exact .inr ⟨rfl, hcancelled⟩
  missed := h.missed
  held := h.held
  waiting := h.waiting

theorem foreseen_of_reaches (hplan : plan.Tidy) (hstore : store.Separate) {workers : Nat}
    {y : Run × σ} (hrun : Reaches workers store (judge fun job => f job.first job.second)
      (start plan limit, s₀) y) : Foreseen plan store s₀ f y.1 y.2 := by
  have hpaths (job : Job) := job.paths_outcomeOf_judge fun job => f job.first job.second
  induction hrun with
  | refl => exact foreseen_start plan limit
  | @tail x y hrun hstep ih =>
      obtain ⟨r, s⟩ := x
      obtain ⟨r', s'⟩ := y
      obtain ⟨⟨phases, htracks⟩, -⟩ :=
        (tracks_start hplan _ limit).reaches hplan hpaths hrun
      cases hstep.1 with
      | act awake running acts =>
          obtain ⟨phases', hbooked, -⟩ :=
            htracks.booked hplan hpaths running (acted_of_run running acts)
          exact ih.act hstore htracks hplan hbooked
      | speak pool =>
          obtain ⟨outcomes, missed, held, waiting⟩ := ih
          unfold speak
          split <;> exact ⟨outcomes, missed, held, waiting⟩
      | raise => exact ih.raise

/-- **Outcomes as foretold.** A run that has ended has for every job the outcome that follows from the
store before the run and the comparison of its works, unless the job was cancelled. -/
theorem exists_foretold (hplan : plan.Tidy) (hstore : store.Separate) {workers : Nat}
    (hrun : Reaches workers store (judge fun job => f job.first job.second)
      (start plan limit, s₀) (r, s)) (hended : r.ended = true) :
    ∃ outcomes, r.outcomes.toList = outcomes.map some ∧
      List.Forall₂ (Foretold store s₀ f r.cancelled) plan.jobs.toList outcomes := by
  have hpaths (job : Job) := job.paths_outcomeOf_judge fun job => f job.first job.second
  obtain ⟨⟨phases, htracks⟩, -⟩ := (tracks_start hplan _ limit).reaches hplan hpaths hrun
  have hforeseen := foreseen_of_reaches hplan hstore hrun
  rw [htracks.outcomes_toList hplan]
  refine exists_forall₂_of_map fun job hjob => ?_
  have hjob := Array.mem_toList_iff.mp hjob
  obtain ⟨o, hphase⟩ := htracks.exists_outcome hended hjob
  have hentry := (htracks.entry job hjob).outcome
  rw [hphase] at hentry ⊢
  exact ⟨o, rfl, hforeseen.outcomes job hjob o hentry⟩

theorem outcomes_of_foretold {jobs : List Job} {outcomes : List Outcome}
    (h : List.Forall₂ (Foretold store s₀ f false) jobs outcomes) :
    outcomes = jobs.map (expected store s₀ f) := by
  induction h with
  | nil => rfl
  | cons ho _ ih => rw [List.map_cons, ← ho.expected, ← ih]

/-- **Outcomes as expected.** If nothing was cancelled, no outcome is missing and none is different. -/
theorem outcomes_of_reaches (hplan : plan.Tidy) (hstore : store.Separate) {workers : Nat}
    (hrun : Reaches workers store (judge fun job => f job.first job.second)
      (start plan limit, s₀) (r, s)) (hended : r.ended = true) (hcancelled : r.cancelled = false) :
    r.outcomes.toList = (plan.jobs.toList.map (expected store s₀ f)).map some := by
  obtain ⟨outcomes, hreported, hforetold⟩ := exists_foretold hplan hstore hrun hended
  rw [hcancelled] at hforetold
  rw [hreported, outcomes_of_foretold hforetold]

theorem status_report (r : Run) (threshold : UInt8) : (r.report threshold).status =
    (Report.ofOutcomes (r.report threshold).outcomes threshold).status := rfl

/-- The report has the outcomes of the run. -/
theorem outcomes_report {outcomes : List Outcome} (h : r.outcomes.toList = outcomes.map some)
    (threshold : UInt8) : r.report threshold =
      { Report.ofOutcomes outcomes threshold with storeWarnings := r.warnings } := by
  rw [report, h, List.filterMap_map]
  simp

/-- **Results do not depend on the schedule.** Take a store that is separate and a run that was not
cancelled. Whatever the workers, the limit, the order of steps, and the answers to puts and flushes,
every job ends as the store before the run and the comparison of its works have it, full verdicts
that were computed are put into the store, each once and nothing else, and there is one warning for
every put that failed and one more if the flush at the end did. -/
theorem report_of_reaches (groups : List Group) (pairing : Pairing) (w : WorkerSettings)
    (processors : Nat) (store : VerdictStore (StateM σ)) (hstore : store.Separate)
    (f : Work → Work → Comparison) (threshold : UInt8) {s₀ s : σ} {r : Run}
    (hrun : Reaches (w.effectiveCount processors) store (judge fun job => f job.first job.second)
      (start (Plan.ofGroups groups pairing) (w.inFlightLimit processors), s₀) (r, s))
    (hended : r.ended = true) (hcancelled : r.cancelled = false) :
    let outcomes := (Plan.ofGroups groups pairing).jobs.toList.map (expected store s₀ f)
    r.report threshold =
        { Report.ofOutcomes outcomes threshold with storeWarnings := r.warnings } ∧
      ∃ calls, Reaches (w.effectiveCount processors) store.logged
          (judge fun job => f job.first job.second)
          (start (Plan.ofGroups groups pairing) (w.inFlightLimit processors), s₀, [])
          (r, s, calls) ∧
        (calls.filterMap VerdictStore.Call.put?).Perm (outcomes.filterMap Outcome.full?) ∧
        calls.countP VerdictStore.Call.isFlush = 1 ∧
        r.warnings = calls.flatMap fun call => trouble call.answer := by
  have hplan := Plan.tidy_ofGroups groups pairing
  have hpaths (job : Job) := job.paths_outcomeOf_judge fun job => f job.first job.second
  obtain ⟨calls, hlogged, hwritten⟩ := exists_calls hplan hpaths hrun
  intro outcomes
  have houtcomes : r.outcomes.toList = outcomes.map some :=
    outcomes_of_reaches hplan hstore hrun hended hcancelled
  refine ⟨outcomes_report houtcomes threshold, calls, hlogged, ?_, ?_, hwritten.warnings⟩
  · have hputs := hwritten.puts
    rw [fulls, houtcomes, List.filterMap_map] at hputs
    exact hputs
  · rw [hwritten.flushes, hended]
    rfl

/-- A run to its end with one worker, whose only comparison crashes. -/
theorem report_of_reaches_crash : ∃ r : Run,
    Reaches (WorkerSettings.effectiveCount ⟨some 1, 4⟩ 8) .memory
      (judge fun _ => .crashed "out of memory")
      (start (Plan.ofGroups [⟨"essays", [.blank ⟨"a"⟩, .blank ⟨"b"⟩]⟩] .manyToMany)
        (WorkerSettings.inFlightLimit ⟨some 1, 4⟩ 8), Records.empty) (r, .empty) ∧
    r.ended = true ∧ r.cancelled = false ∧
    (r.report 65).outcomes =
      [.failed ⟨⟨"a"⟩, ⟨"b"⟩, .comparisonPanic, "out of memory"⟩] := by
  have hplan := Plan.ofGroups_pair "essays" (show (Work.blank ⟨"a"⟩).path.before
    (Work.blank ⟨"b"⟩).path = true by decide +kernel)
  obtain ⟨r, hended, hcancelled, hrun⟩ := @exists_crashed_run Records .memory .empty
    (.blank ⟨"a"⟩) (.blank ⟨"b"⟩) "out of memory" rfl rfl
  rw [← hplan] at hrun
  obtain ⟨hreport, -⟩ := report_of_reaches _ _ ⟨some 1, 4⟩ 8 .memory VerdictStore.separate_memory
    (fun _ _ => .crashed "out of memory") 65 hrun hended hcancelled
  refine ⟨r, hrun, hended, hcancelled, ?_⟩
  rw [hreport, hplan]
  rfl

end Run

end Batch

end Likeness
