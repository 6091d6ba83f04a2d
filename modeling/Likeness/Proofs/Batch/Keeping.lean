import Likeness.Proofs.Batch.Results
import Likeness.Proofs.Store.Records

/-!
# Likeness.Proofs.Batch.Keeping

What a run leaves in its store.

A store *recalls* if it gives back what is put into it, and saving does not change that
(`VerdictStore.Recalls`). All that a run, if it is not cancelled, leaves in such a store for a job is
then known from the outcome of the job (`Run.found_of_reaches`). What getting and saving keep of a
store, a run keeps as well, if putting keeps it for the verdicts that the run has to put
(`Run.kept_of_reaches`); and what saving brings about holds after a run without warnings
(`Run.saved_of_reaches`).
-/

namespace Likeness

namespace Batch

/-- What a store has for a pair after its job ended. -/
def Outcome.left? : Outcome → Option Verdict
  | .cached _ _ v => some v
  | .computed _ _ v => if v.isFull then some v else none
  | .failed _ => none

namespace Run

variable {σ : Type} {store : VerdictStore (StateM σ)} {plan : Plan} {limit : Nat} {r : Run}
  {phases : Nat → Phase} {s₀ s : σ} {f : Work → Work → Comparison}
  {outcomes : Array (Option Outcome)}

/-! ### What is left -/

/-- For a job that has ended the store has what its outcome left there, and for the others what it
had before the run. -/
structure Leaves (plan : Plan) (store : VerdictStore (StateM σ)) (s₀ : σ)
    (outcomes : Array (Option Outcome)) (s : σ) : Prop where
  ended : ∀ job ∈ plan.jobs, ∀ o, outcomes[job.id]? = some (some o) → found store s job = o.left?
  ahead : ∀ job ∈ plan.jobs, outcomes[job.id]? = some none → found store s job = found store s₀ job

theorem leaves_start (plan : Plan) (limit : Nat) :
    Leaves plan store s₀ (start plan limit).outcomes s₀ := by
  refine ⟨?_, fun _ _ _ => rfl⟩
  intro job _ o ho
  rw [start, Array.getElem?_replicate] at ho
  split at ho <;> cases ho

/-- A call that does not change what the store has. -/
theorem Leaves.keep (h : Leaves plan store s₀ outcomes s) {s' : σ}
    (hsame : ∀ job ∈ plan.jobs, found store s' job = found store s job) :
    Leaves plan store s₀ outcomes s' := by
  constructor
  · intro job hjob o ho
    rw [hsame job hjob, h.ended job hjob o ho]
  · intro job hjob ho
    rw [hsame job hjob, h.ahead job hjob ho]

/-- A job ends and leaves in the store what its outcome says. -/
theorem Leaves.settle (h : Leaves plan store s₀ outcomes s) (hplan : plan.Tidy) {job : Job}
    (hjob : job ∈ plan.jobs) {o : Outcome} {s' : σ} (hself : found store s' job = o.left?)
    (hothers : ∀ other ∈ plan.jobs, other ≠ job → found store s' other = found store s other) :
    Leaves plan store s₀ (outcomes.setIfInBounds job.id (some o)) s' := by
  constructor
  · intro other hother o' ho'
    by_cases hid : other.id = job.id
    · obtain rfl := hplan.eq_of_id_eq hother hjob hid
      rw [Array.getElem?_setIfInBounds, if_pos rfl] at ho'
      split at ho'
      · obtain rfl := Option.some.inj (Option.some.inj ho')
        exact hself
      · cases ho'
    · rw [Array.getElem?_setIfInBounds_ne (Ne.symm hid)] at ho'
      rw [hothers other hother (fun heq => hid (congrArg Job.id heq)), h.ended other hother o' ho']
  · intro other hother ho'
    by_cases hid : other.id = job.id
    · rw [hid, Array.getElem?_setIfInBounds, if_pos rfl] at ho'
      split at ho' <;> cases ho'
    · rw [Array.getElem?_setIfInBounds_ne (Ne.symm hid)] at ho'
      rw [hothers other hother (fun heq => hid (congrArg Job.id heq)), h.ahead other hother ho']

/-- The store has nothing for a job that is running. -/
theorem Leaves.missed (h : Leaves plan store s₀ r.outcomes s) (hforeseen : Foreseen plan store s₀ f r s)
    (htracks : Tracks plan (judge fun job => f job.first job.second) limit r phases) {job : Job}
    (hjob : job ∈ plan.jobs) (hphase : phases job.id = .running) : found store s job = none := by
  rw [h.ahead job hjob (htracks.fresh hjob (by rw [hphase]; rfl))]
  exact hforeseen.missed job hjob (htracks.isSome_lookup hjob hphase)

/-- The next job is looked up. -/
theorem Leaves.answer (h : Leaves plan store s₀ r.outcomes s) (hstore : store.Recalls)
    (hplan : plan.Tidy) {job : Job} (hjob : job ∈ plan.jobs) (hheld : r.held = none)
    {answer : Option Verdict} {s' : σ}
    (got : (store.get job.first.identity job.second.identity).run s = (answer, s')) :
    Leaves plan store s₀ (r.answer job answer).outcomes s' := by
  have hsame : ∀ other, found store s' other = found store s other := by
    intro other
    rw [found, found, ← hstore.get s job.first.identity job.second.identity, got]
  cases answer with
  | none =>
      rw [answer_none_eq hheld]
      exact h.keep fun other _ => hsame other
  | some v =>
      have hfound : found store s job = some v := by
        rw [found, VerdictStore.peek, got]
      rw [Run.answer, moveOn_eq]
      exact h.settle hplan hjob ((hsame job).trans hfound) fun other _ _ => hsame other

/-- The verdict of a job that the store has nothing for is put there if it is full. -/
theorem Leaves.put (h : Leaves plan store s₀ outcomes s) (hstore : store.Recalls) (hplan : plan.Tidy)
    {job : Job} (hjob : job ∈ plan.jobs) (hmissed : found store s job = none) {v : Verdict}
    {kept : Except StoreFault Unit} {s' : σ}
    (put : (if v.isFull then store.put job.first.identity job.second.identity v else pure (.ok ()) :
      StateM σ (Except StoreFault Unit)).run s = (kept, s')) :
    Leaves plan store s₀ (outcomes.setIfInBounds job.id
      (some (.computed job.first.identity job.second.identity v))) s' := by
  cases hfull : v.isFull with
  | true =>
      simp only [hfull, if_true] at put
      have hself := hstore.recalled s job.first.identity job.second.identity v
      rw [put] at hself
      refine h.settle hplan hjob (hself.trans ?_) ?_
      · rw [Outcome.left?, if_pos hfull]
      · intro other hother hne
        have hkept := hstore.put s job.first.identity job.second.identity v
          other.first.identity other.second.identity
          fun heq => hne (hplan.eq_of_pairKey_eq hother hjob heq)
        rw [put] at hkept
        exact hkept
  | false =>
      simp only [hfull, Bool.false_eq_true, if_false] at put
      cases put
      refine h.settle hplan hjob (hmissed.trans ?_) fun _ _ _ => rfl
      rw [Outcome.left?, hfull]
      rfl

theorem Leaves.act (h : Leaves plan store s₀ r.outcomes s) (hstore : store.Recalls)
    (hforeseen : Foreseen plan store s₀ f r s)
    (htracks : Tracks plan (judge fun job => f job.first job.second) limit r phases)
    (hplan : plan.Tidy) (hcancelled : r.cancelled = false) {r' : Run} {s' : σ} {phases' : Nat → Phase}
    (hbooked : Booked plan (judge fun job => f job.first job.second) store phases r s r' s' phases') :
    Leaves plan store s₀ r'.outcomes s' := by
  cases hbooked with
  | cancel next planned phase ahead flag =>
      rw [flag] at hcancelled
      cases hcancelled
  | lookUp next planned phase ahead free waiting got => exact h.answer hstore hplan planned free got
  | submit next planned phase ahead held =>
      rw [submitJob_eq held]
      exact h
  | start next planned phase channel => exact h
  | fail next planned phase compared channel =>
      exact h.settle hplan planned (h.missed hforeseen htracks planned phase) fun _ _ _ => rfl
  | compute next planned phase compared channel put =>
      exact h.put hstore hplan planned (h.missed hforeseen htracks planned phase) put
  | conclude next idle flushed =>
      rw [Run.conclude, warn_eq]
      refine h.keep fun job _ => ?_
      rw [found, found, ← hstore.flush s, flushed]

theorem leaves_of_reaches (hplan : plan.Tidy) (hstore : store.Recalls) {workers : Nat}
    {y : Run × σ} (hrun : Reaches workers store (judge fun job => f job.first job.second)
      (start plan limit, s₀) y) (hcancelled : y.1.cancelled = false) :
    Leaves plan store s₀ y.1.outcomes y.2 := by
  have hpaths (job : Job) := job.paths_outcomeOf_judge fun job => f job.first job.second
  induction hrun with
  | refl => exact leaves_start plan limit
  | @tail x y hrun hstep ih =>
      obtain ⟨r, s⟩ := x
      obtain ⟨⟨phases, htracks⟩, -⟩ :=
        (tracks_start hplan _ limit).reaches hplan hpaths hrun
      cases hstep.1 with
      | act awake running acts =>
          have hacted := acted_of_run running acts
          have hbefore := hacted.cancelled.symm.trans hcancelled
          have hforeseen := foreseen_of_reaches hplan hstore.toSeparate hrun
          obtain ⟨phases', hbooked, -⟩ := htracks.booked hplan hpaths running hacted
          exact (ih hbefore).act hstore hforeseen htracks hplan hbefore hbooked
      | speak pool =>
          unfold speak at hcancelled ⊢
          split at hcancelled
          next hstarted => rw [if_pos hstarted]; exact ih hcancelled
          next hstarted => rw [if_neg hstarted]; exact ih hcancelled
      | raise => cases hcancelled

/-! ### After a run -/

/-- **What a run leaves in its store** is what the outcomes of its jobs say. -/
theorem found_of_reaches (hplan : plan.Tidy) (hstore : store.Recalls) {workers : Nat}
    (hrun : Reaches workers store (judge fun job => f job.first job.second)
      (start plan limit, s₀) (r, s)) (hended : r.ended = true) (hcancelled : r.cancelled = false)
    {job : Job} (hjob : job ∈ plan.jobs) :
    found store s job = (expected store s₀ f job).left? := by
  have houtcomes := outcomes_of_reaches hplan hstore.toSeparate hrun hended hcancelled
  refine (leaves_of_reaches hplan hstore hrun hcancelled).ended job hjob _ ?_
  rw [← Array.getElem?_toList, houtcomes, List.map_map, List.getElem?_map, Array.getElem?_toList,
    hplan.getElem?_id hjob]
  rfl

/-- What a step does to the store: nothing, or it gets a verdict, puts the full verdict of a job under
way, or saves. -/
theorem Step.store_cases {compare : Job → Except PairFault Verdict} {r' : Run} {s' : σ}
    (h : Step store compare (r, s) (r', s')) (htracks : Tracks plan compare limit r phases)
    (hplan : plan.Tidy) (hpaths : ∀ job : Job, (job.outcomeOf (compare job)).paths = job.paths) :
    s' = s ∨ (∃ a b, s' = ((store.get a b).run s).2) ∨
      (∃ job ∈ plan.jobs, ∃ v, v.isFull = true ∧ compare job = .ok v ∧
        (r.underWay.lookup job.id).isSome = true ∧
        s' = ((store.put job.first.identity job.second.identity v).run s).2) ∨
      s' = (store.flush.run s).2 := by
  cases h with
  | act awake running acts =>
      obtain ⟨phases', hbooked, -⟩ := htracks.booked hplan hpaths running (acted_of_run running acts)
      cases hbooked with
      | cancel next planned phase ahead flag => exact .inl rfl
      | lookUp next planned phase ahead free waiting got => exact .inr (.inl ⟨_, _, by rw [got]⟩)
      | submit next planned phase ahead held => exact .inl rfl
      | start next planned phase channel => exact .inl rfl
      | fail next planned phase compared channel => exact .inl rfl
      | @compute job v rest kept s' next planned phase compared channel put =>
          cases hfull : v.isFull with
          | true =>
              simp only [hfull, if_true] at put
              have hknown := htracks.isSome_lookup planned phase
              exact .inr (.inr (.inl ⟨job, planned, v, hfull, compared, hknown, by rw [put]⟩))
          | false =>
              simp only [hfull, Bool.false_eq_true, if_false] at put
              cases put
              exact .inl rfl
      | conclude next idle flushed => exact .inr (.inr (.inr (by rw [flushed])))
  | speak pool => exact .inl rfl
  | raise => exact .inl rfl

/-- The flag for cancelling stays up. -/
theorem Step.uncancelled {compare : Job → Except PairFault Verdict} {r' : Run} {s' : σ}
    (h : Step store compare (r, s) (r', s')) (hcancelled : r'.cancelled = false) :
    r.cancelled = false := by
  cases h with
  | act awake running acts => exact (acted_of_run running acts).cancelled.symm.trans hcancelled
  | speak pool =>
      unfold Run.speak at hcancelled
      split at hcancelled <;> exact hcancelled
  | raise => cases hcancelled

/-- A property of the store that holds all through a run, cancelled or not: getting and saving keep it,
and so does putting a full verdict that a comparison gave. -/
theorem kept_of_compared {compare : Job → Except PairFault Verdict} (hplan : plan.Tidy)
    (hpaths : ∀ job : Job, (job.outcomeOf (compare job)).paths = job.paths) {P : σ → Prop}
    (hget : ∀ s a b, P s → P ((store.get a b).run s).2) (hflush : ∀ s, P s → P (store.flush.run s).2)
    (hput : ∀ job ∈ plan.jobs, ∀ v, v.isFull = true → compare job = .ok v →
      ∀ s, P s → P ((store.put job.first.identity job.second.identity v).run s).2)
    (h₀ : P s₀) {workers : Nat} {y : Run × σ}
    (hrun : Reaches workers store compare (start plan limit, s₀) y) : P y.2 := by
  induction hrun with
  | refl => exact h₀
  | @tail x y hrun hstep ih =>
      obtain ⟨⟨phases, htracks⟩, -⟩ := (tracks_start hplan _ limit).reaches hplan hpaths hrun
      rcases hstep.1.store_cases htracks hplan hpaths with
        hs | ⟨a, b, hs⟩ | ⟨job, hjob, v, hfull, hresult, -, hs⟩ | hs
      · rw [hs]
        exact ih
      · rw [hs]
        exact hget _ a b ih
      · rw [hs]
        exact hput job hjob v hfull hresult _ ih
      · rw [hs]
        exact hflush _ ih

/-- A property of the store that holds all through a run: getting and saving keep it, and so does
putting what the run has to put. -/
theorem kept_of_reaches (hplan : plan.Tidy) (hstore : store.Separate) {P : σ → Prop}
    (hget : ∀ s a b, P s → P ((store.get a b).run s).2) (hflush : ∀ s, P s → P (store.flush.run s).2)
    (hput : ∀ job ∈ plan.jobs, ∀ v, v.isFull = true →
      expected store s₀ f job = .computed job.first.identity job.second.identity v →
      ∀ s, P s → P ((store.put job.first.identity job.second.identity v).run s).2)
    (h₀ : P s₀) {workers : Nat} {y : Run × σ}
    (hrun : Reaches workers store (judge fun job => f job.first job.second)
      (start plan limit, s₀) y) (hcancelled : y.1.cancelled = false) : P y.2 := by
  have hpaths (job : Job) := job.paths_outcomeOf_judge fun job => f job.first job.second
  induction hrun with
  | refl => exact h₀
  | @tail x y hrun hstep ih =>
      obtain ⟨⟨phases, htracks⟩, -⟩ := (tracks_start hplan _ limit).reaches hplan hpaths hrun
      have hbefore := hstep.1.uncancelled hcancelled
      rcases hstep.1.store_cases htracks hplan hpaths with
        hs | ⟨a, b, hs⟩ | ⟨job, hjob, v, hfull, hresult, hknown, hs⟩ | hs
      · rw [hs]
        exact ih hbefore
      · rw [hs]
        exact hget _ a b (ih hbefore)
      · -- The job is under way, so the store had nothing for it.
        have hmissed := (foreseen_of_reaches hplan hstore hrun).missed job hjob hknown
        have houtcome : expected store s₀ f job =
            .computed job.first.identity job.second.identity v := by
          rw [expected, hmissed]
          change (f job.first job.second).outcome job = _
          rw [← Job.outcomeOf_judge (fun job => f job.first job.second), hresult]
          rfl
        rw [hs]
        exact hput job hjob v hfull houtcome _ (ih hbefore)
      · rw [hs]
        exact hflush _ (ih hbefore)

/-- Only the last act ends a run. -/
theorem Acted.ended_or {r' : Run} {s' : σ} (h : Acted store r s r' s') :
    r'.ended = r.ended ∨ ∃ saved, store.flush.run s = (saved, s') ∧ r' = r.conclude saved := by
  cases h with
  | cancel next => rw [cancelJob, moveOn_eq]; exact .inl rfl
  | @lookUp job answer s' next got =>
      cases answer <;> rw [Run.answer, moveOn_eq] <;> exact .inl rfl
  | submit next => rw [submitJob, moveOn_eq]; exact .inl rfl
  | start next channel => exact .inl rfl
  | fail next channel known => exact .inl rfl
  | compute next channel known put => rw [warn_eq]; exact .inl rfl
  | conclude next flushed => exact .inr ⟨_, flushed, rfl⟩

/-- After a run without warnings the store has been saved. -/
theorem saved_of_reaches {compare : Job → Except PairFault Verdict} {Q : σ → Prop}
    (hflush : ∀ s s', store.flush.run s = (.ok (), s') → Q s') {workers : Nat} {y : Run × σ}
    (hrun : Reaches workers store compare (start plan limit, s₀) y) (hended : y.1.ended = true)
    (hwarnings : y.1.warnings = []) : Q y.2 := by
  induction hrun with
  | refl => cases hended
  | @tail x y hrun hstep ih =>
      obtain ⟨r, s⟩ := x
      cases hstep.1 with
      | act awake running acts =>
          rcases (acted_of_run running acts).ended_or with hsame | ⟨saved, hflushed, rfl⟩
          · rw [hsame, running] at hended
            cases hended
          · rw [Run.conclude, warn_eq] at hwarnings
            cases saved with
            | ok _ => exact hflush s _ hflushed
            | error f => simp [trouble] at hwarnings
      | speak pool =>
          unfold speak at hended hwarnings
          split at hended
          next hstarted => rw [if_pos hstarted] at hwarnings; exact ih hended hwarnings
          next hstarted => rw [if_neg hstarted] at hwarnings; exact ih hended hwarnings
      | raise => exact ih hended hwarnings

end Run

end Batch

end Likeness
