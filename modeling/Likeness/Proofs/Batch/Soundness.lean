import Mathlib.Data.List.Basic
import Likeness.Work.Builder
import Likeness.Proofs.Batch.Books

/-!
# Likeness.Proofs.Batch.Soundness

What holds of a run at any moment, whatever the order of its steps.

The coordinator never hears of a job that it did not hand out and never waits in vain, every step
but raising the flag brings the end nearer, no more jobs are under way than may be, jobs go through
their states in order, and a run that has ended reports every job once, in the order of the plan
(`Run.sound_of_reaches`). All of it is read off the books, which every step keeps in order.
-/

namespace Likeness.Batch

/-! ### States -/

/-- The moves of a job through its states. A job that was not handed out fails only by being
cancelled. -/
inductive JobState.Advance (cancelled : Bool) : JobState → JobState → Prop where
  | hit : Advance cancelled .pending .cacheHit
  | cancel (flag : cancelled = true) : Advance cancelled .pending .failed
  | submit : Advance cancelled .pending .scheduled
  | start : Advance cancelled .scheduled .running
  | complete : Advance cancelled .running .completed
  | fail : Advance cancelled .running .failed

theorem JobState.Advance.not_terminal {cancelled : Bool} {x y : JobState}
    (h : Advance cancelled x y) : x.isTerminal = false := by
  cases h <;> rfl

theorem Phase.Move.state {compare : Job → Except PairFault Verdict} {cancelled : Bool} {job : Job}
    {p q : Phase} (h : Move compare cancelled job p q) :
    JobState.Advance cancelled p.state q.state := by
  cases h with
  | hit v => exact .hit
  | cancel flag => exact .cancel flag
  | submit => exact .submit
  | start => exact .start
  | finish =>
      cases hresult : compare job with
      | ok v => exact .complete
      | error f => exact .fail

namespace Run

variable {compare : Job → Except PairFault Verdict} {plan : Plan} {limit : Nat} {r : Run}
  {phases : Nat → Phase} {σ : Type} {store : VerdictStore (StateM σ)}

/-- Jobs in the order of the plan, by their ids. -/
theorem Tracks.exists_job (h : Tracks plan compare limit r phases) (hplan : plan.Tidy) (i : Nat) :
    (∃ job ∈ plan.jobs, job.id = i) ∨ r.states[i]? = none := by
  by_cases hi : i < plan.jobs.size
  · exact .inl ⟨plan.jobs[i], Array.getElem_mem hi, hplan.numbered i _ (Array.getElem?_eq_getElem hi)⟩
  · refine .inr (Array.getElem?_eq_none ?_)
    rw [h.tally.states]
    omega

/-! ### The coordinator -/

/-- A result is only heard of for a job that is under way. -/
theorem Tracks.known (h : Tracks plan compare limit r phases) {id : Nat}
    {result : Except PairFault Verdict} {rest : List Message}
    (hchannel : r.channel = .finished id result :: rest) : (r.underWay.lookup id).isSome := by
  obtain ⟨job, hjob, rfl, hphase, -⟩ := h.of_finished hchannel
  exact h.isSome_lookup hjob hphase

/-- While a job is under way, the pool or the channel has a message about it. -/
theorem Tracks.owed_ne_nil (h : Tracks plan compare limit r phases) (hunderWay : r.underWay ≠ []) :
    r.channel ≠ [] ∨ r.pool ≠ [] := by
  obtain ⟨e, he⟩ := List.exists_mem_of_ne_nil _ hunderWay
  obtain ⟨job, hjob, hid⟩ := h.noted.planned e he
  have hentry := h.entry job hjob
  have hknown : (r.underWay.lookup job.id).isSome :=
    List.lookup_isSome_iff.mpr ⟨e, he, beq_iff_eq.mpr hid⟩
  have howed : r.owed compare job.id ≠ [] := by
    rw [hentry.owed]
    rw [hentry.underWay] at hknown
    cases hphase : phases job.id with
    | ahead => simp [hphase, Phase.identities?] at hknown
    | scheduled => simp [Phase.owed]
    | running => simp [Phase.owed]
    | ended o => simp [hphase, Phase.identities?] at hknown
  by_contra! hnone
  exact howed (by rw [owed, hnone.1, hnone.2]; rfl)

theorem isWaiting_iff : r.isWaiting = true ↔ r.next = .receive ∧ r.channel = [] := by
  unfold isWaiting
  cases r.next <;> simp

theorem Tracks.underWay_of_receive (h : Tracks plan compare limit r phases) (hlimit : 0 < limit)
    (hnext : r.next = .receive) : r.underWay ≠ [] := by
  have hspec := r.next_spec
  rw [hnext] at hspec
  rcases hspec with hfull | hne
  · rw [h.tally.limit_eq] at hfull
    exact List.ne_nil_of_length_pos (Nat.lt_of_lt_of_le hlimit hfull)
  · exact hne

/-- What the coordinator waits for is still to come from the pool. -/
theorem Tracks.pool_ne_nil (h : Tracks plan compare limit r phases) (hlimit : 0 < limit)
    (hwaiting : r.isWaiting = true) : r.pool ≠ [] := by
  obtain ⟨hnext, hchannel⟩ := isWaiting_iff.mp hwaiting
  exact (h.owed_ne_nil (h.underWay_of_receive hlimit hnext)).resolve_left fun hne => hne hchannel

theorem busy_le {workers : Nat} {plan : Plan} {s₀ : σ} {y : Run × σ}
    (hrun : Reaches workers store compare (start plan limit, s₀) y) : y.1.busy ≤ workers := by
  cases hrun with
  | refl => exact Nat.zero_le _
  | tail _ hstep => exact hstep.2

/-- Some task can speak without there being more tasks started than workers. -/
theorem exists_speak (compare : Job → Except PairFault Verdict) {workers : Nat}
    (hworkers : 0 < workers) (hbusy : r.busy ≤ workers) (hpool : r.pool ≠ []) :
    ∃ before t after, r.pool = before ++ t :: after ∧
      (r.speak compare before t after).busy ≤ workers := by
  by_cases hstarted : ∃ t ∈ r.pool, t.started = true
  · obtain ⟨t, ht, hstarted⟩ := hstarted
    obtain ⟨before, after, hsplit⟩ := List.append_of_mem ht
    refine ⟨before, t, after, hsplit, le_trans ?_ hbusy⟩
    simp [busy, speak, hstarted, hsplit]
  · push Not at hstarted
    obtain ⟨t, rest, hsplit⟩ := List.exists_cons_of_ne_nil hpool
    refine ⟨[], t, rest, hsplit, ?_⟩
    rw [hsplit] at hstarted
    have hidle : rest.countP (·.started) = 0 :=
      List.countP_eq_zero.mpr fun u hu => hstarted u (List.mem_cons_of_mem _ hu)
    simp [busy, speak, hstarted t List.mem_cons_self, hidle]
    omega

/-! ### The ledger -/

/-- The state of a job stays or moves on. -/
def Keeps (r r' : Run) (i : Nat) : Prop :=
  r'.states[i]? = r.states[i]? ∨ ∃ x y, r.states[i]? = some x ∧ r'.states[i]? = some y ∧
    JobState.Advance r.cancelled x y

theorem Tracks.keeps (h : Tracks plan compare limit r phases) (hplan : plan.Tidy) {r' : Run}
    {phases' : Nat → Phase} (h' : Tracks plan compare limit r' phases')
    (hmoved : Moved plan compare r.cancelled phases phases') (i : Nat) : Keeps r r' i := by
  rcases h.exists_job hplan i with ⟨job, hjob, rfl⟩ | hnone
  swap
  · left
    rw [hnone, Array.getElem?_eq_none_iff, h'.tally.states, ← h.tally.states]
    exact Array.getElem?_eq_none_iff.mp hnone
  have hbefore := (h.entry job hjob).state
  have hafter := (h'.entry job hjob).state
  rcases hmoved with rfl | ⟨mover, hmover, p, rfl, hmove⟩
  · exact .inl (hafter.trans hbefore.symm)
  · by_cases hid : job.id = mover.id
    · rw [hid] at hbefore hafter ⊢
      rw [Function.update_self] at hafter
      exact .inr ⟨_, _, hbefore, hafter, hmove.state⟩
    · rw [Function.update_of_ne hid] at hafter
      exact .inl (hafter.trans hbefore.symm)

theorem Keeps.terminal {r' : Run} {i : Nat} (h : Keeps r r' i) {x : JobState}
    (hx : r.states[i]? = some x) (hterminal : x.isTerminal = true) : r'.states[i]? = some x := by
  rcases h with hsame | ⟨y, z, hy, -, hadvance⟩
  · rw [hsame, hx]
  · obtain rfl := Option.some.inj (hx.symm.trans hy)
    rw [hadvance.not_terminal] at hterminal
    cases hterminal

/-! ### The end of a run -/

/-- When a run has ended, so have all of its jobs. -/
theorem Tracks.exists_outcome (h : Tracks plan compare limit r phases) (hended : r.ended = true)
    {job : Job} (hjob : job ∈ plan.jobs) : ∃ o, phases job.id = .ended o := by
  obtain ⟨hahead, hunderWay⟩ := h.tally.closed hended
  have hentry := h.entry job hjob
  have hknown := hentry.underWay
  rw [hunderWay] at hknown
  cases hphase : phases job.id with
  | ahead =>
      have hmem := hentry.ahead.mpr hphase
      rw [hahead] at hmem
      cases hmem
  | scheduled =>
      rw [hphase] at hknown
      cases hknown
  | running =>
      rw [hphase] at hknown
      cases hknown
  | ended o => exact ⟨o, rfl⟩

/-- The outcomes stand in the order of the plan. -/
theorem Tracks.outcomes_toList (h : Tracks plan compare limit r phases) (hplan : plan.Tidy) :
    r.outcomes.toList = plan.jobs.toList.map fun job => (phases job.id).outcome? := by
  refine List.ext_getElem? fun i => ?_
  rw [Array.getElem?_toList, List.getElem?_map, Array.getElem?_toList]
  by_cases hi : i < plan.jobs.size
  · have hget : plan.jobs[i]? = some plan.jobs[i] := Array.getElem?_eq_getElem hi
    have hid := hplan.numbered i _ hget
    have houtcome := (h.entry _ (Array.getElem_mem hi)).outcome
    rw [hid] at houtcome
    rw [hget, houtcome, Option.map_some, hid]
  · rw [Array.getElem?_eq_none (by rw [h.tally.outcomes]; omega),
      Array.getElem?_eq_none (Nat.not_lt.mp hi)]
    rfl

theorem map_filterMap_id {f : α → Option β} {g : β → γ} {k : α → γ} {as : List α}
    (h : ∀ a ∈ as, ∃ b, f a = some b ∧ g b = k a) :
    ((as.map f).filterMap id).map g = as.map k := by
  induction as with
  | nil => rfl
  | cons a as ih =>
      obtain ⟨⟨b, hb, hk⟩, hrest⟩ := List.forall_mem_cons.mp h
      rw [List.map_cons, List.filterMap_cons, id, hb]
      simp only [List.map_cons, hk, ih hrest]

theorem Tracks.map_report (h : Tracks plan compare limit r phases) (hplan : plan.Tidy)
    (hended : r.ended = true) (threshold : UInt8) {g : Outcome → γ} {k : Job → γ}
    (hk : ∀ job ∈ plan.jobs, ∀ o, phases job.id = .ended o → g o = k job) :
    (r.report threshold).outcomes.map g = plan.jobs.toList.map k := by
  change (r.outcomes.toList.filterMap id).map g = _
  rw [h.outcomes_toList hplan]
  refine map_filterMap_id fun job hjob => ?_
  have hjob := Array.mem_toList_iff.mp hjob
  obtain ⟨o, ho⟩ := h.exists_outcome hended hjob
  exact ⟨o, by rw [ho]; rfl, hk job hjob o ho⟩

/-! ### Soundness -/

/-- What holds of a run and its store at any moment. -/
structure Sound (plan : Plan) (limit workers : Nat) (store : VerdictStore (StateM σ))
    (compare : Job → Except PairFault Verdict) (r : Run) (s : σ) : Prop where
  /-- The coordinator can act unless it waits; it does not break off. -/
  proceeds : r.isWaiting = false → ∃ r' s', (r.act store).run s = (.ok r', s')
  /-- While it waits, some task can speak. -/
  awaited : r.isWaiting = true → 0 < workers → ∃ before t after, r.pool = before ++ t :: after ∧
    (r.speak compare before t after).busy ≤ workers
  /-- Every step but raising the flag brings the end nearer. -/
  descends : ∀ r' s', Step store compare (r, s) (r', s') → r' = r.raise ∨ r'.rank < r.rank
  /-- No more jobs are under way than may be. -/
  bounded : r.underWay.length ≤ limit
  /-- Messages are only taken while a job is under way. -/
  receives : r.next = .receive → r.underWay ≠ []
  /-- Every step leaves the state of a job alone or moves it on. -/
  advances : ∀ r' s', Step store compare (r, s) (r', s') → ∀ i, Keeps r r' i
  /-- States at the end stay for the rest of the run. -/
  stays : ∀ r' s', Reaches workers store compare (r, s) (r', s') → ∀ (i : Nat) (x : JobState),
    r.states[i]? = some x → x.isTerminal = true → r'.states[i]? = some x
  /-- A run that has ended reports one outcome for each job, in the order of the plan and with the
  paths of the job. -/
  reports : r.ended = true → ∀ threshold, (r.report threshold).outcomes.map Outcome.paths =
    plan.jobs.toList.map Job.paths
  /-- By then the observer was told of the start, of each job that ended, one after another, and of
  the end. -/
  observed : r.ended = true →
    r.calls = progressCalls plan.jobs.size plan.jobs.size ++ [.finish]

/-- The books are in order all through a run, and states at the end stay. -/
theorem Tracks.reaches (h : Tracks plan compare limit r phases) (hplan : plan.Tidy)
    (hpaths : ∀ job : Job, (job.outcomeOf (compare job)).paths = job.paths) {workers : Nat}
    {s : σ} {y : Run × σ} (hrun : Reaches workers store compare (r, s) y) :
    (∃ phases', Tracks plan compare limit y.1 phases') ∧ ∀ (i : Nat) (x : JobState),
      r.states[i]? = some x → x.isTerminal = true → y.1.states[i]? = some x := by
  induction hrun with
  | refl => exact ⟨⟨phases, h⟩, fun _ _ hx _ => hx⟩
  | @tail y z _ hstep ih =>
      obtain ⟨⟨phases', h'⟩, hstays⟩ := ih
      obtain ⟨phases'', h'', hmoved⟩ := h'.step hplan hpaths hstep.1
      exact ⟨⟨phases'', h''⟩, fun i x hx hterminal =>
        (h'.keeps hplan h'' hmoved i).terminal (hstays i x hx hterminal) hterminal⟩

theorem Tracks.sound (h : Tracks plan compare limit r phases) (hplan : plan.Tidy)
    (hpaths : ∀ job : Job, (job.outcomeOf (compare job)).paths = job.paths) (hlimit : 0 < limit)
    {workers : Nat} (hbusy : r.busy ≤ workers) (s : σ) :
    Sound plan limit workers store compare r s where
  proceeds hawake := exists_run_act hawake fun _ _ _ hchannel => h.known hchannel
  awaited hwaiting hworkers :=
    exists_speak compare hworkers hbusy (h.pool_ne_nil hlimit hwaiting)
  descends _ _ hstep := hstep.rank_lt
  bounded := h.tally.bound
  receives := h.underWay_of_receive hlimit
  advances r' s' hstep i := by
    obtain ⟨phases', h', hmoved⟩ := h.step hplan hpaths hstep
    exact h.keeps hplan h' hmoved i
  stays r' s' hrun := (h.reaches hplan hpaths hrun).2
  reports hended threshold := h.map_report hplan hended threshold fun job hjob o ho =>
    (h.entry job hjob).paths o ho
  observed hended := by
    have hcount := h.tally.count
    obtain ⟨hahead, hunderWay⟩ := h.tally.closed hended
    rw [hahead, hunderWay] at hcount
    have hcompleted : r.completed = plan.jobs.size := hcount
    rw [h.tally.calls, hended, hcompleted]
    rfl

/-- **Soundness of runs.** Whatever the groups, the settings, the store and the comparisons, what is
stated of a run holds after any steps in any order. -/
theorem sound_of_reaches (groups : List Group) (pairing : Pairing) (w : WorkerSettings)
    (processors : Nat) (store : VerdictStore (StateM σ)) (f : Job → Comparison) {s₀ s : σ}
    {r : Run} (hrun : Reaches (w.effectiveCount processors) store (judge f)
      (start (Plan.ofGroups groups pairing) (w.inFlightLimit processors), s₀) (r, s)) :
    Sound (Plan.ofGroups groups pairing) (w.inFlightLimit processors) (w.effectiveCount processors)
      store (judge f) r s := by
  have hplan := Plan.tidy_ofGroups groups pairing
  have hpaths (job : Job) := job.paths_outcomeOf_judge f
  obtain ⟨⟨phases, htracks⟩, -⟩ :=
    (tracks_start hplan (judge f) (w.inFlightLimit processors)).reaches hplan hpaths hrun
  exact htracks.sound hplan hpaths (by simp [WorkerSettings.inFlightLimit]) (busy_le hrun) s

/-- A run with one job, which is not in the store and whose comparison crashes. -/
theorem exists_crashed_run {s : σ} {a b : Work} (message : String)
    (got : (store.get a.identity b.identity).run s = (none, s))
    (flushed : store.flush.run s = (.ok (), s)) :
    ∃ r : Run, r.ended = true ∧ r.cancelled = false ∧
      Reaches 1 store (judge fun _ => .crashed message) (start ⟨#[⟨0, a, b⟩], 0, 0⟩ 4, s) (r, s) := by
  refine ⟨_, ?_, ?_, .head ⟨.act rfl rfl (run_of_acted (.lookUp rfl got)), Nat.le_of_ble_eq_true rfl⟩ <|
    .head ⟨.act rfl rfl (run_of_acted (.submit rfl)), Nat.le_of_ble_eq_true rfl⟩ <|
    .head ⟨@Step.speak _ _ _ _ _ [] [] _ rfl, Nat.le_of_ble_eq_true rfl⟩ <|
    .head ⟨.act rfl rfl (run_of_acted (.start rfl rfl)), Nat.le_of_ble_eq_true rfl⟩ <|
    .head ⟨@Step.speak _ _ _ _ _ [] [] _ rfl, Nat.le_of_ble_eq_true rfl⟩ <|
    .head ⟨.act rfl rfl (run_of_acted (.fail rfl rfl rfl)), Nat.le_of_ble_eq_true rfl⟩ <|
    .single ⟨.act rfl rfl (run_of_acted (.conclude rfl flushed)), Nat.le_of_ble_eq_true rfl⟩⟩ <;> rfl

/-- At the end of a run whose only comparison crashes. -/
theorem sound_of_reaches_crash : ∃ r : Run,
    Reaches (WorkerSettings.effectiveCount ⟨some 1, 4⟩ 8) .none
      (judge fun _ => .crashed "out of memory")
      (start (Plan.ofGroups [⟨"essays", [.blank ⟨"a"⟩, .blank ⟨"b"⟩]⟩] .manyToMany)
        (WorkerSettings.inFlightLimit ⟨some 1, 4⟩ 8), ()) (r, ()) ∧
    r.ended = true ∧
    Sound (Plan.ofGroups [⟨"essays", [.blank ⟨"a"⟩, .blank ⟨"b"⟩]⟩] .manyToMany)
      (WorkerSettings.inFlightLimit ⟨some 1, 4⟩ 8) (WorkerSettings.effectiveCount ⟨some 1, 4⟩ 8)
      VerdictStore.none (judge fun _ => .crashed "out of memory") r () := by
  have hplan := Plan.ofGroups_pair "essays" (show (Work.blank ⟨"a"⟩).path.before
    (Work.blank ⟨"b"⟩).path = true by decide +kernel)
  obtain ⟨r, hended, -, hrun⟩ := @exists_crashed_run Unit .none () (.blank ⟨"a"⟩) (.blank ⟨"b"⟩)
    "out of memory" rfl rfl
  rw [← hplan] at hrun
  exact ⟨r, hrun, hended, sound_of_reaches _ _ ⟨some 1, 4⟩ 8 .none _ hrun⟩

end Run

end Likeness.Batch
