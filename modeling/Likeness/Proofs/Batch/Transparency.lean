import Likeness.Proofs.Batch.Agreement
import Likeness.Proofs.Batch.Candidates
import Likeness.Proofs.Batch.Rerun
import Likeness.Proofs.Store.File

/-!
# Likeness.Proofs.Batch.Transparency

What a batch finds in a store that other batches have used (`transparent`).

All that a store holds was computed by one of the batches before, for works with the same identities
(`History.computed`). So if equal identities mean equal features, a verdict that is found is the one
that comparing the works would give, under the settings of that earlier batch. These settings do not
count when a store is asked, so it may not be what the batch itself would compute
(`exists_stale_verdict`); it is if the batch accepts the settings of all batches before.
-/

namespace Likeness

namespace Batch

/-! ### Reports -/

/-- Outcomes that agree one by one make up the same status. -/
theorem Report.status_of_agrees {os ps : List Outcome} (h : List.Forall₂ Outcome.Agrees os ps)
    (threshold : UInt8) : (ofOutcomes os threshold).status = (ofOutcomes ps threshold).status := by
  have hsame : os.map (Outcome.status threshold) = ps.map (Outcome.status threshold) := by
    induction h with
    | nil => rfl
    | cons hagree _ ih => rw [List.map_cons, List.map_cons, hagree.status threshold, ih]
  have hfold (os : List Outcome) : (ofOutcomes os threshold).status =
      (os.map (Outcome.status threshold)).foldl Status.union .clean := by
    simp [ofOutcomes_eq, List.foldl_map]
  rw [hfold, hfold, hsame]

/-! ### Batches that share a store -/

/-- A batch that is run: its groups, its settings, and when its works are compared. -/
structure Occasion where
  groups : List Group
  settings : Settings
  clock : Work → Work → Moment

namespace Occasion

def works (o : Occasion) : List Work := o.groups.flatMap Group.works

def plan (o : Occasion) : Plan := .ofGroups o.groups o.settings.pairing

def compare (o : Occasion) (a b : Work) : Comparison := comparison o.settings.compare (o.clock a b) a b

/-- The outcome of a job without a store. -/
def fresh (o : Occasion) (job : Job) : Outcome := (o.compare job.first job.second).outcome job

theorem compare_agrees (o : Occasion) (clock : Work → Work → Moment) {a a' b b' : Work}
    (ha : a.Alike a') (hb : b.Alike b') : ({ o with clock }.compare a b).Agrees (o.compare a' b') :=
  agrees_of_alike (clock a b) ha hb (o.clock a' b')

/-- A run of the batch that has ended, cancelled or not. -/
structure Ended {σ : Type} (o : Occasion) (processors : Nat) (store : VerdictStore (StateM σ)) (s : σ)
    (r : Run) (s' : σ) : Prop where
  reaches : Run.Reaches (o.settings.workers.effectiveCount processors) store
    (judge fun job => o.compare job.first job.second)
    (Run.start o.plan (o.settings.workers.inFlightLimit processors), s) (r, s')
  ended : r.ended = true

end Occasion

/-- In all of the batches, works with the same identity have the same features. -/
def Consistent (os : List Occasion) : Prop :=
  ∀ a ∈ os.flatMap Occasion.works, ∀ b ∈ os.flatMap Occasion.works,
    a.identity.same b.identity = true → { b with identity := a.identity } = a

theorem Consistent.alike {os : List Occasion} (h : Consistent os) {o p : Occasion} (ho : o ∈ os)
    (hp : p ∈ os) {a b : Work} (ha : a ∈ o.works) (hb : b ∈ p.works)
    (hsame : a.identity.same b.identity = true) : a.Alike b :=
  ⟨hsame, h a (List.mem_flatMap_of_mem ho ha) b (List.mem_flatMap_of_mem hp hb) hsame⟩

section

variable {σ : Type} {store : VerdictStore (StateM σ)} {records : σ → Records} {past : List Occasion}
  {o : Occasion} {s s' : σ} {r r' : Run}

/-- The states that batches can leave a store in that was empty at first, the last batch in front. A
batch may have been cancelled or cut short. A store that is opened again has records that it had at some
time, not always the last ones. -/
inductive History (store : VerdictStore (StateM σ)) (records : σ → Records) :
    List Occasion → σ → Prop where
  | new {s : σ} (empty : records s = .empty) : History store records [] s
  | run {past : List Occasion} {o : Occasion} {s s' : σ} {workers limit : Nat} {r : Run}
      (before : History store records past s)
      (reaches : Run.Reaches workers store (judge fun job => o.compare job.first job.second)
        (Run.start o.plan limit, s) (r, s')) : History store records (o :: past) s'
  | reopened {past older : List Occasion} {s s' : σ} (before : History store records older s)
      (earlier : ∀ o ∈ older, o ∈ past) (kept : ∀ x ∈ (records s').toList, x ∈ (records s).toList) :
      History store records past s'

/-- A record is that of a job of the batch, with the full verdict that comparing its works gives. -/
structure Occasion.Computed (o : Occasion) (job : Job) (x : StoredVerdict) : Prop where
  planned : job ∈ o.plan.jobs
  first : x.first = job.first.identity
  second : x.second = job.second.identity
  full : x.verdict.isFull = true
  compared : o.compare job.first job.second = .verdict x.verdict

theorem Occasion.computed_of_judge (o : Occasion) {job : Job} (hjob : job ∈ o.plan.jobs) {v : Verdict}
    (hfull : v.isFull = true) (h : judge (fun job => o.compare job.first job.second) job = .ok v) :
    o.Computed job (.ofPair job.first.identity job.second.identity v) := by
  have hbefore : job.first.identity.path.before job.second.identity.path = true :=
    (Plan.tidy_ofGroups o.groups o.settings.pairing).ordered job hjob
  have hrecord : StoredVerdict.ofPair job.first.identity job.second.identity v =
      ⟨job.first.identity, job.second.identity, v⟩ := by
    rw [StoredVerdict.ofPair, Path.inOrder_of_before hbefore]
  rw [hrecord]
  exact ⟨hjob, rfl, rfl, hfull, verdict_of_judge h⟩

/-- **All that a store holds was computed** by one of the batches that have used it. -/
theorem History.computed (hstore : store.Holds records) (h : History store records past s) :
    ∀ x ∈ (records s).toList, ∃ o ∈ past, ∃ job, o.Computed job x := by
  induction h with
  | new empty =>
      intro x hx
      rw [empty] at hx
      cases hx
  | @run past o s s' workers limit r before reaches ih =>
      have hplan := Plan.tidy_ofGroups o.groups o.settings.pairing
      have hpaths (job : Job) := job.paths_outcomeOf_judge fun job => o.compare job.first job.second
      refine Run.kept_of_compared
        (P := fun s => ∀ x ∈ (records s).toList, ∃ p ∈ o :: past, ∃ job, p.Computed job x)
        hplan hpaths ?_ ?_ ?_ ?_ reaches
      · intro s a b hs
        rw [hstore.get]
        exact hs
      · intro s hs
        rw [hstore.flush]
        exact hs
      · intro job hjob v hfull hcompared s hs x hx
        rw [hstore.put] at hx
        rcases Ordered.mem_insert hx with rfl | hx
        · exact ⟨o, List.mem_cons_self, job, o.computed_of_judge hjob hfull hcompared⟩
        · exact hs x hx
      · intro x hx
        obtain ⟨p, hp, hcomputed⟩ := ih x hx
        exact ⟨p, List.mem_cons_of_mem _ hp, hcomputed⟩
  | reopened before earlier kept ih =>
      intro x hx
      obtain ⟨p, hp, hcomputed⟩ := ih x (kept x hx)
      exact ⟨p, earlier p hp, hcomputed⟩

/-- A store in a file that is closed with nothing left to save is opened again with its history. -/
theorem History.exists_reopened {τ : Type} [Host (StateM τ)] {p : Path} {s : FileStore} {t : τ}
    (h : History (.fileOn τ) (fun x => x.1.records) past (s, t)) (hhost : Host.Steady τ p)
    (hs : s.Sound p t) (hclean : s.dirty = false) (interval : Nat) :
    ∃ s' t', (do s.close; FileStore.open? p interval : StateM τ _).run t = (.ok s', t') ∧
      History (.fileOn τ) (fun x => x.1.records) past (s', t') := by
  obtain ⟨s', t', hreopen, hrecords, -, -⟩ := FileStore.exists_reopen hhost hs hclean interval
  refine ⟨s', t', hreopen, h.reopened (fun o ho => ho) ?_⟩
  intro x hx
  rw [hrecords] at hx
  exact hx

/-- An outcome without a store and one with a store that batches before have used. They agree, unless
the job was cancelled, or a full verdict was found that one of those batches has computed. Then that
batch measures works in another way, or else the quick measures of the verdict passed its threshold and
stay below the one here. -/
inductive Occasion.Finds (o : Occasion) (past : List Occasion) (cancelled : Bool) :
    Outcome → Outcome → Prop where
  | fresh {x y : Outcome} (agrees : x.Agrees y) : Finds o past cancelled x y
  | cancelled {job : Job} {x : Outcome} (planned : job ∈ o.plan.jobs) (paths : x.paths = job.paths)
      (flag : cancelled = true) : Finds o past cancelled x (.failed (Run.cancellation job))
  | otherMeasures {p : Occasion} {job : Job} {f : FullVerdict} {x : Outcome} (earlier : p ∈ past)
      (planned : job ∈ o.plan.jobs) (paths : x.paths = job.paths)
      (other : ¬ o.settings.compare.SameMeasures p.settings.compare)
      (agrees : (p.fresh job).Agrees (.cached job.first.identity job.second.identity (.full f))) :
      Finds o past cancelled x (.cached job.first.identity job.second.identity (.full f))
  | belowThreshold {p : Occasion} {job : Job} {f : FullVerdict} (earlier : p ∈ past)
      (planned : job ∈ o.plan.jobs) (passed : p.settings.compare.stays f.quick = false)
      (stays : o.settings.compare.stays f.quick = true)
      (agrees : (p.fresh job).Agrees (.cached job.first.identity job.second.identity (.full f))) :
      Finds o past cancelled
        (.computed job.first.identity job.second.identity (.quick f.quick))
        (.cached job.first.identity job.second.identity (.full f))

/-- If the settings of all batches before are accepted, nothing but fresh results is found. -/
theorem Occasion.Finds.agrees {x y : Outcome} (h : o.Finds past false x y)
    (haccepts : ∀ p ∈ past, o.settings.compare.Accepts p.settings.compare) : x.Agrees y := by
  cases h with
  | fresh agrees => exact agrees
  | cancelled planned paths flag => cases flag
  | otherMeasures earlier planned paths other agrees =>
      exact absurd (haccepts _ earlier).measures other
  | belowThreshold earlier planned passed stays agrees =>
      rw [(haccepts _ earlier).stays passed] at stays
      cases stays

variable (clock : Work → Work → Moment) {cancelled : Bool}

theorem Occasion.paths_fresh (o : Occasion) (job : Job) : (o.fresh job).paths = job.paths := by
  rw [fresh]
  cases o.compare job.first job.second <;> rfl

/-- What comes of a record that an earlier batch has made. -/
theorem Occasion.Computed.finds {p : Occasion} {job made : Job} {x : StoredVerdict}
    (h : p.Computed made x) (hearlier : p ∈ past) (hjob : job ∈ o.plan.jobs)
    (hfirst : job.first.Alike made.first) (hsecond : job.second.Alike made.second) :
    o.Finds past cancelled ({ o with clock }.fresh job)
      (.cached job.first.identity job.second.identity x.verdict) := by
  obtain ⟨first, second, verdict⟩ := x
  obtain ⟨-, -, -, hfull, hcompared⟩ := h
  cases verdict with
  | quick q => cases hfull
  | full f =>
      have hearly := p.compare_agrees p.clock hfirst hsecond
      rw [hcompared] at hearly
      have hagrees : (p.fresh job).Agrees _ := hearly.cached job
      by_cases hsame : o.settings.compare.SameMeasures p.settings.compare
      · rcases agrees_or_stays (clock job.first job.second) hfirst hsecond hsame hcompared with
          hnow | ⟨hstays, hnow⟩
        · exact .fresh (hnow.cached job)
        · have hpassed := (full_of_comparison hcompared).2.1
          rw [fresh, compare, hnow]
          exact .belowThreshold hearlier hjob hpassed hstays hagrees
      · exact .otherMeasures hearlier hjob (paths_fresh _ job) hsame hagrees

/-- **What a batch finds** for a job in a store with a history. -/
theorem History.finds (h : History store records past s) (hstore : store.Holds records)
    (hconsistent : Consistent (o :: past)) {job : Job} (hjob : job ∈ o.plan.jobs) :
    o.Finds past cancelled ({ o with clock }.fresh job) (Run.expected store s o.compare job) := by
  have hbefore := (Plan.tidy_ofGroups o.groups o.settings.pairing).ordered job hjob
  rw [Run.expected]
  cases hfound : Run.found store s job with
  | none =>
      have hagree := o.compare_agrees clock (.refl job.first) (.refl job.second)
      exact .fresh (hagree.outcome job)
  | some v =>
      rw [Run.found, hstore.peek] at hfound
      obtain ⟨x, hx, rfl, hfirst, hsecond⟩ := Records.exists_of_get? hbefore hfound
      obtain ⟨p, hp, made, hcomputed⟩ := h.computed hstore x hx
      rw [hcomputed.first] at hfirst
      rw [hcomputed.second] at hsecond
      have hworks := Plan.mem_works_of_job hjob
      have hmade := Plan.mem_works_of_job hcomputed.planned
      have hhere : o ∈ o :: past := List.mem_cons_self
      have hthere : p ∈ o :: past := List.mem_cons_of_mem o hp
      exact hcomputed.finds clock hp hjob
        (hconsistent.alike hhere hthere hworks.1 hmade.1 hfirst)
        (hconsistent.alike hhere hthere hworks.2 hmade.2 hsecond)

theorem Occasion.Ended.exists_foretold {processors : Nat} (h : o.Ended processors store s r s')
    (hstore : store.Separate) (threshold : UInt8) :
    ∃ outcomes, r.report threshold =
        { Report.ofOutcomes outcomes threshold with storeWarnings := r.warnings } ∧
      List.Forall₂ (Run.Foretold store s o.compare r.cancelled) o.plan.jobs.toList outcomes := by
  obtain ⟨outcomes, hreported, hforetold⟩ := Run.exists_foretold
    (Plan.tidy_ofGroups o.groups o.settings.pairing) hstore h.reaches h.ended
  exact ⟨outcomes, Run.outcomes_report hreported threshold, hforetold⟩

end

/-! ### Batches of two works -/

/-- A batch of two works. -/
def Occasion.ofPair (a b : Work) (compare : CompareSettings) (now : Moment) : Occasion where
  groups := [⟨"essays", [a, b]⟩]
  settings := { Settings.default with compare }
  clock _ _ := now

theorem Occasion.plan_ofPair {a b : Work} (hbefore : a.path.before b.path = true)
    (compare : CompareSettings) (now : Moment) :
    (ofPair a b compare now).plan = ⟨#[⟨0, a, b⟩], 0, 0⟩ := Plan.ofGroups_pair "essays" hbefore

theorem Occasion.exists_ended {σ : Type} (store : VerdictStore (StateM σ)) (s : σ) (a b : Work)
    (compare : CompareSettings) (now : Moment) :
    ∃ r s', (ofPair a b compare now).Ended 8 store s r s' ∧ r.cancelled = false := by
  have hworkers : 0 < Settings.default.workers.effectiveCount 8 := by decide
  obtain ⟨r, s', -, h⟩ := Run.exists_completed (ofPair a b compare now).groups
    (ofPair a b compare now).settings store (ofPair a b compare now).compare hworkers s
  exact ⟨r, s', ⟨h.reaches, h.ended⟩, h.uncancelled⟩

/-- The outcomes of a run that was not cancelled. -/
theorem Occasion.Ended.outcomes_ofPair {σ : Type} {store : VerdictStore (StateM σ)} {s s' : σ}
    {r : Run} {a b : Work} {compare : CompareSettings} {now : Moment}
    (h : (ofPair a b compare now).Ended 8 store s r s') (huncancelled : r.cancelled = false)
    (hstore : store.Separate) (hbefore : a.path.before b.path = true) (threshold : UInt8) :
    (r.report threshold).outcomes =
      [Run.expected store s (ofPair a b compare now).compare ⟨0, a, b⟩] := by
  obtain ⟨outcomes, hreport, hforetold⟩ := h.exists_foretold hstore threshold
  rw [huncancelled, plan_ofPair hbefore] at hforetold
  rw [hreport]
  exact Run.outcomes_of_foretold hforetold

/-- What a comparison that came to a full verdict leaves in the store is found later on, however the
works would compare then. -/
theorem Job.expected_left {c : Comparison} {job : Job} (h : (c.outcome job).left?.isSome = true)
    (later : Comparison) :
    job.expected (c.outcome job).left? later = (c.outcome job).again := by
  cases c with
  | verdict v =>
      cases v with
      | quick q => cases h
      | full f => rfl
  | refused message => cases h
  | crashed message => cases h

/-- After a batch of two works that came to a full verdict, a batch of the same works finds it, whatever
the settings. -/
theorem Occasion.exists_found {a b : Work} (hbefore : a.path.before b.path = true)
    (first : CompareSettings) (now : Moment)
    (hfull : ((comparison first now a b).outcome ⟨0, a, b⟩).left?.isSome = true) :
    ∃ r₁ s₁, (ofPair a b first now).Ended 8 .memory .empty r₁ s₁ ∧ r₁.cancelled = false ∧
      ∀ later now', ∃ r₂ s₂ r₃, (ofPair a b later now').Ended 8 .memory s₁ r₂ s₂ ∧
        r₂.cancelled = false ∧ (ofPair a b later now').Ended 8 .none () r₃ () ∧ r₃.cancelled = false ∧
        ∀ threshold,
          (r₂.report threshold).outcomes = [((comparison first now a b).outcome ⟨0, a, b⟩).again] ∧
          (r₃.report threshold).outcomes = [(comparison later now' a b).outcome ⟨0, a, b⟩] := by
  obtain ⟨r₁, s₁, h₁, hcancelled₁⟩ := exists_ended .memory .empty a b first now
  refine ⟨r₁, s₁, h₁, hcancelled₁, ?_⟩
  intro later now'
  obtain ⟨r₂, s₂, h₂, hcancelled₂⟩ := exists_ended .memory s₁ a b later now'
  obtain ⟨r₃, s₃, h₃, hcancelled₃⟩ := exists_ended .none () a b later now'
  refine ⟨r₂, s₂, r₃, h₂, hcancelled₂, h₃, hcancelled₃, ?_⟩
  intro threshold
  constructor
  · have hjob : ⟨0, a, b⟩ ∈ (ofPair a b first now).plan.jobs := by
      rw [plan_ofPair hbefore]
      exact Array.mem_singleton.mpr rfl
    have hleft : Run.found .memory s₁ ⟨0, a, b⟩ =
        ((comparison first now a b).outcome ⟨0, a, b⟩).left? :=
      Run.found_of_reaches (Plan.tidy_ofGroups _ _) VerdictStore.recalls_memory h₁.reaches h₁.ended
        hcancelled₁ hjob
    rw [h₂.outcomes_ofPair hcancelled₂ VerdictStore.separate_memory hbefore, Run.expected, hleft]
    exact congrArg (fun o => [o]) (Job.expected_left hfull _)
  · exact h₃.outcomes_ofPair hcancelled₃ VerdictStore.separate_none hbefore threshold

/-- A work and one that has its first tokens and the outer part of its outline. -/
def draft : Work :=
  { Work.blank ⟨"draft"⟩ with tokens := [1, 2, 3, 4], outline := [⟨1, 0⟩, ⟨2, 0⟩] }

def excerpt : Work :=
  { Work.blank ⟨"excerpt"⟩ with tokens := [1, 2, 5, 6], outline := [⟨1, 0⟩] }

/-- The defaults with some threshold. -/
def passing (threshold : UInt8) : CompareSettings := { CompareSettings.default with threshold }

theorem consistent_drafts (first later : CompareSettings) (now now' : Moment) :
    Consistent [.ofPair draft excerpt later now', .ofPair draft excerpt first now] := by
  unfold Consistent
  change ∀ a ∈ [draft, excerpt, draft, excerpt], ∀ b ∈ [draft, excerpt, draft, excerpt], _
  decide +kernel

/-! ### Transparency -/

/-- **A store makes no difference but for the settings.** Batches have used a store that was empty at
first, and works with the same identity had the same features in all of them. Take any run of another
batch with that store, and any run of it without a store that was not cancelled.

The outcomes stand for the same jobs in the same order. They agree up to the date, unless the job was
cancelled, or a full verdict was found that an earlier batch gives whose settings differ in the weights,
in the length of windows or in the depth, or whose threshold the quick measures of the works passed
while they stay below the one of this batch. So all of them agree if the settings of all batches before are
accepted and nothing was cancelled, and if all of them agree, both runs have the same status. -/
theorem transparent {σ : Type} {store : VerdictStore (StateM σ)} {records : σ → Records}
    {past : List Occasion} {o : Occasion} {s s' : σ} {r r' : Run} {clock : Work → Work → Moment}
    {processors processors' : Nat} (hstore : store.Holds records)
    (h : History store records past s) (hconsistent : Consistent (o :: past))
    (hrun : o.Ended processors store s r s') (hfresh : { o with clock }.Ended processors' .none () r' ())
    (huncancelled : r'.cancelled = false) (threshold : UInt8) :
    List.Forall₂ (o.Finds past r.cancelled) (r'.report threshold).outcomes
        (r.report threshold).outcomes ∧
      ((∀ p ∈ past, o.settings.compare.Accepts p.settings.compare) → r.cancelled = false →
        List.Forall₂ Outcome.Agrees (r'.report threshold).outcomes (r.report threshold).outcomes) ∧
      (List.Forall₂ Outcome.Agrees (r'.report threshold).outcomes (r.report threshold).outcomes →
        (r'.report threshold).status = (r.report threshold).status) := by
  obtain ⟨found, hreport, hforetold⟩ := hrun.exists_foretold hstore.recalls.toSeparate threshold
  obtain ⟨fresh, hreport', hfreshly⟩ := hfresh.exists_foretold VerdictStore.separate_none threshold
  rw [huncancelled] at hfreshly
  rw [hreport, hreport', Run.outcomes_of_foretold hfreshly]
  have hfinds : List.Forall₂ (o.Finds past r.cancelled)
      (o.plan.jobs.toList.map { o with clock }.fresh) found := by
    rw [List.forall₂_map_left_iff]
    have hplanned := (List.forall₂_and_left _ _).mpr
      ⟨fun job hjob => Array.mem_toList_iff.mp hjob, hforetold⟩
    refine hplanned.imp ?_
    intro job x hx
    obtain ⟨hjob, rfl | ⟨hflag, rfl⟩⟩ := hx
    · exact h.finds clock hstore hconsistent hjob
    · exact .cancelled hjob (Occasion.paths_fresh _ job) hflag
  refine ⟨hfinds, ?_, ?_⟩
  · intro haccepts hcancelled
    rw [hcancelled] at hfinds
    exact hfinds.imp fun x y hxy => hxy.agrees haccepts
  · intro hagree
    exact Report.status_of_agrees hagree threshold

/-- With a lower threshold the verdict of an earlier batch is still the right one. -/
theorem transparent_lower_threshold : ∃ (r₁ r₂ r₃ : Run) (s₁ s₂ : Records),
    (Occasion.ofPair draft excerpt (passing 52) ⟨0, 0⟩).Ended 8 .memory .empty r₁ s₁ ∧
      (Occasion.ofPair draft excerpt (passing 50) ⟨86400, 0⟩).Ended 8 .memory s₁ r₂ s₂ ∧
      (Occasion.ofPair draft excerpt (passing 50) ⟨86400, 0⟩).Ended 8 .none () r₃ () ∧
      r₂.cancelled = false ∧ r₃.cancelled = false ∧
      (r₂.report 50).outcomes.map Outcome.state = [.cacheHit] ∧
      (r₃.report 50).outcomes.map Outcome.state = [.completed] ∧
      List.Forall₂ Outcome.Agrees (r₃.report 50).outcomes (r₂.report 50).outcomes ∧
      (r₃.report 50).status = (r₂.report 50).status := by
  have hbefore : draft.path.before excerpt.path = true := by decide +kernel
  have hfull : ((comparison (passing 52) ⟨0, 0⟩ draft excerpt).outcome
      ⟨0, draft, excerpt⟩).left?.isSome = true := by decide +kernel
  obtain ⟨r₁, s₁, h₁, -, hlater⟩ := Occasion.exists_found hbefore (passing 52) ⟨0, 0⟩ hfull
  obtain ⟨r₂, s₂, r₃, h₂, hcancelled₂, h₃, hcancelled₃, houtcomes⟩ := hlater (passing 50) ⟨86400, 0⟩
  obtain ⟨hfound, hfresh⟩ := houtcomes 50
  have hhistory : History .memory id [.ofPair draft excerpt (passing 52) ⟨0, 0⟩] s₁ :=
    .run (.new rfl) h₁.reaches
  obtain ⟨-, hagrees, hstatus⟩ := transparent VerdictStore.holds_memory hhistory
    (consistent_drafts _ _ _ _) h₂ h₃ hcancelled₃ 50
  have haccepts : (passing 50).Accepts (passing 52) :=
    ⟨⟨rfl, rfl, rfl⟩, fun threshold h => ⟨52, rfl, by cases h; decide⟩⟩
  have hpast : ∀ p ∈ [Occasion.ofPair draft excerpt (passing 52) ⟨0, 0⟩],
      (passing 50).Accepts p.settings.compare := by
    intro p hp
    rw [List.mem_singleton.mp hp]
    exact haccepts
  have hagree := hagrees hpast hcancelled₂
  refine ⟨r₁, r₂, r₃, s₁, s₂, h₁, h₂, h₃, hcancelled₂, hcancelled₃, ?_, ?_, hagree, hstatus hagree⟩
  · rw [hfound]
    decide +kernel
  · rw [hfresh]
    decide +kernel

/-- Settings without a threshold. -/
def lenient : CompareSettings := { CompareSettings.default with ignoreThreshold := true }

/-- Settings under which drafts do not compare as they do without a threshold: with a threshold, or
with other windows, other weights or less depth. -/
def revised : List CompareSettings :=
  [.default, { lenient with windowLength := 2 }, { lenient with weights := ⟨.one, .one, .one, .one⟩ },
    { lenient with maxDepth := some 1 }]

/-- **Stale verdicts.** What a batch without a threshold has left in the store is found by later batches
of the same works with other settings, which would not come to it. -/
theorem exists_stale_verdict : ∃ (r₁ : Run) (s₁ : Records),
    (Occasion.ofPair draft excerpt lenient ⟨0, 0⟩).Ended 8 .memory .empty r₁ s₁ ∧
      r₁.cancelled = false ∧ (∀ compare ∈ lenient :: revised, compare.check = .ok ()) ∧
      ∀ later ∈ revised,
        Consistent [.ofPair draft excerpt later ⟨86400, 0⟩, .ofPair draft excerpt lenient ⟨0, 0⟩] ∧
        ∃ (r₂ : Run) (s₂ : Records) (r₃ : Run),
          (Occasion.ofPair draft excerpt later ⟨86400, 0⟩).Ended 8 .memory s₁ r₂ s₂ ∧
          r₂.cancelled = false ∧
          (Occasion.ofPair draft excerpt later ⟨86400, 0⟩).Ended 8 .none () r₃ () ∧
          r₃.cancelled = false ∧
          ¬ List.Forall₂ Outcome.Agrees (r₃.report 65).outcomes (r₂.report 65).outcomes ∧
          (later = .default → (r₃.report 65).status ≠ (r₂.report 65).status) := by
  have hbefore : draft.path.before excerpt.path = true := by decide +kernel
  have hfull : ((comparison lenient ⟨0, 0⟩ draft excerpt).outcome
      ⟨0, draft, excerpt⟩).left?.isSome = true := by decide +kernel
  have hmeasures : ∀ later ∈ revised,
      ((comparison later ⟨86400, 0⟩ draft excerpt).outcome ⟨0, draft, excerpt⟩).measures ≠
        ((comparison lenient ⟨0, 0⟩ draft excerpt).outcome ⟨0, draft, excerpt⟩).again.measures := by
    decide +kernel
  obtain ⟨r₁, s₁, h₁, hcancelled₁, hlater⟩ := Occasion.exists_found hbefore lenient ⟨0, 0⟩ hfull
  refine ⟨r₁, s₁, h₁, hcancelled₁, by decide +kernel, ?_⟩
  intro later hrevised
  refine ⟨consistent_drafts _ _ _ _, ?_⟩
  obtain ⟨r₂, s₂, r₃, h₂, hcancelled₂, h₃, hcancelled₃, houtcomes⟩ := hlater later ⟨86400, 0⟩
  obtain ⟨hfound, hfresh⟩ := houtcomes 65
  refine ⟨r₂, s₂, r₃, h₂, hcancelled₂, h₃, hcancelled₃, ?_, ?_⟩
  · rw [hfound, hfresh]
    intro hagrees
    cases hagrees with
    | cons hagree _ => exact hmeasures later hrevised hagree.measures
  · intro hdefault
    subst hdefault
    rw [Run.status_report, Run.status_report, hfound, hfresh]
    decide +kernel

end Batch

end Likeness
