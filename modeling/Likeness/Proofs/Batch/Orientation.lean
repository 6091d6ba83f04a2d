import Likeness.Proofs.Batch.Transparency

/-!
# Likeness.Proofs.Batch.Orientation

Which of two works comes first, wherever a batch puts two works in order.

Works are put in order when they are planned and when they are compared, their identities when a store
is asked about them, when a verdict on them is put there and when a record is told to be theirs. Each
goes by the paths alone, so two works with different paths have one order in all places
(`Work.exists_oriented`), however they are given.

What a run computes for a job is therefore on the works of the job as they stand, and so is the record
that is left of it: the records of a store after any run are those before with the full verdicts put
there that were computed, each once (`Run.records_of_reaches`), and no two of them have one key.
-/

namespace Likeness

/-! ### One order -/

/-- Two works come as `first` and `second` wherever two works are put in order. -/
structure Work.Oriented (a b first second : Work) : Prop where
  /-- When they are compared. -/
  compared : Work.inOrder a b = (first, second)
  /-- When they are planned. -/
  planned : ∀ d : Batch.Plan.Draft, d.consider a b =
    if d.seen.contains (Path.pairKey first.path second.path) then
      { d with plan := { d.plan with skippedDuplicate := d.plan.skippedDuplicate + 1 } }
    else d.addPair first second
  /-- In the key of their record. -/
  keyed : Identity.pairKey a.identity b.identity = Path.pairKey first.path second.path
  /-- When records are asked about them. -/
  sought : ∀ rs : Records, rs.get? a.identity b.identity =
    ((rs.find? (Path.pairKey first.path second.path)).filter fun x =>
      x.first.same first.identity && x.second.same second.identity).map (·.verdict)
  /-- In the record of a verdict on them. -/
  stored : ∀ v, StoredVerdict.ofPair a.identity b.identity v = ⟨first.identity, second.identity, v⟩
  /-- When a record is told to be theirs. -/
  recognised : ∀ x : StoredVerdict, x.isFor a.identity b.identity =
    (x.first.same first.identity && x.second.same second.identity)

/-- All orders are that of the paths. -/
theorem Work.oriented_of_inOrder {a b first second : Work}
    (h : Work.inOrder a b = (first, second)) (hbefore : first.path.before second.path = true) :
    a.Oriented b first second := by
  have hidentities : Path.inOrder Identity.path a.identity b.identity =
      (first.identity, second.identity) := by
    rw [Path.inOrder_map]
    exact congrArg (Prod.map Work.identity Work.identity) h
  have hkeyed : Identity.pairKey a.identity b.identity = Path.pairKey first.path second.path := by
    unfold Identity.pairKey
    rw [hidentities]
    rfl
  have hrecognised (x : StoredVerdict) : x.isFor a.identity b.identity =
      (x.first.same first.identity && x.second.same second.identity) := by
    unfold StoredVerdict.isFor
    rw [hidentities]
  refine ⟨h, ?_, hkeyed, ?_, ?_, hrecognised⟩
  · intro d
    unfold Batch.Plan.Draft.consider
    rw [h]
    simp only [Path.not_same_of_before hbefore, Bool.false_eq_true, if_false]
  · intro rs
    rw [Records.get?_eq, hkeyed]
    simp only [hrecognised]
  · intro v
    unfold StoredVerdict.ofPair
    rw [hidentities]

/-- **One order everywhere.** Two works with different paths come in one order wherever they are put in
order, however they are given. -/
theorem Work.exists_oriented {a b : Work} (h : ¬ a.path.same b.path = true) :
    ∃ first second, ((first, second) = (a, b) ∨ (first, second) = (b, a)) ∧
      first.path.before second.path = true ∧
      a.Oriented b first second ∧ b.Oriented a first second := by
  by_cases hbefore : b.path.before a.path = true
  · exact ⟨b, a, .inr rfl, hbefore, oriented_of_inOrder (Path.inOrder_of_before_swap hbefore) hbefore,
      oriented_of_inOrder (Path.inOrder_of_before hbefore) hbefore⟩
  · have hab := Path.before_of_not_same h hbefore
    exact ⟨a, b, .inl rfl, hab, oriented_of_inOrder (Path.inOrder_of_before hab) hab,
      oriented_of_inOrder (Path.inOrder_of_before_swap hab) hab⟩

/-! ### Verdicts on works in order -/

namespace Matrix

theorem rows_ofGrid (g : Grid Fraction) (rows cols : Nat) : (ofGrid g rows cols).rows = rows := by
  simp [ofGrid, Matrix.rows]

theorem length_of_mem_ofGrid {g : Grid Fraction} {rows cols : Nat} {row : List Fraction}
    (h : row ∈ (ofGrid g rows cols).cells) : row.length = cols := by
  obtain ⟨i, -, rfl⟩ := List.mem_map.mp h
  simp

theorem cols_ofGrid (g : Grid Fraction) {rows : Nat} (cols : Nat) (h : 0 < rows) :
    (ofGrid g rows cols).cols = cols := by
  cases rows with
  | zero => cases h
  | succ rows => simp [ofGrid, Matrix.cols, List.range_succ_eq_map]

end Matrix

/-- A full verdict shows two works, the first and the second: it names both, and it attributes their
likeness to the heads of the first, one row for each, and those of the second, one column for each. -/
structure FullVerdict.Shows (f : FullVerdict) (s : CompareSettings) (a b : Work) : Prop
    extends f.On a b where
  outline : f.outline = .ofOutlines (a.outline.upTo s.maxDepth) (b.outline.upTo s.maxDepth)
    a.heads.length b.heads.length
  rows : f.outline.matrix.rows = a.heads.length
  cols : 0 < f.outline.matrix.rows → f.outline.matrix.cols = b.heads.length
  widths : ∀ row ∈ f.outline.matrix.cells, row.length = b.heads.length

/-- What comes of comparing two works in order shows them as they stand. -/
theorem FullVerdict.shows_of_compareWorks {a b : Work} {s : CompareSettings} {now : Moment}
    {f : FullVerdict} (hbefore : a.path.before b.path = true)
    (h : compareWorks a b s now = .ok (.full f)) : f.Shows s a b := by
  have hverdict := eq_of_compareWorks h
  have horder : Work.inOrder a b = (a, b) := Path.inOrder_of_before hbefore
  rw [horder] at hverdict
  have houtline : f.outline = .ofOutlines (a.outline.upTo s.maxDepth) (b.outline.upTo s.maxDepth)
      a.heads.length b.heads.length := by
    rw [hverdict]
  have hrows : f.outline.matrix.rows = a.heads.length := by
    rw [houtline]
    exact Matrix.rows_ofGrid ..
  refine ⟨⟨by rw [hverdict], by rw [hverdict]⟩, houtline, hrows, ?_, ?_⟩
  · intro hpos
    rw [hrows] at hpos
    rw [houtline]
    exact Matrix.cols_ofGrid _ _ hpos
  · rw [houtline]
    exact fun row hrow => Matrix.length_of_mem_ofGrid hrow

/-! ### Records after verdicts were put -/

namespace Records

/-- The records after some verdicts were put, one after another. -/
def putAll (rs : Records) (puts : List (Identity × Identity × Verdict)) : Records :=
  puts.foldl (fun rs (a, b, v) => rs.put a b v) rs

/-- The key of a verdict that is put. -/
def putKey (p : Identity × Identity × Verdict) : Path.PairKey := Identity.pairKey p.1 p.2.1

theorem putAll_append (rs : Records) (puts later : List (Identity × Identity × Verdict)) :
    rs.putAll (puts ++ later) = (rs.putAll puts).putAll later := List.foldl_append

theorem find?_putAll_of_notMem {rs : Records} {puts : List (Identity × Identity × Verdict)}
    {key : Path.PairKey} (h : key ∉ puts.map putKey) : (rs.putAll puts).find? key = rs.find? key := by
  induction puts generalizing rs with
  | nil => rfl
  | cons p puts ih =>
      obtain ⟨hne, hnot⟩ := not_or.mp (mt List.mem_cons.mpr h)
      exact (ih hnot).trans (find?_put_of_ne p.2.2 hne)

/-- Of verdicts with different keys each is found under its own. -/
theorem find?_putAll {puts : List (Identity × Identity × Verdict)}
    (hkeys : (puts.map putKey).Nodup) (rs : Records) {a b : Identity} {v : Verdict}
    (h : (a, b, v) ∈ puts) :
    (rs.putAll puts).find? (Identity.pairKey a b) = some (.ofPair a b v) := by
  induction puts generalizing rs with
  | nil => cases h
  | cons p puts ih =>
      obtain ⟨hnew, hkeys⟩ := List.nodup_cons.mp hkeys
      rcases List.mem_cons.mp h with rfl | h
      · exact (find?_putAll_of_notMem hnew).trans (find?_put_self rs a b v)
      · exact ih hkeys _ h

end Records

namespace Batch

/-- What an outcome has to put into the store is what it was computed to be. -/
theorem Outcome.full?_eq_some {o : Outcome} {p : Identity × Identity × Verdict} :
    o.full? = some p ↔ ∃ first second v, o = .computed first second v ∧ p = (first, second, v) ∧
      v.isFull = true := by
  constructor
  · intro h
    cases o with
    | cached first second v => cases h
    | failed fault => cases h
    | computed first second v =>
        rw [Outcome.full?] at h
        split at h
        next hfull => exact ⟨first, second, v, rfl, (Option.some.inj h).symm, hfull⟩
        next => cases h
  · rintro ⟨first, second, v, rfl, rfl, hfull⟩
    rw [Outcome.full?, if_pos hfull]

theorem Phase.eq_ended {p : Phase} {o : Outcome} (h : p.outcome? = some o) : p = .ended o := by
  cases p with
  | ended o' => rw [Option.some.inj h]
  | ahead => cases h
  | scheduled => cases h
  | running => cases h

/-- A job whose verdict was computed has been compared. -/
theorem Phase.Move.computed {compare : Job → Except PairFault Verdict} {cancelled : Bool} {job : Job}
    {p : Phase} {first second : Identity} {v : Verdict}
    (h : Move compare cancelled job p (.ended (.computed first second v))) :
    first = job.first.identity ∧ second = job.second.identity ∧ compare job = .ok v := by
  generalize hend : Phase.ended (.computed first second v) = q at h
  cases h with
  | hit w => cases hend
  | cancel flag => cases hend
  | submit => cases hend
  | start => cases hend
  | finish =>
      cases hresult : compare job with
      | error f =>
          rw [hresult] at hend
          cases hend
      | ok w =>
          rw [hresult] at hend
          cases hend
          exact ⟨rfl, rfl, rfl⟩

namespace Run

variable {σ : Type} {store : VerdictStore (StateM σ)} {records : σ → Records}
  {compare : Job → Except PairFault Verdict} {plan : Plan} {limit : Nat} {r : Run}
  {phases : Nat → Phase} {s₀ s : σ} {calls : List VerdictStore.Call}

/-- **What a run makes of the records**: full verdicts are put there, one after another. -/
theorem records_of_reaches (hplan : plan.Tidy)
    (hpaths : ∀ job : Job, (job.outcomeOf (compare job)).paths = job.paths)
    (hstore : store.Holds records) {workers : Nat}
    (hrun : Reaches workers store.logged compare (start plan limit, s₀, []) (r, s, calls)) :
    records s = (records s₀).putAll (calls.filterMap VerdictStore.Call.put?) := by
  refine kept_of_compared (P := fun x : σ × List VerdictStore.Call =>
    records x.1 = (records s₀).putAll (x.2.filterMap VerdictStore.Call.put?))
    hplan hpaths ?_ ?_ ?_ rfl hrun
  · intro x a b hx
    exact (hstore.get x.1 a b).trans hx
  · intro x hx
    rw [VerdictStore.run_flush_logged, List.filterMap_append, List.filterMap_cons_none rfl,
      List.filterMap_nil, List.append_nil]
    exact (hstore.flush x.1).trans hx
  · intro job _ v _ _ x hx
    rw [VerdictStore.run_put_logged, List.filterMap_append, Records.putAll_append, ← hx]
    exact hstore.put x.1 _ _ v

/-! ### What a run computes -/

/-- A job has ended by one of its moves. -/
theorem exists_move_of_reaches (hplan : plan.Tidy)
    (hpaths : ∀ job : Job, (job.outcomeOf (compare job)).paths = job.paths) {workers : Nat}
    {y : Run × σ} (hrun : Reaches workers store compare (start plan limit, s₀) y) :
    ∃ phases, Tracks plan compare limit y.1 phases ∧ ∀ job ∈ plan.jobs, ∀ o,
      phases job.id = .ended o → ∃ cancelled p, Phase.Move compare cancelled job p (.ended o) := by
  induction hrun with
  | refl => exact ⟨_, tracks_start hplan compare limit, fun _ _ _ ho => by cases ho⟩
  | @tail y z _ hstep ih =>
      obtain ⟨phases, htracks, hended⟩ := ih
      obtain ⟨phases', htracks', hmoved⟩ := htracks.step hplan hpaths hstep.1
      refine ⟨phases', htracks', fun job hjob o ho => ?_⟩
      rcases hmoved with rfl | ⟨mover, hmover, p, rfl, hmove⟩
      · exact hended job hjob o ho
      · by_cases hid : job.id = mover.id
        · obtain rfl := hplan.eq_of_id_eq hjob hmover hid
          rw [Function.update_self] at ho
          exact ⟨_, _, ho ▸ hmove⟩
        · rw [Function.update_of_ne hid] at ho
          exact hended job hjob o ho

/-- What is computed for a job is what its comparison gave, under the identities of the job. -/
theorem computed_of_reaches (hplan : plan.Tidy)
    (hpaths : ∀ job : Job, (job.outcomeOf (compare job)).paths = job.paths) {workers : Nat}
    {y : Run × σ} (hrun : Reaches workers store compare (start plan limit, s₀) y) {n : Nat}
    {first second : Identity} {v : Verdict}
    (ho : y.1.outcomes[n]? = some (some (.computed first second v))) :
    ∃ job, plan.jobs[n]? = some job ∧ first = job.first.identity ∧ second = job.second.identity ∧
      compare job = .ok v := by
  obtain ⟨phases, htracks, hended⟩ := exists_move_of_reaches hplan hpaths hrun
  have hlt : n < plan.jobs.size := by
    rw [← htracks.tally.outcomes]
    exact (Array.getElem?_eq_some_iff.mp ho).1
  obtain ⟨job, hjob⟩ : ∃ job, plan.jobs[n]? = some job := ⟨_, Array.getElem?_eq_getElem hlt⟩
  have hmem : job ∈ plan.jobs := Array.mem_of_getElem? hjob
  obtain rfl := hplan.numbered n job hjob
  have hphase := (htracks.entry job hmem).outcome
  rw [ho] at hphase
  obtain ⟨cancelled, p, hmove⟩ :=
    hended job hmem _ (Phase.eq_ended (Option.some.inj hphase).symm)
  obtain ⟨hfirst, hsecond, hresult⟩ := hmove.computed
  exact ⟨job, hjob, hfirst, hsecond, hresult⟩

/-- Full verdicts that were computed have different keys. -/
theorem Tracks.nodup_fulls (h : Tracks plan compare limit r phases) (hplan : plan.Tidy) :
    (r.fulls.map Records.putKey).Nodup := by
  rw [fulls, h.outcomes_toList hplan, List.filterMap_map, List.Nodup, List.pairwise_map,
    List.pairwise_filterMap]
  have hkey {job : Job} (hjob : job ∈ plan.jobs.toList) {p : Identity × Identity × Verdict}
      (hp : (phases job.id).outcome?.bind Outcome.full? = some p) : Records.putKey p = job.key := by
    have hjob := Array.mem_toList_iff.mp hjob
    obtain ⟨o, ho, hfull⟩ := Option.bind_eq_some_iff.mp hp
    have hpaths := (h.entry job hjob).paths o (Phase.eq_ended ho)
    obtain ⟨first, second, v, rfl, rfl, -⟩ := Outcome.full?_eq_some.mp hfull
    obtain ⟨hfirst, hsecond⟩ := Prod.mk.inj hpaths
    have hbefore := hplan.ordered job hjob
    rw [← hfirst, ← hsecond] at hbefore
    rw [Records.putKey, Identity.pairKey_of_before hbefore, Job.key, hfirst, hsecond]
  refine (List.pairwise_map.mp hplan.distinct).imp_of_mem ?_
  intro job other hjob hother hne p hp q hq heq
  exact hne ((hkey hjob hp).symm.trans (heq.trans (hkey hother hq)))

/-- Every full verdict that was computed is put into the store, and no two under one key. -/
theorem exists_puts_of_reaches (hplan : plan.Tidy)
    (hpaths : ∀ job : Job, (job.outcomeOf (compare job)).paths = job.paths) {workers : Nat}
    (hrun : Reaches workers store compare (start plan limit, s₀) (r, s)) :
    ∃ calls, Reaches workers store.logged compare (start plan limit, s₀, []) (r, s, calls) ∧
      ((calls.filterMap VerdictStore.Call.put?).map Records.putKey).Nodup ∧
      ∀ (n : Nat) (first second : Identity) (v : Verdict),
        r.outcomes[n]? = some (some (.computed first second v)) → v.isFull = true →
        (first, second, v) ∈ calls.filterMap VerdictStore.Call.put? := by
  obtain ⟨calls, hlogged, hwritten⟩ := exists_calls hplan hpaths hrun
  obtain ⟨⟨phases, htracks⟩, -⟩ := (tracks_start hplan compare limit).reaches hplan hpaths hrun
  refine ⟨calls, hlogged, ?_, ?_⟩
  · exact (hwritten.puts.map Records.putKey).nodup_iff.mpr (htracks.nodup_fulls hplan)
  · intro n first second v ho hfull
    refine hwritten.puts.mem_iff.mpr (List.mem_filterMap.mpr ?_)
    refine ⟨_, Array.mem_toList_iff.mpr (Array.mem_of_getElem? ho), ?_⟩
    exact Outcome.full?_eq_some.mpr ⟨first, second, v, rfl, rfl, hfull⟩

/-! ### What is left of it -/

/-- What has become of a full verdict that a run computed for two identities, in this order. The run has
come from `start` to `r`, and its store from `s₀` to `s`. -/
structure Filed (workers : Nat) (store : VerdictStore (StateM σ))
    (compare : Job → Except PairFault Verdict) (start : Run) (s₀ : σ) (r : Run) (s : σ)
    (first second : Identity) (v : Verdict) : Prop where
  /-- The store was asked once to put it for them. -/
  put : ∃ calls, Reaches workers store.logged compare (start, s₀, []) (r, s, calls) ∧
    (calls.filterMap VerdictStore.Call.put?).count (first, second, v) = 1
  /-- A store that holds records has it under the key of the two, with both as they stand. -/
  record : ∀ records : σ → Records, store.Holds records →
    (records s).find? (Identity.pairKey first second) = some ⟨first, second, v⟩
  /-- Such a store gives it for the two. -/
  found : ∀ records : σ → Records, store.Holds records → store.peek s first second = some v

/-- Full verdicts that were computed are on record, for the identities of the job as they stand. -/
theorem filed_of_reaches (hplan : plan.Tidy)
    (hpaths : ∀ job : Job, (job.outcomeOf (compare job)).paths = job.paths) {workers : Nat}
    (hrun : Reaches workers store compare (start plan limit, s₀) (r, s)) {n : Nat}
    {first second : Identity} {v : Verdict}
    (ho : r.outcomes[n]? = some (some (.computed first second v))) (hfull : v.isFull = true) :
    Filed workers store compare (start plan limit) s₀ r s first second v := by
  obtain ⟨job, hjob, rfl, rfl, -⟩ := computed_of_reaches hplan hpaths hrun ho
  have horder : Path.inOrder Identity.path job.first.identity job.second.identity =
      (job.first.identity, job.second.identity) :=
    Path.inOrder_of_before (hplan.ordered job (Array.mem_of_getElem? hjob))
  obtain ⟨calls, hlogged, hkeys, hputs⟩ := exists_puts_of_reaches hplan hpaths hrun
  have hmem := hputs n _ _ v ho hfull
  have hrecord (records : σ → Records) (hstore : store.Holds records) :
      (records s).find? (Identity.pairKey job.first.identity job.second.identity) =
        some (.ofPair job.first.identity job.second.identity v) := by
    rw [records_of_reaches hplan hpaths hstore hlogged]
    exact Records.find?_putAll hkeys _ hmem
  refine ⟨⟨calls, hlogged, List.count_eq_one_of_mem hkeys.of_map hmem⟩, ?_, ?_⟩
  · intro records hstore
    rw [hrecord records hstore, StoredVerdict.ofPair, horder]
  · intro records hstore
    rw [hstore.peek]
    exact Records.get?_of_find? (hrecord records hstore)

end Run

/-- The comparator of a batch, with a date for each comparison, blames the works of its job. -/
theorem paths_outcomeOf_compareJob (s : CompareSettings) (now : Moment) (job : Job) :
    (job.outcomeOf (compareJob s now job)).paths = job.paths := by
  rw [compareJob_eq_judge]
  exact job.paths_outcomeOf_judge _

theorem compareWorks_of_compareJob {s : CompareSettings} {now : Moment} {job : Job} {v : Verdict}
    (h : compareJob s now job = .ok v) : compareWorks job.first job.second s now = .ok v := by
  unfold compareJob at h
  cases hresult : compareWorks job.first job.second s now with
  | error f =>
      rw [hresult] at h
      cases h
  | ok w =>
      rw [hresult] at h
      exact congrArg _ (Except.ok.inj h)

/-- **One order everywhere.** Two works with different paths come in one order wherever two works are put
in order, the one with the smaller path first, however they are given.

So in a batch, after any steps in any order, with the comparator of the batch and a date of its own for
each comparison: a full verdict that was computed names the identities of its outcome, the first as the
first and the second as the second, which are those of the works of its job. It attributes their likeness
in a row for each head of the first work and a column for each head of the second. It was put into the
store once, and a store that holds records has a record with the two identities in the same order under
their key, and gives it back for them. -/
theorem oriented_throughout :
    (∀ a b : Work, ¬ a.path.same b.path = true → ∃ first second,
      ((first, second) = (a, b) ∨ (first, second) = (b, a)) ∧
      first.path.before second.path = true ∧ a.Oriented b first second ∧ b.Oriented a first second) ∧
    ∀ (groups : List Group) (pairing : Pairing) (w : WorkerSettings) (processors : Nat)
      (s : CompareSettings) (dates : Job → Moment) {σ : Type} (store : VerdictStore (StateM σ))
      (s₀ s₁ : σ) (r : Run),
      let compare := fun job => compareJob s (dates job) job
      let plan := Plan.ofGroups groups pairing
      let begun := Run.start plan (w.inFlightLimit processors)
      Run.Reaches (w.effectiveCount processors) store compare (begun, s₀) (r, s₁) →
      ∀ (n : Nat) (first second : Identity) (f : FullVerdict),
        r.outcomes[n]? = some (some (.computed first second (.full f))) →
        f.first.identity = first ∧ f.second.identity = second ∧
        (∃ job, plan.jobs[n]? = some job ∧ job.first.identity = first ∧ job.second.identity = second ∧
          f.Shows s job.first job.second) ∧
        Run.Filed (w.effectiveCount processors) store compare begun s₀ r s₁ first second (.full f) := by
  refine ⟨fun a b => Work.exists_oriented, ?_⟩
  intro groups pairing w processors s dates σ store s₀ s₁ r compare plan begun hrun n first second f ho
  have hplan : plan.Tidy := Plan.tidy_ofGroups groups pairing
  have hpaths (job : Job) : (job.outcomeOf (compare job)).paths = job.paths :=
    paths_outcomeOf_compareJob s (dates job) job
  obtain ⟨job, hjob, hfirst, hsecond, hresult⟩ := Run.computed_of_reaches hplan hpaths hrun ho
  have hbefore := hplan.ordered job (Array.mem_of_getElem? hjob)
  have hshows := FullVerdict.shows_of_compareWorks hbefore (compareWorks_of_compareJob hresult)
  refine ⟨?_, ?_, ⟨job, hjob, hfirst.symm, hsecond.symm, hshows⟩, ?_⟩
  · rw [hshows.first, hfirst]
    rfl
  · rw [hshows.second, hsecond]
    rfl
  · exact Run.filed_of_reaches hplan hpaths hrun ho rfl

/-- A work whose path comes later than that of `exercise`, although its text comes first. -/
def retake : Work :=
  { Work.blank ⟨"essays//b.py"⟩ with outline := [⟨1, 0⟩], heads := ["main"] }

/-- A work with two heads. -/
def exercise : Work :=
  { Work.blank ⟨"essays/a.py"⟩ with outline := [⟨1, 0⟩, ⟨1, 0⟩], heads := ["solve", "help"] }

/-- Two works that are given the other way round. -/
theorem oriented_throughout_reversed : ∃ (r : Run) (rs : Records) (f : FullVerdict),
    (Occasion.ofPair retake exercise lenient ⟨0, 0⟩).plan = ⟨#[⟨0, exercise, retake⟩], 0, 0⟩ ∧
    (Occasion.ofPair retake exercise lenient ⟨0, 0⟩).Ended 8 .memory .empty r rs ∧
    r.outcomes[0]? = some (some (.computed exercise.identity retake.identity (.full f))) ∧
    f.first.heads = ["solve", "help"] ∧ f.outline.matrix.rows = 2 ∧ f.outline.matrix.cols = 1 ∧
    rs.get? retake.identity exercise.identity = some (.full f) := by
  have hsame : ¬ retake.path.same exercise.path = true := by decide +kernel
  have hbefore : retake.path.before exercise.path = false := by decide +kernel
  have hfull : (compareWorks exercise retake lenient ⟨0, 0⟩).toOption.any Verdict.isFull = true := by
    decide +kernel
  -- Whichever way they are given, the other work comes first.
  obtain ⟨first, second, hpair, hordered, hgiven, hother⟩ :=
    oriented_throughout.1 retake exercise hsame
  have hpair : first = exercise ∧ second = retake := by
    rcases hpair with hpair | hpair
    · obtain ⟨rfl, rfl⟩ := Prod.mk.inj hpair
      rw [hbefore] at hordered
      cases hordered
    · exact Prod.mk.inj hpair
  obtain ⟨rfl, rfl⟩ := hpair
  have hplan : (Occasion.ofPair retake exercise lenient ⟨0, 0⟩).plan =
      ⟨#[⟨0, exercise, retake⟩], 0, 0⟩ := by
    change (Plan.Draft.empty.consider retake exercise).plan = _
    rw [hgiven.planned]
    simp [Plan.Draft.empty, Plan.Draft.addPair, Plan.empty]
  cases hcompared : compareWorks exercise retake lenient ⟨0, 0⟩ with
  | error e =>
      rw [hcompared] at hfull
      cases hfull
  | ok v =>
      rw [hcompared] at hfull
      cases v with
      | quick q => cases hfull
      | full f =>
          obtain ⟨r, rs, hrun, hcancelled⟩ :=
            Occasion.exists_ended .memory .empty retake exercise lenient ⟨0, 0⟩
          have houtcomes := Run.outcomes_of_reaches (Plan.tidy_ofGroups _ _)
            VerdictStore.separate_memory hrun.reaches hrun.ended hcancelled
          have ho : r.outcomes[0]? =
              some (some (.computed exercise.identity retake.identity (.full f))) := by
            rw [← Array.getElem?_toList, houtcomes, ← Occasion.plan, hplan]
            simp only [List.map_cons, List.map_nil, List.getElem?_cons_zero, Run.expected,
              Occasion.compare, Occasion.ofPair, comparison_eq, hcompared]
            rfl
          obtain ⟨-, -, ⟨job, hjob, -, -, hshows⟩, hfiled⟩ := oriented_throughout.2 _ _ _ _ lenient
            (fun _ => ⟨0, 0⟩) _ _ _ _ (compareJob_eq_judge lenient ⟨0, 0⟩ ▸ hrun.reaches) 0 _ _ f ho
          rw [← Occasion.plan, hplan] at hjob
          obtain rfl := Option.some.inj hjob
          have hrows : f.outline.matrix.rows = 2 := hshows.rows
          refine ⟨r, rs, f, hplan, hrun, ho, ?_, hrows, hshows.cols (by omega), ?_⟩
          · rw [hshows.first]
            rfl
          · rw [hgiven.sought, ← hother.sought]
            exact hfiled.found id VerdictStore.holds_memory

end Batch

end Likeness
