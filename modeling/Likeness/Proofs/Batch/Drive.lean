import Mathlib.Data.List.Basic
import Likeness.Proofs.Batch.Soundness

/-!
# Likeness.Proofs.Batch.Drive

`Run.drive` ends, and is one of all the runs (`runGroups_reaches`).

It gives itself as many acts as the rank of the run, which every act lowers. Workers speak only when
they are waited for, the longest waiting job first, so there is never more than one job started and
not finished, and one worker is enough.
-/

namespace Likeness.Batch

namespace Run

variable {compare : Job → Except PairFault Verdict} {plan : Plan} {limit : Nat} {r : Run}
  {phases : Nat → Phase} {σ : Type} {store : VerdictStore (StateM σ)} {s : σ}

/-! ### One task at a time -/

/-- Only the oldest task of the pool may have been started. -/
def OneAtATime (r : Run) : Prop := ∀ t ∈ r.pool.tail, t.started = false

theorem OneAtATime.busy_le (h : OneAtATime r) : r.busy ≤ 1 := by
  unfold busy
  cases hpool : r.pool with
  | nil => simp
  | cons t rest =>
      rw [OneAtATime, hpool, List.tail_cons] at h
      have hidle : rest.countP (·.started) = 0 :=
        List.countP_eq_zero.mpr fun u hu => by simp [h u hu]
      rw [List.countP_cons, hidle]
      split <;> simp

theorem OneAtATime.speak (h : OneAtATime r) (compare : Job → Except PairFault Verdict) {t : Task}
    {rest : List Task} (hpool : r.pool = t :: rest) :
    OneAtATime (r.speak compare [] t rest) := by
  rw [OneAtATime, hpool, List.tail_cons] at h
  unfold Run.speak
  split
  · exact fun u hu => h u (List.mem_of_mem_tail hu)
  · exact h

/-- The coordinator leaves the pool as it is or adds a task that is not started. -/
theorem Acted.pool {r' : Run} {s' : σ} (h : Acted store r s r' s') :
    r'.pool = r.pool ∨ ∃ job, r'.pool = r.pool ++ [⟨job, false⟩] := by
  cases h with
  | cancel next =>
      rw [cancelJob, moveOn_eq]
      exact .inl rfl
  | @lookUp job answer s' next got =>
      cases answer <;> rw [answer, moveOn_eq] <;> exact .inl rfl
  | @submit job next =>
      rw [submitJob, moveOn_eq]
      exact .inr ⟨job, rfl⟩
  | start next channel => exact .inl rfl
  | fail next channel known => exact .inl rfl
  | compute next channel known put =>
      rw [warn_eq]
      exact .inl rfl
  | conclude next flushed =>
      rw [Run.conclude, warn_eq]
      exact .inl rfl

theorem OneAtATime.act (h : OneAtATime r) {r' : Run} {s' : σ} (hacted : Acted store r s r' s') :
    OneAtATime r' := by
  intro t ht
  rcases hacted.pool with hsame | ⟨job, hmore⟩
  · rw [hsame] at ht
    exact h t ht
  · rw [hmore] at ht
    cases hpool : r.pool with
    | nil =>
        rw [hpool] at ht
        cases ht
    | cons u rest =>
        rw [OneAtATime, hpool] at h
        rw [hpool, List.cons_append, List.tail_cons] at ht
        rcases List.mem_append.mp ht with ht | ht
        · exact h t ht
        · obtain rfl := List.mem_singleton.mp ht
          rfl

/-! ### Driving a run -/

/-- After its last call the observer leaves a run as it is or raises the flag. -/
theorem heed_eq (watch : ProgressCall → Bool) (r : Run) :
    r.heed watch = r ∨ r.heed watch = r.raise := by
  unfold heed
  split
  · exact .inr rfl
  · exact .inl rfl

theorem rank_heed (watch : ProgressCall → Bool) (r : Run) : (r.heed watch).rank = r.rank := by
  rcases heed_eq watch r with h | h <;> rw [h]
  rfl

theorem OneAtATime.heed (h : OneAtATime r) (watch : ProgressCall → Bool) :
    OneAtATime (r.heed watch) := by
  rcases heed_eq watch r with heq | heq <;> rw [heq] <;> exact h

theorem Tracks.heed (h : Tracks plan compare limit r phases) (watch : ProgressCall → Bool) :
    Tracks plan compare limit (r.heed watch) phases := by
  rcases heed_eq watch r with heq | heq <;> rw [heq]
  · exact h
  · exact h.raise

theorem reaches_heed {workers : Nat} (hbusy : r.busy ≤ workers) (watch : ProgressCall → Bool) :
    Reaches workers store compare (r, s) (r.heed watch, s) := by
  rcases heed_eq watch r with h | h <;> rw [h]
  exact .single ⟨.raise, hbusy⟩

/-- With at least as many acts as the rank, a run is driven to its end. -/
theorem Tracks.driveFor (h : Tracks plan compare limit r phases) (hplan : plan.Tidy)
    (hpaths : ∀ job : Job, (job.outcomeOf (compare job)).paths = job.paths) (hlimit : 0 < limit)
    {workers : Nat} (hworkers : 0 < workers) (store : VerdictStore (StateM σ))
    (watch : ProgressCall → Bool) (hqueue : OneAtATime r) {acts : Nat} (hacts : r.rank ≤ acts)
    (s : σ) : ∃ r' s', (Run.driveFor store compare watch acts r).run s = (.ok r', s') ∧
      r'.ended = true ∧ Reaches workers store compare (r, s) (r', s') := by
  induction acts generalizing r phases s with
  | zero =>
      refine ⟨r, s, rfl, ?_, .refl⟩
      rw [rank_eq] at hacts
      cases hended : r.ended with
      | true => rfl
      | false => simp [hended] at hacts
  | succ acts ih =>
      cases hended : r.ended with
      | true =>
          refine ⟨r, s, ?_, hended, .refl⟩
          rw [Run.driveFor, if_pos hended]
          rfl
      | false =>
          cases hwaiting : r.isWaiting with
          | true =>
              obtain ⟨t, rest, hpool⟩ := List.exists_cons_of_ne_nil (h.pool_ne_nil hlimit hwaiting)
              have hqueue' := hqueue.speak compare hpool
              have htracks := @Tracks.speak compare plan limit r phases h [] rest t hpool
              have hlt := @rank_speak compare r [] rest t hpool
              obtain ⟨r', s', hrun, hend, hreaches⟩ := ih htracks hqueue' (by omega) s
              refine ⟨r', s', ?_, hend, .head ⟨@Step.speak _ _ _ _ _ [] rest t hpool, ?_⟩ hreaches⟩
              · rw [Run.driveFor, hended, hwaiting, hpool]
                exact hrun
              · exact hqueue'.busy_le.trans hworkers
          | false =>
              obtain ⟨r₁, s₁, hact⟩ : ∃ r₁ s₁, (r.act store).run s = (.ok r₁, s₁) :=
                exists_run_act hwaiting fun _ _ _ hchannel => h.known hchannel
              have hacted := acted_of_run hended hact
              have hlt := hacted.rank_lt hended
              have hqueue₁ := hqueue.act hacted
              have hbusy := hqueue₁.busy_le.trans hworkers
              obtain ⟨phases₁, -, htracks⟩ := h.booked hplan hpaths hended hacted
              obtain ⟨r', s', hrun, hend, hreaches⟩ := ih (htracks.heed watch) (hqueue₁.heed watch)
                (by rw [rank_heed]; omega) s₁
              refine ⟨r', s', ?_, hend, .head ⟨.act hwaiting hended hact, hbusy⟩
                ((reaches_heed hbusy watch).trans hreaches)⟩
              rw [Run.driveFor, hended, hwaiting]
              simp only [Bool.false_eq_true, if_false, StateT.run_bind, hact]
              exact hrun

end Run

/-- **Batches end.** Whatever the groups, the settings, the store, the comparisons and the observer,
running the pairs of some groups gives a run that has ended, and it is one of those that any number
of workers can make. -/
theorem runGroups_reaches {σ : Type} (settings : Settings) (processors : Nat)
    (store : VerdictStore (StateM σ)) (f : Job → Comparison) (watch : ProgressCall → Bool)
    (groups : List Group) {workers : Nat} (hworkers : 0 < workers) (s : σ) :
    ∃ r s', (runGroups settings processors store (judge f) watch groups).run s = (.ok r, s') ∧
      r.ended = true ∧ Run.Reaches workers store (judge f)
        (Run.start (Plan.ofGroups groups settings.pairing)
          (settings.workers.inFlightLimit processors), s) (r, s') := by
  have hplan := Plan.tidy_ofGroups groups settings.pairing
  have hlimit : 0 < settings.workers.inFlightLimit processors := by
    simp [WorkerSettings.inFlightLimit]
  have htracks := Run.tracks_start hplan (judge f) (settings.workers.inFlightLimit processors)
  have hqueue : Run.OneAtATime (Run.start (Plan.ofGroups groups settings.pairing)
      (settings.workers.inFlightLimit processors)) := List.forall_mem_nil _
  have hbusy := hqueue.busy_le.trans hworkers
  obtain ⟨r, s', hrun, hended, hreaches⟩ := (htracks.heed watch).driveFor hplan
    (fun job => job.paths_outcomeOf_judge f) hlimit hworkers store watch (hqueue.heed watch)
    (Run.rank_heed watch _).le s
  exact ⟨r, s', hrun, hended, (Run.reaches_heed hbusy watch).trans hreaches⟩

end Likeness.Batch
