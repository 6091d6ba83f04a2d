import Mathlib.Data.List.Basic
import Likeness.Proofs.Batch.Soundness
import Likeness.Proofs.Store.Calls

/-!
# Likeness.Proofs.Batch.StoreCalls

What a run asks of its store.

Every run is also a run against the copy of its store that writes down its calls, and the calls
match the books: full verdicts that were computed are put into the store, each once, and every call
that failed has left a warning (`Run.exists_calls`).
-/

namespace Likeness

namespace Batch

/-- What an outcome has to put into the store. -/
def Outcome.full? : Outcome → Option (Identity × Identity × Verdict)
  | .computed first second v => if v.isFull then some (first, second, v) else none
  | _ => none

namespace Run

variable {σ : Type} {store : VerdictStore (StateM σ)} {compare : Job → Except PairFault Verdict}

/-! ### Runs against a store that writes down its calls -/

theorem Acted.logged {r r' : Run} {s s' : σ} (h : Acted store r s r' s')
    (calls : List VerdictStore.Call) :
    ∃ calls', Acted store.logged r (s, calls) r' (s', calls') := by
  cases h with
  | cancel next => exact ⟨calls, .cancel next⟩
  | lookUp next got =>
      refine ⟨calls, .lookUp next ?_⟩
      rw [VerdictStore.run_get_logged, got]
  | submit next => exact ⟨calls, .submit next⟩
  | start next channel => exact ⟨calls, .start next channel⟩
  | fail next channel known => exact ⟨calls, .fail next channel known⟩
  | @compute id v rest first second kept s' next channel known put =>
      cases hfull : v.isFull with
      | true =>
          simp only [hfull, if_true] at put
          refine ⟨calls ++ [.put first second v kept], .compute next channel known ?_⟩
          simp only [hfull, if_true]
          rw [VerdictStore.run_put_logged, put]
      | false =>
          simp only [hfull, Bool.false_eq_true, if_false] at put
          refine ⟨calls, .compute next channel known ?_⟩
          simp only [hfull, Bool.false_eq_true, if_false]
          obtain ⟨rfl, rfl⟩ := Prod.mk.inj put
          rfl
  | @conclude saved s' next flushed =>
      refine ⟨calls ++ [.flush saved], .conclude next ?_⟩
      rw [VerdictStore.run_flush_logged, flushed]

/-! ### What is written down -/

variable {plan : Plan} {limit : Nat} {r : Run} {phases : Nat → Phase} {s : σ}
  {calls : List VerdictStore.Call}

/-- What the outcomes of a run have to put into the store. -/
def fulls (r : Run) : List (Identity × Identity × Verdict) :=
  r.outcomes.toList.filterMap (·.bind Outcome.full?)

/-- The calls to the store match the books: what was put is what full verdicts were computed, the
store was flushed once at the end, and there is a warning for every call that failed. -/
structure Written (r : Run) (calls : List VerdictStore.Call) : Prop where
  puts : (calls.filterMap VerdictStore.Call.put?).Perm r.fulls
  flushes : calls.countP VerdictStore.Call.isFlush = if r.ended then 1 else 0
  warnings : r.warnings = calls.flatMap fun call => trouble call.answer

theorem filterMap_set_perm {g : α → Option β} {as : List α} {i : Nat} {a : α} (b : α)
    (ha : as[i]? = some a) (hg : g a = none) :
    ((as.set i b).filterMap g).Perm ((g b).toList ++ as.filterMap g) := by
  induction as generalizing i with
  | nil => cases ha
  | cons c as ih =>
      cases i with
      | zero =>
          obtain rfl : c = a := by simpa using ha
          cases hb : g b <;> simp [hg, hb]
      | succ i =>
          have hperm := ih (by simpa using ha)
          cases hc : g c with
          | none => simpa [hc] using hperm
          | some d =>
              simp only [List.set_cons_succ, List.filterMap_cons, hc]
              exact (hperm.cons d).trans List.perm_middle.symm

theorem fulls_settle {id : Nat} (hfresh : r.outcomes[id]? = some none) (o : Outcome) :
    (r.settle id o).fulls.Perm (o.full?.toList ++ r.fulls) := by
  rw [← Array.getElem?_toList] at hfresh
  have hperm := filterMap_set_perm (g := (·.bind Outcome.full?)) (some o) hfresh rfl
  rw [fulls, settle, Array.toList_setIfInBounds]
  exact hperm

/-- A job that has not ended has no outcome yet. -/
theorem Tracks.fresh (h : Tracks plan compare limit r phases) {job : Job} (hjob : job ∈ plan.jobs)
    (hphase : (phases job.id).outcome? = none) : r.outcomes[job.id]? = some none := by
  rw [(h.entry job hjob).outcome, hphase]

/-- Entering an outcome that has nothing to put. -/
theorem Written.settle (h : Written r calls) {id : Nat} (hfresh : r.outcomes[id]? = some none)
    (o : Outcome) (ho : o.full? = none) : Written (r.settle id o) calls := by
  refine ⟨h.puts.trans ?_, h.flushes, h.warnings⟩
  have hperm := fulls_settle hfresh o
  rw [ho] at hperm
  exact hperm.symm

theorem written_start (plan : Plan) (limit : Nat) : Written (start plan limit) [] := by
  refine ⟨?_, rfl, rfl⟩
  simp [fulls, start]

/-- What a worker computed is put into the store, if it is full, and entered. -/
theorem Written.compute (h : Written r calls) {id : Nat} (hfresh : r.outcomes[id]? = some none)
    {first second : Identity} {v : Verdict} {kept : Except StoreFault Unit}
    {calls' : List VerdictStore.Call} {s' : σ}
    (hput : ((if v.isFull then store.logged.put first second v else pure (.ok ())) :
      StateM (σ × List VerdictStore.Call) (Except StoreFault Unit)).run (s, calls) =
        (kept, s', calls')) :
    Written ((r.warn kept).settle id (.computed first second v)) calls' := by
  have hperm := fulls_settle hfresh (.computed first second v)
  rw [Outcome.full?] at hperm
  rw [warn_eq]
  cases hfull : v.isFull with
  | true =>
      simp only [hfull, if_true, VerdictStore.run_put_logged] at hput
      cases hput
      rw [hfull] at hperm
      refine ⟨?_, ?_, ?_⟩
      · rw [List.filterMap_append]
        exact (h.puts.append_right _).trans (List.perm_append_comm.trans hperm.symm)
      · rw [List.countP_append, h.flushes]
        rfl
      · rw [List.flatMap_append, ← h.warnings, List.flatMap_singleton]
        rfl
  | false =>
      simp only [hfull, Bool.false_eq_true, if_false] at hput
      obtain ⟨rfl, hsame⟩ := Prod.mk.inj hput
      obtain ⟨rfl, rfl⟩ := Prod.mk.inj hsame
      rw [hfull] at hperm
      refine ⟨h.puts.trans hperm.symm, h.flushes, ?_⟩
      rw [← h.warnings]
      exact List.append_nil _

theorem Written.act (h : Written r calls) (htracks : Tracks plan compare limit r phases)
    (hrunning : r.ended = false) {r' : Run} {s' : σ} {calls' : List VerdictStore.Call}
    {phases' : Nat → Phase}
    (hbooked : Booked plan compare store.logged phases r (s, calls) r' (s', calls') phases') :
    Written r' calls' := by
  obtain ⟨puts, flushes, warnings⟩ := h
  cases hbooked with
  | cancel next planned phase ahead flag =>
      have hfresh := htracks.fresh planned (by rw [phase]; rfl)
      rw [cancelJob, moveOn_eq]
      refine Written.settle ?_ ?_ (.failed _) rfl
      · exact ⟨puts, flushes, warnings⟩
      · exact hfresh
  | @lookUp job rest answer s' next planned phase ahead free waiting got =>
      have hfresh := htracks.fresh planned (by rw [phase]; rfl)
      rw [VerdictStore.run_get_logged] at got
      obtain ⟨rfl, hsame⟩ := Prod.mk.inj got
      obtain ⟨-, rfl⟩ := Prod.mk.inj hsame
      cases ((store.get _ _).run s).1 with
      | none =>
          rw [answer_none_eq free]
          exact ⟨puts, flushes, warnings⟩
      | some v =>
          rw [answer, moveOn_eq]
          refine Written.settle ?_ ?_ (.cached _ _ _) rfl
          · exact ⟨puts, flushes, warnings⟩
          · exact hfresh
  | submit next planned phase ahead held =>
      rw [submitJob_eq held]
      exact ⟨puts, flushes, warnings⟩
  | start next planned phase channel => exact ⟨puts, flushes, warnings⟩
  | fail next planned phase compared channel =>
      have hfresh := htracks.fresh planned (by rw [phase]; rfl)
      refine Written.settle ?_ ?_ (.failed _) rfl
      · exact ⟨puts, flushes, warnings⟩
      · exact hfresh
  | @compute job v rest kept s' next planned phase compared channel put =>
      have hfresh := htracks.fresh planned (by rw [phase]; rfl)
      have hwritten : Written
          { r with channel := rest, underWay := r.underWay.filter (·.1 ≠ job.id) } calls :=
        ⟨puts, flushes, warnings⟩
      have hresult := hwritten.compute hfresh put
      rw [warn_eq] at hresult
      exact hresult
  | conclude next idle flushed =>
      rw [VerdictStore.run_flush_logged] at flushed
      cases flushed
      rw [Run.conclude, warn_eq]
      refine ⟨?_, ?_, ?_⟩
      · rw [List.filterMap_append, List.filterMap_cons_none rfl, List.filterMap_nil,
          List.append_nil]
        exact puts
      · rw [List.countP_append, flushes, hrunning]
        rfl
      · rw [List.flatMap_append, ← warnings, List.flatMap_singleton]
        rfl

/-- **Every call is accounted for.** A run is a run against the store that writes down its calls,
and these match the books. -/
theorem exists_calls (hplan : plan.Tidy)
    (hpaths : ∀ job : Job, (job.outcomeOf (compare job)).paths = job.paths) {workers : Nat} {s₀ : σ}
    {y : Run × σ} (hrun : Reaches workers store compare (start plan limit, s₀) y) :
    ∃ calls, Reaches workers store.logged compare (start plan limit, s₀, []) (y.1, y.2, calls) ∧
      Written y.1 calls := by
  induction hrun with
  | refl => exact ⟨[], .refl, written_start plan limit⟩
  | @tail x y hrun hstep ih =>
      obtain ⟨calls, hlogged, hwritten⟩ := ih
      obtain ⟨r, s⟩ := x
      obtain ⟨r', s'⟩ := y
      obtain ⟨hstep, hbusy⟩ := hstep
      obtain ⟨⟨phases, htracks⟩, -⟩ :=
        (tracks_start hplan compare limit).reaches hplan hpaths hrun
      cases hstep with
      | act awake running acts =>
          obtain ⟨calls', hacted⟩ := (acted_of_run running acts).logged calls
          obtain ⟨phases', hbooked, -⟩ := htracks.booked hplan hpaths running hacted
          exact ⟨calls', hlogged.tail ⟨.act awake running (run_of_acted hacted), hbusy⟩,
            hwritten.act htracks running hbooked⟩
      | speak pool =>
          refine ⟨calls, hlogged.tail ⟨.speak pool, hbusy⟩, ?_⟩
          unfold speak
          split <;> exact ⟨hwritten.puts, hwritten.flushes, hwritten.warnings⟩
      | raise =>
          exact ⟨calls, hlogged.tail ⟨.raise, hbusy⟩,
            ⟨hwritten.puts, hwritten.flushes, hwritten.warnings⟩⟩

end Run

end Batch

end Likeness
