import Mathlib.Algebra.Order.Group.Nat
import Mathlib.Data.List.Basic
import Likeness.Batch.Progress

/-!
# Likeness.Proofs.Batch.Progress

A log of the progress writes one line for each multiple of its step that is passed, whatever the calls.

What counts about a call is how many steps of percent it has reached (`ProgressLog.reached`). The next
line is due one step above the most that any call has reached so far: catching up goes there and no
further (`ProgressLog.catchUp_eq`), so a call writes a line if and only if it goes beyond all calls
before it (`ProgressLog.call_advance`). The numbers of steps reached by the calls that write a line
rise, and so these are few (`ProgressLog.advances_exact`).
-/

namespace Likeness.Batch.ProgressLog

/-- How many steps of percent a call has reached. A call about nothing at all has reached none. -/
def reached (step : Nat) (c : Nat × Nat) : Nat := c.1 * 100 / c.2 / step

/-- The most steps that one of some calls has reached, and `m` at the least. -/
def highest (step m : Nat) (calls : List (Nat × Nat)) : Nat := (calls.map (reached step)).foldl max m

/-- The line about a call. -/
def lineOf (c : Nat × Nat) : String :=
  "Progress: " ++ toString c.1 ++ "/" ++ toString c.2 ++ " (" ++ toString (c.1 * 100 / c.2) ++ "%)"

/-- The log after each of some calls, and the line which that call wrote. -/
def advances (log : ProgressLog) :
    List (Nat × Nat) → Except Overflow (List (ProgressLog × Option String))
  | [] => .ok []
  | c :: calls => do
    let entry ← log.call (.advance c.1 c.2)
    return entry :: (← entry.1.advances calls)

/-- The multiples of the step that were passed by the calls which wrote a line. -/
def passed (step : Nat) (calls : List (Nat × Nat)) (entries : List (ProgressLog × Option String)) :
    List Nat :=
  (calls.zip entries).filterMap fun (c, e) => e.2.map fun _ => step * reached step c

variable {log : ProgressLog} {step m : Nat} {c : Nat × Nat} {calls : List (Nat × Nat)}

@[simp] theorem highest_nil : highest step m [] = m := rfl

@[simp] theorem highest_cons :
    highest step m (c :: calls) = highest step (max m (reached step c)) calls := rfl

theorem percent_le (h : c.1 ≤ c.2) : c.1 * 100 / c.2 ≤ 100 := by
  refine Nat.div_le_of_le_mul ?_
  exact Nat.mul_le_mul_right 100 h

theorem reached_le (h : c.1 ≤ c.2) : reached step c ≤ 100 / step :=
  Nat.div_le_div_right (percent_le h)

/-! ### One call -/

/-- Catching up stops at the first multiple of the step above the percentage. -/
theorem catchUp_eq {percent k : Nat} (hdue : log.due = log.step * k)
    (hfits : percent + log.step < wordLimit) :
    log.catchUp percent = .ok { log with due := log.step * max k (percent / log.step + 1) } := by
  fun_induction catchUp log percent generalizing k with
  | case1 log hle due hadd ih =>
      obtain ⟨-, hsum⟩ := checkedAdd_eq_ok_iff.mp hadd
      have hk : k ≤ percent / log.step := by
        rw [Nat.le_div_iff_mul_le log.step_pos, Nat.mul_comm]
        omega
      have hnext : due = log.step * (k + 1) := by
        rw [hsum, hdue, Nat.mul_succ]
      have hmax : max (k + 1) (percent / log.step + 1) = max k (percent / log.step + 1) := by omega
      rw [ih hnext hfits, hmax]
  | case2 log hle e hadd =>
      have hok : checkedAdd log.due log.step = .ok (log.due + log.step) :=
        checkedAdd_eq_ok_iff.mpr ⟨by omega, rfl⟩
      rw [hok] at hadd
      cases hadd
  | case3 log hlt =>
      have hk : percent / log.step < k := by
        rw [Nat.div_lt_iff_lt_mul log.step_pos, Nat.mul_comm]
        omega
      rw [Nat.max_eq_left hk, ← hdue]

/-- A call about something, whose product fits, compares the percentage with the one due. -/
theorem call_advance_pos (log : ProgressLog) (hpos : 0 < c.2) (hfits : c.1 * 100 < wordLimit) :
    log.call (.advance c.1 c.2) =
      if c.1 * 100 / c.2 < log.due then .ok (log, none)
      else (log.catchUp (c.1 * 100 / c.2)).map fun after => (after, some (lineOf c)) := by
  obtain ⟨completed, total⟩ := c
  have hmul : checkedMul completed 100 = .ok (completed * 100) := if_pos hfits
  cases total with
  | zero => exact absurd hpos (Nat.lt_irrefl 0)
  | succ n =>
      rw [call, hmul]
      · rfl
      · exact Nat.succ_ne_zero n

/-- With the next line due above `m` steps, a call writes it if and only if it has reached more. -/
theorem call_advance (hdue : log.due = log.step * (1 + m)) (hle : c.1 ≤ c.2)
    (hfits : c.1 * 100 < wordLimit) :
    log.call (.advance c.1 c.2) =
      .ok ({ log with due := log.step * (1 + max m (reached log.step c)) },
        if 0 < c.2 ∧ m < reached log.step c then some (lineOf c) else none) := by
  have hpercent : c.1 * 100 / c.2 ≤ 100 := percent_le hle
  have hless : c.1 * 100 / c.2 < log.due ↔ ¬ m < reached log.step c := by
    rw [hdue, reached, Nat.mul_comm log.step, ← Nat.div_lt_iff_lt_mul log.step_pos]
    omega
  rcases Nat.eq_zero_or_pos c.2 with hzero | hpos
  · have hnone : reached log.step c = 0 := by simp [reached, hzero]
    rw [hnone, Nat.max_zero, ← hdue, hzero, if_neg (by simp)]
    rfl
  · rw [call_advance_pos log hpos hfits]
    by_cases hmore : m < reached log.step c
    · have hfits' : c.1 * 100 / c.2 + log.step < wordLimit := by
        have hstep := log.step_le
        have hsmall : 200 < wordLimit := by decide
        omega
      have hmax : max (1 + m) (c.1 * 100 / c.2 / log.step + 1) =
          1 + max m (reached log.step c) := by
        rw [reached]
        omega
      rw [if_neg (by rw [hless]; exact not_not.mpr hmore), catchUp_eq hdue hfits', hmax,
        if_pos ⟨hpos, hmore⟩]
      rfl
    · rw [if_pos (hless.mpr hmore), Nat.max_eq_left (Nat.not_lt.mp hmore), ← hdue,
        if_neg fun h => hmore h.2]

/-! ### All calls -/

/-- The entries of a log whose next line is due above `m` steps. -/
def history (log : ProgressLog) (m : Nat) (calls : List (Nat × Nat)) :
    List (ProgressLog × Option String) :=
  calls.mapIdx fun i c =>
    ({ log with due := log.step * (1 + highest log.step m (calls.take (i + 1))) },
      if 0 < c.2 ∧ highest log.step m (calls.take i) < reached log.step c then some (lineOf c) else none)

theorem history_cons (log : ProgressLog) (m : Nat) (c : Nat × Nat) (calls : List (Nat × Nat)) :
    history log m (c :: calls) =
      ({ log with due := log.step * (1 + max m (reached log.step c)) },
        if 0 < c.2 ∧ m < reached log.step c then some (lineOf c) else none) ::
      history log (max m (reached log.step c)) calls := by
  rw [history, List.mapIdx_cons]
  rfl

theorem advances_eq (hdue : log.due = log.step * (1 + m))
    (hcalls : ∀ c ∈ calls, c.1 ≤ c.2 ∧ c.1 * 100 < wordLimit) :
    log.advances calls = .ok (history log m calls) := by
  induction calls generalizing log m with
  | nil => rfl
  | cons c calls ih =>
      obtain ⟨⟨hle, hfits⟩, hcalls⟩ := List.forall_mem_cons.mp hcalls
      rw [advances, call_advance hdue hle hfits, history_cons]
      have hrest : advances { log with due := log.step * (1 + max m (reached log.step c)) } calls =
          .ok (history log (max m (reached log.step c)) calls) := ih rfl hcalls
      change (advances { log with due := log.step * (1 + max m (reached log.step c)) } calls >>= _) = _
      rw [hrest]
      rfl

/-- Each line lifts the most that was reached by a step at least. -/
theorem length_lines_le (log : ProgressLog) (m : Nat) (calls : List (Nat × Nat)) :
    ((history log m calls).filterMap Prod.snd).length + m ≤ highest log.step m calls := by
  induction calls generalizing m with
  | nil => simp [history]
  | cons c calls ih =>
      have hrest := ih (max m (reached log.step c))
      rw [history_cons, highest_cons]
      by_cases hline : 0 < c.2 ∧ m < reached log.step c
      · simp only [hline, and_self, if_true, List.filterMap_cons, List.length_cons]
        omega
      · simp only [hline, if_false, List.filterMap_cons]
        omega

theorem highest_le {n : Nat} (hm : m ≤ n) (hcalls : ∀ c ∈ calls, reached step c ≤ n) :
    highest step m calls ≤ n := by
  induction calls generalizing m with
  | nil => exact hm
  | cons c calls ih =>
      obtain ⟨hc, hcalls⟩ := List.forall_mem_cons.mp hcalls
      exact ih (Nat.max_le.mpr ⟨hm, hc⟩) hcalls

/-- The multiples that are passed lie above all that was reached before. -/
theorem pairwise_passed (log : ProgressLog) (m : Nat) (calls : List (Nat × Nat)) :
    (passed log.step calls (history log m calls)).Pairwise (· < ·) ∧
      ∀ n ∈ passed log.step calls (history log m calls), log.step * m < n := by
  induction calls generalizing m with
  | nil => simp [passed]
  | cons c calls ih =>
      obtain ⟨hrising, habove⟩ := ih (max m (reached log.step c))
      have hmono {k : Nat} (hk : k ≤ max m (reached log.step c)) :
          ∀ n ∈ passed log.step calls (history log (max m (reached log.step c)) calls),
            log.step * k < n :=
        fun n hn => (Nat.mul_le_mul_left _ hk).trans_lt (habove n hn)
      have hcons : passed log.step (c :: calls) (history log m (c :: calls)) =
          if 0 < c.2 ∧ m < reached log.step c then log.step * reached log.step c ::
            passed log.step calls (history log (max m (reached log.step c)) calls)
          else passed log.step calls (history log (max m (reached log.step c)) calls) := by
        rw [history_cons]
        by_cases hline : 0 < c.2 ∧ m < reached log.step c
        · simp [passed, hline]
        · simp [passed, hline]
      rw [hcons]
      split
      next hline =>
        refine ⟨List.pairwise_cons.mpr ⟨hmono (Nat.le_max_right _ _), hrising⟩, ?_⟩
        refine List.forall_mem_cons.mpr ⟨?_, hmono (Nat.le_max_left _ _)⟩
        exact Nat.mul_lt_mul_of_pos_left hline.2 log.step_pos
      next => exact ⟨hrising, hmono (Nat.le_max_left _ _)⟩

/-- **One line for each step.** After the start, let calls come in any order, with repetitions, jumps
and steps back. A call writes a line if and only if it is about something and has reached more steps of
percent than any call before it, and the next line is always due one step above the most that was
reached. So the multiples passed by the calls that write a line rise, and there are no more lines than
steps in a hundred percent. -/
theorem advances_exact (log : ProgressLog) (pairs : Nat)
    (hcalls : ∀ c ∈ calls, c.1 ≤ c.2 ∧ c.1 * 100 < wordLimit) :
    ∃ started entries,
      log.call (.start pairs) =
        .ok (started, some ("Comparing " ++ toString pairs ++ " pairs")) ∧
      started.due = log.step ∧ started.advances calls = .ok entries ∧
      entries.length = calls.length ∧
      (∀ i c after line, calls[i]? = some c → entries[i]? = some (after, line) →
        after.due = log.step * (1 + highest log.step 0 (calls.take (i + 1))) ∧
        line = if 0 < c.2 ∧ highest log.step 0 (calls.take i) < c.1 * 100 / c.2 / log.step then
          some (lineOf c) else none) ∧
      (entries.filterMap Prod.snd).length ≤ 100 / log.step ∧
      (passed log.step calls entries).Pairwise (· < ·) := by
  have hfew : highest log.step 0 calls ≤ 100 / log.step :=
    highest_le (Nat.zero_le _) fun c hc => reached_le (hcalls c hc).1
  have hlines := length_lines_le log 0 calls
  refine ⟨{ log with due := log.step }, history log 0 calls, rfl, rfl, ?_, by simp [history], ?_,
    by omega, (pairwise_passed log 0 calls).1⟩
  · change advances { log with due := log.step } calls = .ok (history { log with due := log.step } 0 calls)
    exact advances_eq (Nat.mul_one _).symm hcalls
  · intro i c after line hc hentry
    rw [history, List.getElem?_mapIdx, hc] at hentry
    obtain ⟨rfl, rfl⟩ := Prod.mk.inj (Option.some.inj hentry)
    exact ⟨rfl, rfl⟩

/-- Calls that jump over a multiple of 25, go back, are about nothing and come to the end. -/
theorem advances_exact_jumps : ∃ started entries,
    (ofStep 25).call (.start 8) = .ok (started, some "Comparing 8 pairs") ∧
      started.advances [(2, 8), (7, 8), (3, 8), (0, 0), (8, 8)] = .ok entries ∧
      entries.map (fun e => (e.1.due, e.2)) =
        [(50, some "Progress: 2/8 (25%)"), (100, some "Progress: 7/8 (87%)"), (100, none), (100, none),
          (125, some "Progress: 8/8 (100%)")] := by
  have hcalls : ∀ c ∈ [(2, 8), (7, 8), (3, 8), (0, 0), (8, 8)], c.1 ≤ c.2 ∧ c.1 * 100 < wordLimit := by
    decide
  obtain ⟨started, entries, hstart, -, hall, hlength, hentry, -⟩ := advances_exact (ofStep 25) 8 hcalls
  refine ⟨started, entries, hstart, hall, ?_⟩
  match entries, hlength, hentry with
  | [e₀, e₁, e₂, e₃, e₄], _, hentry =>
      have h₀ := hentry 0 _ e₀.1 e₀.2 rfl rfl
      have h₁ := hentry 1 _ e₁.1 e₁.2 rfl rfl
      have h₂ := hentry 2 _ e₂.1 e₂.2 rfl rfl
      have h₃ := hentry 3 _ e₃.1 e₃.2 rfl rfl
      have h₄ := hentry 4 _ e₄.1 e₄.2 rfl rfl
      simp only [List.map_cons, List.map_nil, h₀, h₁, h₂, h₃, h₄]
      decide

end Likeness.Batch.ProgressLog
