import Likeness.Number.Checked

/-!
# Likeness.Batch.Progress

What an observer of a batch is told, and an observer that writes a line every so many percent.
-/

namespace Likeness.Batch

/-- A call to the observer of a batch. -/
inductive ProgressCall where
  | start (total : Nat)
  | advance (completed total : Nat)
  | finish
deriving DecidableEq

/-- An observer that writes a line whenever the progress passes a multiple of `step` percent. Steps lie
between 1 and 100. -/
structure ProgressLog where
  step : Nat
  /-- The percentage at which the next line is due. -/
  due : Nat
  step_pos : 0 < step
  step_le : step ≤ 100
deriving DecidableEq

namespace ProgressLog

/-- The log of a step, which is brought between 1 and 100. -/
def ofStep (step : Nat) : ProgressLog :=
  { step := max 1 (min step 100), due := max 1 (min step 100), step_pos := by omega,
    step_le := by omega }

/-- The log that writes a line every ten percent. -/
def default : ProgressLog := ofStep 10

/-- Moves the percentage at which a line is due on, step by step, until it is above a percentage. -/
def catchUp (log : ProgressLog) (percent : Nat) : Except Overflow ProgressLog :=
  if log.due ≤ percent then
    match _ : checkedAdd log.due log.step with
    | .ok due => catchUp { log with due := due } percent
    | .error e => .error e
  else .ok log
termination_by percent + 1 - log.due
decreasing_by
  have hdue := (checkedAdd_eq_ok_iff.1 ‹checkedAdd log.due log.step = .ok due›).2
  have hpos := log.step_pos
  omega

/-- The log after a call, and the line written. -/
def call (log : ProgressLog) : ProgressCall → Except Overflow (ProgressLog × Option String)
  | .start total =>
    .ok ({ log with due := log.step }, some ("Comparing " ++ toString total ++ " pairs"))
  | .advance _ 0 => .ok (log, none)
  | .advance completed total => do
    let percent := (← checkedMul completed 100) / total
    if percent < log.due then return (log, none)
    return (← log.catchUp percent,
      some ("Progress: " ++ toString completed ++ "/" ++ toString total ++ " (" ++
        toString percent ++ "%)"))
  | .finish => .ok (log, none)

end ProgressLog

end Likeness.Batch
