/-!
# Likeness.Number.Checked

Sums and products of 64-bit words that refuse to wrap around.
-/

namespace Likeness

/-- An operation whose result does not fit a 64-bit word. -/
inductive Overflow where
  | add
  | multiply
deriving DecidableEq

namespace Overflow

/-- What is said when a word overflows. -/
def message : Overflow → String
  | .add => "attempt to add with overflow"
  | .multiply => "attempt to multiply with overflow"

end Overflow

/-- One more than the largest word. -/
def wordLimit : Nat := 0x10000000000000000

/-- The sum of two words, if it fits a word. -/
def checkedAdd (a b : Nat) : Except Overflow Nat :=
  if a + b < wordLimit then .ok (a + b) else .error .add

/-- The product of two words, if it fits a word. -/
def checkedMul (a b : Nat) : Except Overflow Nat :=
  if a * b < wordLimit then .ok (a * b) else .error .multiply

/-- The sum of a list, added up from the left. -/
def checkedSum (ns : List Nat) : Except Overflow Nat :=
  ns.foldlM checkedAdd 0

theorem checkedAdd_eq_ok_iff {a b c : Nat} :
    checkedAdd a b = .ok c ↔ a + b < wordLimit ∧ c = a + b := by
  unfold checkedAdd
  split <;> grind

end Likeness
