import Likeness.Number.Binary64

/-!
# Likeness.Outline.Fraction

Similarities are kept as unreduced fractions, so that what was matched and what was there to be
matched can both be read off them.
-/

namespace Likeness

/-- A fraction of two 64-bit integers. -/
structure Fraction where
  numerator : Int64
  denominator : Int64
deriving DecidableEq, Inhabited

namespace Fraction

/-- The quotient of the two rounded parts; zero when there is nothing to divide by. -/
def ratio (f : Fraction) : Binary64 :=
  if f.denominator = 0 then .zero
  else .ofInt f.numerator.toInt / .ofInt f.denominator.toInt

end Fraction

/-- How much of two outlines was matched, out of everything in them. -/
structure Score where
  matched : Nat
  total : Nat
deriving DecidableEq, Inhabited

namespace Score

def fraction (s : Score) : Fraction := ⟨.ofNat s.matched, .ofNat s.total⟩

/-- The ratio of a score, by which cells are compared. -/
def ratio (s : Score) : Binary64 := s.fraction.ratio

instance : Zero Score := ⟨⟨0, 0⟩⟩

instance : Add Score := ⟨fun s t => ⟨s.matched + t.matched, s.total + t.total⟩⟩

end Score

end Likeness
