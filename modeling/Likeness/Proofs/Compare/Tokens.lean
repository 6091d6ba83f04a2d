import Mathlib.Data.Nat.Count
import Likeness.Compare.Tokens
import Likeness.Proofs.Sequence.Tiling

/-!
# Likeness.Proofs.Compare.Tokens

What a token report says of two works, each in its place (`TokenReport.about_ofWorks`): its tiles are
runs that their tokens share, with the starts in the first work and in the second, and the coverages and the
places follow from these starts.
-/

namespace Likeness

namespace Tiling

variable {covered : Nat → Prop} [DecidablePred covered]

/-- The part of `n` positions that is covered; none of no positions. -/
def partOf (n : Nat) (covered : Nat → Prop) [DecidablePred covered] : Binary64 :=
  if n = 0 then .zero else .ofNat (Nat.count covered n) / .ofNat n

theorem count_map_range (n : Nat) :
    ((List.range n).map fun i => decide (covered i)).count true = Nat.count covered n := by
  induction n with
  | zero => rfl
  | succ n ih =>
      rw [List.range_succ, List.map_append, List.count_append, ih, Nat.count_succ]
      by_cases h : covered n <;> simp [h]

theorem coverage_map_range (n : Nat) :
    coverage ((List.range n).map fun i => decide (covered i)) = partOf n covered := by
  rw [coverage, partOf, count_map_range, List.length_map, List.length_range]
  simp only [List.map_eq_nil_iff, List.range_eq_nil]

end Tiling

/-- A report is about two works, the first and the second: its tiles cover what their tokens share in
runs, and the rest is told of the starts of the tiles, in the first work the sources and in the second
the targets. -/
structure TokenReport.About (r : TokenReport) (least : Nat) (a b : Work) : Prop where
  tiles : Tiling.Exhausts a.tokens b.tokens (max least 1) r.tiles
  firstCoverage : r.firstCoverage =
    Tiling.partOf a.tokens.length fun i => ∃ p ∈ r.tiles, p.OnSource i
  secondCoverage : r.secondCoverage =
    Tiling.partOf b.tokens.length fun i => ∃ p ∈ r.tiles, p.OnTarget i
  firstPlaces : r.firstPlaces = r.tiles.filterMap fun t => a.places[t.source]?
  secondPlaces : r.secondPlaces = r.tiles.filterMap fun t => b.places[t.target]?

/-- **The report on two works** is about them, in the order in which they are given. -/
theorem TokenReport.about_ofWorks (a b : Work) (least : Nat) : (ofWorks a b least).About least a b := by
  obtain ⟨⟨hsource, htarget⟩, -⟩ := Tiling.greedy_oneByOne a.tokens b.tokens least
  refine ⟨Tiling.greedy_exhausts a.tokens b.tokens least, ?_, ?_, rfl, rfl⟩
  · rw [ofWorks, hsource, Tiling.coverage_map_range]
  · rw [ofWorks, htarget, Tiling.coverage_map_range]

end Likeness
