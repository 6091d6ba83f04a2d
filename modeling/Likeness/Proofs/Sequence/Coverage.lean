import Mathlib.Algebra.Ring.Nat
import Mathlib.Data.List.Nodup
import Likeness.Proofs.Sequence.Tiling

/-!
# Likeness.Proofs.Sequence.Coverage

What a greedy tiling covers.

Its tiles are common runs that have no position in common, longest first; the marks are the
positions of the tiles, as many on either side; and no run of the least length is left
(`Tiling.greedy_covers`).
-/

namespace Likeness

namespace Tiling

variable {α : Type} {a b : List α} {tiles : List Tile}

theorem marked_map_range (f : Nat → Bool) (m : Nat) :
    marked ((List.range m).map f) = (List.range m).filter f := by
  rw [marked, List.zipIdx_eq_zip_range', List.length_map, List.length_range,
    ← List.range_eq_range', List.zip_map_left, List.filterMap_map]
  have hself : (List.range m).zip (List.range m) = (List.range m).map fun i => (i, i) := by
    rw [List.zip_eq_zipWith, List.zipWith_self]
  rw [hself, List.filterMap_map, ← List.filterMap_eq_filter]
  refine List.filterMap_congr fun i _ => ?_
  cases f i <;> rfl

theorem lt_length_of_common {p : Tile} (h : IsCommon a b p) {i : Nat} :
    (p.OnSource i → i < a.length) ∧ (p.OnTarget i → i < b.length) := by
  constructor
  all_goals
    rintro ⟨hle, hlt⟩
    obtain ⟨k, rfl⟩ := Nat.exists_eq_add_of_le hle
    obtain ⟨x, hx, hy⟩ := h k (Nat.lt_of_add_lt_add_left hlt)
  · exact (List.getElem?_eq_some_iff.mp hx).1
  · exact (List.getElem?_eq_some_iff.mp hy).1

/-- Positions that lie on one of several intervals without a common position, counted. -/
theorem length_filter_range {covered : Nat → Prop} [DecidablePred covered] {m : Nat}
    {start : Tile → Nat}
    (hcovered : ∀ i, covered i ↔ ∃ p ∈ tiles, start p ≤ i ∧ i < start p + p.length)
    (hbound : ∀ i, covered i → i < m)
    (hapart : tiles.Pairwise fun p q => ∀ i, ¬ ((start p ≤ i ∧ i < start p + p.length) ∧
      (start q ≤ i ∧ i < start q + q.length))) :
    ((List.range m).filter fun i => decide (covered i)).length = (tiles.map Tile.length).sum := by
  have hall : ((List.range m).filter fun i => decide (covered i)).Perm
      (tiles.flatMap fun p => List.range' (start p) p.length) := by
    refine (List.perm_ext_iff_of_nodup (List.nodup_range.filter _) ?_).mpr fun i => ?_
    · rw [List.nodup_flatMap]
      refine ⟨fun p _ => List.nodup_range', hapart.imp fun hpq i hp hq => hpq i ?_⟩
      exact ⟨List.mem_range'_1.mp hp, List.mem_range'_1.mp hq⟩
    · simp only [List.mem_filter, List.mem_range, decide_eq_true_eq, List.mem_flatMap,
        List.mem_range'_1, ← hcovered]
      exact and_iff_right_of_imp (hbound i)
  rw [hall.length_eq, List.length_flatMap]
  simp

variable [DecidableEq α]

/-- **Tilings are sound and complete.** All tiles are common runs of at least the least length, no
position lies in two of them, the marks on either side are the positions of the tiles and of the
same number, tiles never get longer, and there is no run of the least length among the positions
that are left. -/
theorem greedy_covers (a b : List α) (least : Nat) :
    let t : Tiling := greedy a b least
    (∀ p ∈ t.tiles, max least 1 ≤ p.length ∧
        ∀ k < p.length, ∃ x, a[p.source + k]? = some x ∧ b[p.target + k]? = some x) ∧
      t.tiles.Pairwise (fun p q =>
        (∀ i, ¬ (p.OnSource i ∧ q.OnSource i)) ∧ ∀ i, ¬ (p.OnTarget i ∧ q.OnTarget i)) ∧
      ((∀ i, i ∈ marked t.sourceMarks ↔ ∃ p ∈ t.tiles, p.OnSource i) ∧
        ∀ i, i ∈ marked t.targetMarks ↔ ∃ p ∈ t.tiles, p.OnTarget i) ∧
      ((marked t.sourceMarks).length = (t.tiles.map Tile.length).sum ∧
        (marked t.targetMarks).length = (t.tiles.map Tile.length).sum) ∧
      t.tiles.Pairwise (fun p q => q.length ≤ p.length) ∧
      ∀ i j n, max least 1 ≤ n → ¬ ∀ k < n, (∃ x, a[i + k]? = some x ∧ b[j + k]? = some x) ∧
        i + k ∉ marked t.sourceMarks ∧ j + k ∉ marked t.targetMarks := by
  intro t
  obtain ⟨hcommon, henough, hapart, hsorted, hshort⟩ := greedy_exhausts a b least
  obtain ⟨⟨hsource, htarget⟩, -⟩ := greedy_oneByOne a b least
  have hsourceBound : ∀ i, (∃ p ∈ t.tiles, p.OnSource i) → i < a.length :=
    fun i ⟨p, hp, hi⟩ => (lt_length_of_common (hcommon p hp)).1 hi
  have htargetBound : ∀ i, (∃ p ∈ t.tiles, p.OnTarget i) → i < b.length :=
    fun i ⟨p, hp, hi⟩ => (lt_length_of_common (hcommon p hp)).2 hi
  have hmarkedSource : ∀ i, i ∈ marked t.sourceMarks ↔ ∃ p ∈ t.tiles, p.OnSource i := by
    intro i
    rw [hsource, marked_map_range, List.mem_filter, List.mem_range, decide_eq_true_eq]
    exact and_iff_right_of_imp (hsourceBound i)
  have hmarkedTarget : ∀ i, i ∈ marked t.targetMarks ↔ ∃ p ∈ t.tiles, p.OnTarget i := by
    intro i
    rw [htarget, marked_map_range, List.mem_filter, List.mem_range, decide_eq_true_eq]
    exact and_iff_right_of_imp (htargetBound i)
  refine ⟨fun p hp => ⟨henough p hp, hcommon p hp⟩, hapart, ⟨hmarkedSource, hmarkedTarget⟩,
    ⟨?_, ?_⟩, hsorted, fun i j n hn hrun => ?_⟩
  · rw [hsource, marked_map_range]
    exact length_filter_range (fun _ => Iff.rfl) hsourceBound (hapart.imp And.left)
  · rw [htarget, marked_map_range]
    exact length_filter_range (fun _ => Iff.rfl) htargetBound (hapart.imp And.right)
  · have hopen : OpenRun a b t.tiles ⟨i, j, n⟩ := by
      refine ⟨fun k hk => (hrun k hk).1, fun k hk p hp hon => ?_, fun k hk p hp hon => ?_⟩
      · exact (hrun k hk).2.1 ((hmarkedSource _).mpr ⟨p, hp, hon⟩)
      · exact (hrun k hk).2.2 ((hmarkedTarget _).mpr ⟨p, hp, hon⟩)
    exact absurd (hshort _ hopen) (Nat.not_lt.mpr hn)

end Tiling

end Likeness
