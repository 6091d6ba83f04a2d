import Mathlib.Data.List.Induction
import Mathlib.Order.Lattice
import Likeness.Sequence.Tiling

/-!
# Likeness.Proofs.Sequence.Runs

The runs that a round of tiling looks at.

A tile is a run of two marked sequences when all its positions are equal and unmarked
(`Sequence.IsRun`). `Sequence.longestRuns` finds the greatest length of a run, and all runs of that
length in the order of their starts.
-/

namespace Likeness

/-- The order of starts: by source, then by target. -/
def Tile.Before (t u : Tile) : Prop :=
  t.source < u.source ∨ t.source = u.source ∧ t.target < u.target

namespace Sequence

variable {α : Type} {a b : List (α × Bool)} {t : Tile}

/-- Whether the positions of a tile are equal and unmarked. -/
def IsRun (a b : List (α × Bool)) (t : Tile) : Prop :=
  ∀ k < t.length, ∃ x, a[t.source + k]? = some (x, false) ∧ b[t.target + k]? = some (x, false)

theorem IsRun.lt_length (h : IsRun a b t) (hpos : 0 < t.length) :
    t.source < a.length ∧ t.target < b.length := by
  obtain ⟨x, ha, hb⟩ := h 0 hpos
  exact ⟨(List.getElem?_eq_some_iff.mp ha).1, (List.getElem?_eq_some_iff.mp hb).1⟩

variable [DecidableEq α]

theorem le_runLength_iff {n : Nat} : n ≤ runLength a b ↔
    ∀ k < n, ∃ x, a[k]? = some (x, false) ∧ b[k]? = some (x, false) := by
  fun_induction runLength a b generalizing n with
  | case1 xs x ys ih =>
      cases n with
      | zero => simp
      | succ n =>
          rw [Nat.add_le_add_iff_right, ih]
          constructor
          · rintro h (_ | k) hk
            · exact ⟨x, rfl, rfl⟩
            · exact h k (Nat.lt_of_succ_lt_succ hk)
          · intro h k hk
            exact h (k + 1) (Nat.succ_lt_succ hk)
  | case2 x xs y ys hne =>
      refine ⟨fun h k hk => absurd hk (by omega), fun h => ?_⟩
      by_contra hpos
      obtain ⟨z, hx, hy⟩ := h 0 (by omega)
      simp only [List.getElem?_cons_zero, Option.some.injEq, Prod.mk.injEq, and_true] at hx hy
      exact hne (hx.trans hy.symm)
  | case3 xs ys hnot =>
      refine ⟨fun h k hk => absurd hk (by omega), fun h => ?_⟩
      by_contra hpos
      obtain ⟨x, hx, hy⟩ := h 0 (by omega)
      obtain ⟨xs', rfl⟩ := List.head?_eq_some_iff.mp (List.head?_eq_getElem? ▸ hx)
      obtain ⟨ys', rfl⟩ := List.head?_eq_some_iff.mp (List.head?_eq_getElem? ▸ hy)
      exact hnot x xs' x ys' rfl rfl

theorem isRun_iff : IsRun a b t ↔ t.length ≤ runLength (a.drop t.source) (b.drop t.target) := by
  simp only [le_runLength_iff, IsRun, List.getElem?_drop]

/-! ### All runs -/

/-- The longest run from each pair of starts, in order. -/
def allRuns (a b : List (α × Bool)) : List Tile :=
  (List.range a.length).flatMap fun i =>
    (List.range b.length).map fun j => ⟨i, j, runLength (a.drop i) (b.drop j)⟩

theorem suffixes_eq {β : Type} (position : Nat) (l : List β) :
    suffixes position l = (List.range l.length).map fun i => (position + i, l.drop i) := by
  induction l generalizing position with
  | nil => rfl
  | cons x l ih =>
      rw [suffixes, ih, List.length_cons, List.range_succ_eq_map, List.map_cons, List.map_map]
      refine congrArg _ (List.map_congr_left fun i _ => ?_)
      simp only [Function.comp_apply, List.drop_succ_cons, Nat.succ_eq_add_one, Prod.mk.injEq,
        and_true]
      omega

theorem mem_allRuns : t ∈ allRuns a b ↔ t.source < a.length ∧ t.target < b.length ∧
    t.length = runLength (a.drop t.source) (b.drop t.target) := by
  simp only [allRuns, List.mem_flatMap, List.mem_map, List.mem_range]
  constructor
  · rintro ⟨i, hi, j, hj, rfl⟩
    exact ⟨hi, hj, rfl⟩
  · rintro ⟨hi, hj, hlength⟩
    exact ⟨t.source, hi, t.target, hj, by rw [← hlength]⟩

theorem pairwise_allRuns (a b : List (α × Bool)) : (allRuns a b).Pairwise Tile.Before := by
  rw [allRuns, List.pairwise_flatMap]
  refine ⟨fun i _ => ?_, List.pairwise_lt_range.imp fun hlt x hx y hy => ?_⟩
  · rw [List.pairwise_map]
    exact List.pairwise_lt_range.imp fun hlt => .inr ⟨rfl, hlt⟩
  · obtain ⟨j, -, rfl⟩ := List.mem_map.mp hx
    obtain ⟨l, -, rfl⟩ := List.mem_map.mp hy
    exact .inl hlt

/-! ### The longest runs -/

/-- What is known of the longest runs after looking at some runs. -/
structure Longest.Of (looked : List Tile) (l : Longest) : Prop where
  bound : ∀ t ∈ looked, t.length ≤ l.length
  attained : l.length = 0 ∨ ∃ t ∈ looked, t.length = l.length
  tiles : l.tiles = (looked.filter fun t => t.length = l.length ∧ t.length ≠ 0).reverse

theorem Longest.Of.note {looked : List Tile} {l : Longest} (h : l.Of looked) (t : Tile) :
    (l.note t).Of (looked ++ [t]) := by
  obtain ⟨bound, attained, tiles⟩ := h
  have hlater {m : Nat} : (looked ++ [t]).filter (fun u => u.length = m ∧ u.length ≠ 0) =
      looked.filter (fun u => u.length = m ∧ u.length ≠ 0) ++
        if t.length = m ∧ t.length ≠ 0 then [t] else [] := by
    rw [List.filter_append]
    congr 1
    simp only [List.filter_cons, List.filter_nil, decide_eq_true_eq]
  have hbound {m : Nat} (hm : ∀ u ∈ looked, u.length ≤ m) (ht : t.length ≤ m) :
      ∀ u ∈ looked ++ [t], u.length ≤ m := by
    intro u hu
    rcases List.mem_append.mp hu with hu | hu
    · exact hm u hu
    · obtain rfl := List.mem_singleton.mp hu
      exact ht
  unfold Longest.note
  split
  next hless =>
    refine ⟨hbound bound (by omega), ?_, ?_⟩
    · exact attained.imp_right fun ⟨u, hu, hlength⟩ => ⟨u, List.mem_append_left _ hu, hlength⟩
    · rw [hlater, if_neg (by omega), List.append_nil, tiles]
  next hless =>
    split
    next hmore =>
      refine ⟨hbound (fun u hu => (bound u hu).trans hmore.le) le_rfl,
        .inr ⟨t, by simp, rfl⟩, ?_⟩
      -- Nothing before was as long.
      have hnone : looked.filter (fun u => u.length = t.length ∧ u.length ≠ 0) = [] := by
        refine List.filter_eq_nil_iff.mpr fun u hu heq => ?_
        have hu := bound u hu
        simp only [decide_eq_true_eq] at heq
        omega
      rw [hlater, hnone, if_pos ⟨rfl, by omega⟩]
      rfl
    next hmore =>
      have heq : t.length = l.length := by omega
      refine ⟨hbound bound heq.le, .inr ⟨t, by simp, heq⟩, ?_⟩
      rw [hlater, if_pos ⟨heq, by omega⟩, List.reverse_append, ← tiles]
      rfl

theorem Longest.of_foldl (ts : List Tile) : (ts.foldl Longest.note ⟨0, []⟩).Of ts := by
  induction ts using List.reverseRecOn with
  | nil => exact ⟨List.forall_mem_nil _, .inl rfl, rfl⟩
  | append_singleton ts t ih =>
      rw [List.foldl_append]
      exact ih.note t

theorem longestRuns_eq (a b : List (α × Bool)) :
    longestRuns a b =
      let found := (allRuns a b).foldl Longest.note ⟨0, []⟩
      ⟨found.length, found.tiles.reverse⟩ := by
  rw [longestRuns, allRuns, List.foldl_flatMap, suffixes_eq, suffixes_eq, List.foldl_map]
  simp only [List.foldl_map, Nat.zero_add]

theorem IsRun.length_le (h : IsRun a b t) : t.length ≤ (longestRuns a b).length := by
  rcases Nat.eq_zero_or_pos t.length with hzero | hpos
  · omega
  obtain ⟨hsource, htarget⟩ := h.lt_length hpos
  rw [longestRuns_eq]
  refine (isRun_iff.mp h).trans ((Longest.of_foldl (allRuns a b)).bound ⟨t.source, t.target, _⟩ ?_)
  exact mem_allRuns.mpr ⟨hsource, htarget, rfl⟩

theorem mem_longestRuns : t ∈ (longestRuns a b).tiles ↔
    IsRun a b t ∧ t.length = (longestRuns a b).length ∧ 0 < t.length := by
  have hof := Longest.of_foldl (allRuns a b)
  have hmem : t ∈ (longestRuns a b).tiles ↔
      t ∈ allRuns a b ∧ t.length = (longestRuns a b).length ∧ 0 < t.length := by
    rw [longestRuns_eq, List.mem_reverse, hof.tiles, List.mem_reverse, List.mem_filter]
    simp [Nat.pos_iff_ne_zero]
  rw [hmem]
  refine and_congr_left fun ⟨hlength, hpos⟩ => ?_
  rw [mem_allRuns]
  refine ⟨fun ⟨_, _, h⟩ => isRun_iff.mpr h.le, fun h => ?_⟩
  obtain ⟨hsource, htarget⟩ := h.lt_length hpos
  -- No run from these starts is longer than the longest of all.
  have hmost : IsRun a b ⟨t.source, t.target, runLength (a.drop t.source) (b.drop t.target)⟩ :=
    isRun_iff.mpr le_rfl
  exact ⟨hsource, htarget, le_antisymm (isRun_iff.mp h) (hlength ▸ hmost.length_le)⟩

theorem pairwise_longestRuns (a b : List (α × Bool)) :
    (longestRuns a b).tiles.Pairwise Tile.Before := by
  rw [longestRuns_eq]
  dsimp only
  rw [(Longest.of_foldl (allRuns a b)).tiles, List.reverse_reverse]
  exact (pairwise_allRuns a b).filter _

theorem longestRuns_ne_nil (hpos : 0 < (longestRuns a b).length) :
    (longestRuns a b).tiles ≠ [] := by
  obtain ⟨t, ht, hlength⟩ := (Longest.of_foldl (allRuns a b)).attained.resolve_left
    (by rw [longestRuns_eq] at hpos; exact hpos.ne')
  have hlength' : t.length = (longestRuns a b).length := by rw [hlength, longestRuns_eq]
  obtain ⟨-, -, heq⟩ := mem_allRuns.mp ht
  exact List.ne_nil_of_mem
    (mem_longestRuns.mpr ⟨isRun_iff.mpr heq.le, hlength', hlength' ▸ hpos⟩)

end Sequence

end Likeness
