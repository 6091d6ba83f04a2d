import Likeness.Proofs.Outline.Ties

/-!
# Likeness.Proofs.Outline.UnsettledTies

What happens when the ties of a table are not settled.

Putting all rows like row `k` first lets them win every tie. If the choices are still the same, then
these rows were all taken before, for columns that they prefer (`Grid.takenFirst_of_choices`). So
for a table whose choices do not depend on the order of its rows, all ties are settled.
-/

namespace Likeness

namespace Grid

/-! ### The other row first -/

/-- A row above that ties with a cell taken is itself taken first. -/
theorem Stable.takenFirst {g : Grid Score} {taken : List Cell} (h : Stable g.weight taken)
    {p : Cell} (hp : p ∈ taken) {k : Nat} (habove : k < p.1)
    (htie : g.weight (k, p.2) = g.weight p) : TakenFirst g taken k p.2 := by
  rcases h.complete (k, p.2) (htie ▸ h.positive p hp) with hmem | ⟨q, hq, hblocks⟩
  · have hsame := eq_of_not_apart h.apart hmem hp fun hapart => hapart.2 rfl
    exact absurd (congrArg Prod.fst hsame) habove.ne
  · rcases hblocks with ⟨hrow, hstronger⟩ | ⟨hcol, hstronger⟩
    · exact ⟨q, hq, hrow, hstronger⟩
    · have hsame := eq_of_not_apart h.apart hq hp fun hapart => hapart.2 hcol
      rw [hsame, htie] at hstronger
      omega

/-! ### Counting rows of one kind -/

/-- The rows of a table from top to bottom. -/
def rowList (size : Nat → Nat) (g : Grid Score) : List (List Score × Nat) :=
  (List.range g.rows).map (g.row size)

variable {size size' : Nat → Nat} {g g' : Grid Score} {taken : List Cell}

/-- The rows of the cells taken that are of one kind and taken for certain columns. -/
def rowsTaken (size : Nat → Nat) (g : Grid Score) (taken : List Cell) (kind : List Score × Nat)
    (better : Nat → Bool) : List Nat :=
  (taken.filter fun p => g.row size p.1 = kind ∧ better p.2).map Prod.fst

theorem mem_rowsTaken {kind : List Score × Nat} {better : Nat → Bool} {i : Nat} :
    i ∈ rowsTaken size g taken kind better ↔
      g.row size i = kind ∧ ∃ p ∈ taken, p.1 = i ∧ better p.2 := by
  simp only [rowsTaken, List.mem_map, List.mem_filter, decide_eq_true_eq]
  constructor
  · rintro ⟨p, ⟨hp, hrow, hbetter⟩, rfl⟩
    exact ⟨hrow, p, hp, rfl, hbetter⟩
  · rintro ⟨hrow, p, hp, rfl, hbetter⟩
    exact ⟨p, ⟨hp, hrow, hbetter⟩, rfl⟩

theorem nodup_rowsTaken (hapart : taken.Pairwise Apart) (kind : List Score × Nat)
    (better : Nat → Bool) : (rowsTaken size g taken kind better).Nodup :=
  List.pairwise_map.mpr ((hapart.imp And.left).filter _)

/-- The number of such rows is the same for tables with the same choices. -/
theorem length_rowsTaken (hchoices : (g'.choices size').Perm (g.choices size))
    (kind : List Score × Nat) (better : Nat → Bool) :
    (rowsTaken size' g' (picks g'.rounds g') kind better).length =
      (rowsTaken size g (picks g.rounds g) kind better).length := by
  have hlength := (hchoices.filter fun c => c.1 = kind ∧ better c.2).length_eq
  simp only [choices, List.filter_map, List.length_map] at hlength
  rw [rowsTaken, rowsTaken, List.length_map, List.length_map]
  exact hlength

/-- The rows at the top of a table are what its list of rows starts with. -/
theorem row_of_front {front rest : List (List Score × Nat)} (hrows : g.rowList size = front ++ rest)
    {kind : List Score × Nat} (hfront : ∀ r ∈ front, r = kind) {i : Nat} (hi : i < front.length) :
    g.row size i = kind := by
  have hget : (g.rowList size)[i]? = some kind := by
    rw [hrows, List.getElem?_append_left hi, List.getElem?_eq_getElem hi,
      hfront _ (List.getElem_mem hi)]
  rw [rowList, List.getElem?_map] at hget
  obtain ⟨k, hk, hrow⟩ := Option.map_eq_some_iff.mp hget
  obtain ⟨hlt, rfl⟩ := List.getElem?_eq_some_iff.mp hk
  rw [List.getElem_range] at hrow
  exact hrow

/-- When as many rows of one kind are taken as there are, all of them are taken. -/
theorem mem_rowsTaken_of_length_le (hstable : Stable g.weight taken) {kind : List Score × Nat}
    {better : Nat → Bool} (hcount : ((g.rowList size).filter (· = kind)).length ≤
      (rowsTaken size g taken kind better).length) {k : Nat} (hk : k < g.rows)
    (hrow : g.row size k = kind) : k ∈ rowsTaken size g taken kind better := by
  have hkind : ((List.range g.rows).filter fun i => g.row size i = kind).length =
      ((g.rowList size).filter (· = kind)).length := by
    rw [rowList, List.filter_map, List.length_map]
    rfl
  have hsub : (rowsTaken size g taken kind better).Subperm
      ((List.range g.rows).filter fun i => g.row size i = kind) := by
    refine List.subperm_of_subset (nodup_rowsTaken hstable.apart _ _) fun i hi => ?_
    obtain ⟨hi, q, hq, rfl, -⟩ := mem_rowsTaken.mp hi
    have hlt := (lt_of_weight_pos (hstable.positive q hq)).1
    exact List.mem_filter.mpr ⟨List.mem_range.mpr hlt, decide_eq_true hi⟩
  refine (hsub.perm_of_length_le (hkind ▸ hcount)).mem_iff.mpr ?_
  exact List.mem_filter.mpr ⟨List.mem_range.mpr hk, decide_eq_true hrow⟩

/-! ### Putting rows of one kind first -/

/-- Suppose that putting the rows of one kind first keeps the choices. Then each of them is taken
first wherever it ties with a row of another kind: all of them are in the new order, and as many
are in the old. -/
theorem takenFirst_of_choices (hpos : g.Positive) (hpos' : g'.Positive) (hcols : g'.cols = g.cols)
    {k : Nat} (hk : k < g.rows)
    (hrows : g'.rowList size' = (g.rowList size).filter (· = g.row size k) ++
      (g.rowList size).filter (· ≠ g.row size k))
    (hchoices : (g'.choices size').Perm (g.choices size)) {p : Cell} (hp : p ∈ picks g.rounds g)
    (hne : ¬ Twins size g p.1 k) (htie : g.weight (k, p.2) = g.weight p) :
    TakenFirst g (picks g.rounds g) k p.2 := by
  obtain ⟨hstable, -⟩ := stable_picks hpos
  obtain ⟨hstable', -⟩ := stable_picks hpos'
  have hcol : p.2 < g.cols := (lt_of_weight_pos (hstable.positive p hp)).2
  -- The columns that a row of this kind prefers.
  let better (j : Nat) : Bool := g.weight (k, p.2) < g.weight (k, j) ∨
    g.weight (k, p.2) = g.weight (k, j) ∧ j < p.2
  have hweight {i j : Nat} (hi : g'.row size' i = g.row size k) (hj : j < g.cols) :
      g'.weight (i, j) = g.weight (k, j) := congrArg Score.weight (cell_of_row hi hj hcols)
  -- In the new order the same column is taken, for a row below those of this kind.
  obtain ⟨⟨low, j⟩, hp', hsame⟩ : ∃ p' ∈ picks g'.rounds g',
      (g'.row size' p'.1, p'.2) = (g.row size p.1, p.2) :=
    List.mem_map.mp (hchoices.mem_iff.mpr (List.mem_map_of_mem hp))
  obtain ⟨hlow, rfl : j = p.2⟩ := Prod.mk.inj hsame
  have hfront : ∀ i < ((g.rowList size).filter (· = g.row size k)).length,
      g'.row size' i = g.row size k := fun i hi =>
    row_of_front hrows (fun r hr => of_decide_eq_true (List.mem_filter.mp hr).2) hi
  have hfirst : ∀ i < ((g.rowList size).filter (· = g.row size k)).length,
      i ∈ rowsTaken size' g' (picks g'.rounds g') (g.row size k) better := by
    intro i hi
    have habove : i < low := by
      by_contra hle
      exact hne (hlow.symm.trans (hfront low (by omega)))
    have htie' : g'.weight (i, p.2) = g'.weight (low, p.2) := by
      have hcell := congrArg Score.weight (cell_of_row hlow hcol hcols)
      rw [hweight (hfront i hi) hcol, htie]
      exact hcell.symm
    obtain ⟨⟨i', j⟩, hq, rfl, hstronger⟩ := hstable'.takenFirst hp' habove htie'
    have hj : j < g.cols := hcols ▸ (lt_of_weight_pos (hstable'.positive _ hq)).2
    rw [hweight (hfront _ hi) hcol, hweight (hfront _ hi) hj] at hstronger
    exact mem_rowsTaken.mpr ⟨hfront _ hi, _, hq, rfl, decide_eq_true hstronger⟩
  have hcount : ((g.rowList size).filter (· = g.row size k)).length ≤
      (rowsTaken size g (picks g.rounds g) (g.row size k) better).length := by
    have hsub := List.subperm_of_subset List.nodup_range fun i hi => hfirst i (List.mem_range.mp hi)
    rw [← length_rowsTaken hchoices, ← List.length_range
      (n := ((g.rowList size).filter (· = g.row size k)).length)]
    exact hsub.length_le
  obtain ⟨-, ⟨k', j⟩, hq, rfl, hbetter⟩ :=
    mem_rowsTaken.mp (mem_rowsTaken_of_length_le hstable hcount hk rfl)
  exact ⟨_, hq, rfl, of_decide_eq_true hbetter⟩

end Grid

end Likeness
