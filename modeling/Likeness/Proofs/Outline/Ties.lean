import Likeness.Proofs.Outline.Conservation

/-!
# Likeness.Proofs.Outline.Ties

Which ties of a table make the selection depend on the order of its rows.

Exchanging two neighbouring rows changes the order of cells in one respect only: of two cells of
the same column that lie in these rows, the other one now comes first. If the selection took one of
them and they tie, it may now take the other instead. Nothing changes when

* the rows are *twins*, with equal cells throughout and children of the same size, or
* the row that went without is taken for a column that it prefers or comes to first.

A table in which one or the other holds of all ties has its ties *settled* (`Grid.TiesSettled`).
Then the exchange changes neither what is taken nor the ties being settled
(`Grid.RowsExchanged.settled`), so the same goes for any sequence of exchanges. The score of a level
follows from what is taken (`Outline.combine_eq_of_choices`).
-/

namespace Likeness

namespace Grid

/-! ### Neighbouring rows exchanged -/

/-- Exchanges the positions `m` and `m + 1`. -/
def exchange (m i : Nat) : Nat := if i = m then m + 1 else if i = m + 1 then m else i

@[simp] theorem exchange_exchange (m i : Nat) : exchange m (exchange m i) = i := by
  unfold exchange
  split_ifs <;> omega

theorem exchange_lt {m i n : Nat} (hm : m + 1 < n) : exchange m i < n ↔ i < n := by
  unfold exchange
  split_ifs <;> omega

/-- The only two positions whose order changes are those exchanged. -/
theorem exchange_lt_exchange {m i k : Nat} (h : i < k) :
    exchange m i < exchange m k ∨ i = m ∧ k = m + 1 := by
  unfold exchange
  split_ifs <;> omega

theorem exchange_inj {m i k : Nat} : exchange m i = exchange m k ↔ i = k :=
  ⟨fun h => by rw [← exchange_exchange m i, h, exchange_exchange], fun h => h ▸ rfl⟩

theorem exchange_injective (m : Nat) : Function.Injective (exchange m) := fun _ _ => exchange_inj.mp

theorem getElem?_exchange (before : List α) (x y : α) (after : List α) (i : Nat) :
    (before ++ y :: x :: after)[i]? = (before ++ x :: y :: after)[exchange before.length i]? := by
  unfold exchange
  rcases Nat.lt_or_ge i before.length with h | h
  · rw [if_neg (by omega), if_neg (by omega), List.getElem?_append_left h,
      List.getElem?_append_left h]
  · obtain ⟨k, rfl⟩ := Nat.exists_eq_add_of_le h
    match k with
    | 0 => simp
    | 1 => simp
    | k + 2 => simp [List.getElem?_append_right h]

/-- A cell in its exchanged row. -/
def exchangeRow (m : Nat) (p : Cell) : Cell := (exchange m p.1, p.2)

@[simp] theorem exchangeRow_exchangeRow (m : Nat) (p : Cell) :
    exchangeRow m (exchangeRow m p) = p := by
  simp [exchangeRow]

/-- One table is another with the rows `m` and `m + 1` exchanged. -/
structure RowsExchanged (m : Nat) (g g' : Grid Score) : Prop where
  rows : g'.rows = g.rows
  cols : g'.cols = g.cols
  inside : m + 1 < g.rows
  cell : ∀ p, g'.cell p = g.cell (exchangeRow m p)

theorem RowsExchanged.weight {m : Nat} {g g' : Grid Score} (h : RowsExchanged m g g') (p : Cell) :
    g'.weight p = g.weight (exchangeRow m p) := by
  rw [Grid.weight, h.cell]
  rfl

theorem RowsExchanged.positive {m : Nat} {g g' : Grid Score} (h : RowsExchanged m g g')
    (hg : g.Positive) : g'.Positive := by
  intro i j hi hj
  rw [h.weight]
  exact hg _ _ ((exchange_lt h.inside).mpr (h.rows ▸ hi)) (h.cols ▸ hj)

/-! ### Ties -/

/-- What a selection can tell of a row, wherever it stands: its cells and its size. -/
def row (size : Nat → Nat) (g : Grid Score) (i : Nat) : List Score × Nat :=
  ((List.range g.cols).map fun j => g.cell (i, j), size i)

/-- The cells taken, each by its row and its column. -/
def choices (size : Nat → Nat) (g : Grid Score) : List ((List Score × Nat) × Nat) :=
  (picks g.rounds g).map fun p => (g.row size p.1, p.2)

theorem cell_of_row {size size' : Nat → Nat} {g g' : Grid Score} {i k j : Nat}
    (h : g'.row size' i = g.row size k) (hj : j < g.cols) (hcols : g'.cols = g.cols) :
    g'.cell (i, j) = g.cell (k, j) := by
  have hcells := congrArg (fun r : List Score × Nat => r.1[j]?) h
  simpa [row, hj, hcols] using hcells

theorem RowsExchanged.row {m : Nat} {size size' : Nat → Nat} {g g' : Grid Score}
    (h : RowsExchanged m g g') (hsize : ∀ i, size' i = size (exchange m i)) (i : Nat) :
    g'.row size' i = g.row size (exchange m i) := by
  simp only [Grid.row, h.cols, h.cell, hsize, exchangeRow]

/-- Rows that can stand for each other. -/
def Twins (size : Nat → Nat) (g : Grid Score) (i k : Nat) : Prop := g.row size i = g.row size k

/-- Row `k` is taken for a column that it prefers to column `j`, or comes to first of equals. -/
def TakenFirst (g : Grid Score) (taken : List Cell) (k j : Nat) : Prop :=
  ∃ q ∈ taken, q.1 = k ∧
    (g.weight (k, j) < g.weight q ∨ g.weight (k, j) = g.weight q ∧ q.2 < j)

/-- Wherever a cell taken ties with another cell of its column, the two rows are twins or the other
row is taken first. -/
def TiesSettled (size : Nat → Nat) (g : Grid Score) : Prop :=
  ∀ p ∈ picks g.rounds g, ∀ k < g.rows, k ≠ p.1 → g.weight (k, p.2) = g.weight p →
    Twins size g p.1 k ∨ TakenFirst g (picks g.rounds g) k p.2

instance (size : Nat → Nat) (g : Grid Score) (i k : Nat) : Decidable (Twins size g i k) :=
  inferInstanceAs (Decidable (_ = _))

instance (g : Grid Score) (taken : List Cell) (k j : Nat) : Decidable (TakenFirst g taken k j) :=
  inferInstanceAs (Decidable (∃ q ∈ taken, _))

instance (size : Nat → Nat) (g : Grid Score) : Decidable (TiesSettled size g) :=
  inferInstanceAs (Decidable (∀ p ∈ picks g.rounds g, ∀ k < g.rows, _))

/-- With the tie of the two rows settled, exchanging the rows of a stable list leaves it stable. -/
theorem Stable.exchange {m : Nat} {g g' : Grid Score} (h : RowsExchanged m g g')
    {taken : List Cell} (hstable : Stable g.weight taken)
    (htie : ∀ p ∈ taken, p.1 = m → g.weight (m + 1, p.2) = g.weight p →
      TakenFirst g taken (m + 1) p.2) :
    Stable g'.weight (taken.map (exchangeRow m)) := by
  have hback (q : Cell) : g'.weight (exchangeRow m q) = g.weight q := by
    rw [h.weight, exchangeRow_exchangeRow]
  constructor
  · intro p hp
    obtain ⟨q, hq, rfl⟩ := List.mem_map.mp hp
    rw [hback]
    exact hstable.positive q hq
  · refine List.pairwise_map.mpr (hstable.apart.imp fun {p q} hpq => ⟨?_, hpq.2⟩)
    exact fun hrow => hpq.1 (exchange_inj.mp hrow)
  · intro p' hp'
    obtain ⟨p, rfl⟩ : ∃ p, exchangeRow m p = p' := ⟨exchangeRow m p', exchangeRow_exchangeRow m p'⟩
    rw [hback] at hp'
    -- A cell that blocks `p` from its own row still does.
    have inRow (q : Cell) (hq : q ∈ taken) (hrow : q.1 = p.1)
        (hstronger : g.weight p < g.weight q ∨ g.weight p = g.weight q ∧ q.2 < p.2) :
        ∃ q' ∈ taken.map (exchangeRow m), Blocks g'.weight q' (exchangeRow m p) := by
      refine ⟨exchangeRow m q, List.mem_map_of_mem hq, .inl ⟨exchange_inj.mpr hrow, ?_⟩⟩
      rw [hback, hback]
      exact hstronger
    rcases hstable.complete p hp' with hmem | ⟨q, hq, ⟨hrow, hstronger⟩ | ⟨hcol, hstronger⟩⟩
    · exact .inl (List.mem_map_of_mem hmem)
    · exact .inr (inRow q hq hrow hstronger)
    · rcases hstronger with hlt | ⟨heq, hbefore⟩
      · refine .inr ⟨exchangeRow m q, List.mem_map_of_mem hq, .inr ⟨hcol, .inl ?_⟩⟩
        rw [hback, hback]
        exact hlt
      · rcases exchange_lt_exchange (m := m) hbefore with hlt | ⟨hqm, hpm⟩
        · refine .inr ⟨exchangeRow m q, List.mem_map_of_mem hq, .inr ⟨hcol, .inr ⟨?_, hlt⟩⟩⟩
          rw [hback, hback]
          exact heq
        · -- Cell `p` now comes before `q`, but its row is taken first.
          have hp : ((m + 1, q.2) : Cell) = p := by rw [← hpm, hcol]
          obtain ⟨r, hr, hrow, hstronger⟩ := htie q hq hqm (by rw [hp]; exact heq)
          rw [hp] at hstronger
          exact .inr (inRow r hr (hrow.trans hpm.symm) (by rw [← hcol]; exact hstronger))

/-- The cells taken correspond when those of an exchanged table are taken in the exchanged rows. -/
theorem RowsExchanged.choices {m : Nat} {size size' : Nat → Nat} {g g' : Grid Score}
    (h : RowsExchanged m g g') (hsize : ∀ i, size' i = size (exchange m i))
    (hpicks : (picks g'.rounds g').Perm ((picks g.rounds g).map (exchangeRow m))) :
    (g'.choices size').Perm (g.choices size) := by
  have hmap := hpicks.map fun p => (g'.row size' p.1, p.2)
  rw [List.map_map] at hmap
  refine hmap.trans (.of_eq (List.map_congr_left fun p _ => ?_))
  simp only [Function.comp_apply, h.row hsize, exchangeRow, exchange_exchange]

/-- Ties stay settled when neighbouring rows and their sizes are exchanged. -/
theorem TiesSettled.exchange {m : Nat} {size size' : Nat → Nat} {g g' : Grid Score}
    (h : RowsExchanged m g g') (hsize : ∀ i, size' i = size (exchange m i))
    (hpicks : (picks g'.rounds g').Perm ((picks g.rounds g).map (exchangeRow m)))
    (hties : TiesSettled size g) : TiesSettled size' g' := by
  intro p' hp' k' hk' hne htie
  obtain ⟨p, hp, rfl⟩ := List.mem_map.mp (hpicks.mem_iff.mp hp')
  obtain ⟨k, rfl⟩ : ∃ k, Grid.exchange m k = k' := ⟨_, exchange_exchange m k'⟩
  have hback (q : Cell) : g'.weight (exchangeRow m q) = g.weight q := by
    rw [h.weight, exchangeRow_exchangeRow]
  have hk : k < g.rows := (exchange_lt h.inside).mp (h.rows ▸ hk')
  have hne : k ≠ p.1 := fun heq => hne (exchange_inj.mpr heq)
  have htie : g.weight (k, p.2) = g.weight p := by
    rw [← hback (k, p.2), ← hback p]
    exact htie
  rcases hties p hp k hk hne htie with htwins | ⟨q, hq, hqk, hstronger⟩
  · left
    rw [Twins, h.row hsize, h.row hsize, exchangeRow, exchange_exchange, exchange_exchange]
    exact htwins
  · refine .inr ⟨exchangeRow m q, hpicks.mem_iff.mpr (List.mem_map_of_mem hq),
      exchange_inj.mpr hqk, ?_⟩
    have hkj : g'.weight (Grid.exchange m k, (exchangeRow m p).2) = g.weight (k, p.2) :=
      hback (k, p.2)
    rw [hkj, hback]
    exact hstronger

/-- A table in which twins change places stays as it is. -/
theorem RowsExchanged.eq_of_twins {m : Nat} {size : Nat → Nat} {g g' : Grid Score}
    (h : RowsExchanged m g g') (hfull : g.Full) (hfull' : g'.Full)
    (htwins : Twins size g m (m + 1)) : g' = g ∧ ∀ i, size (Grid.exchange m i) = size i := by
  have hsame : size m = size (m + 1) := congrArg Prod.snd htwins
  have hcell (i j : Nat) (hj : j < g.cols) : g.cell (Grid.exchange m i, j) = g.cell (i, j) := by
    have hrow : g.cell (m, j) = g.cell (m + 1, j) := cell_of_row htwins hj rfl
    unfold Grid.exchange
    split_ifs with h1 h2
    · rw [h1, hrow]
    · rw [h2, hrow]
    · rfl
  constructor
  · refine ext_get? hfull' hfull h.rows h.cols fun i j hi hj => ?_
    obtain ⟨s', hs'⟩ := Option.isSome_iff_exists.mp (hfull'.get?_isSome hi hj)
    obtain ⟨s, hs⟩ := Option.isSome_iff_exists.mp
      (hfull.get?_isSome (h.rows ▸ hi) (h.cols ▸ hj))
    have heq : g'.cell (i, j) = g.cell (i, j) :=
      (h.cell (i, j)).trans (hcell i j (h.cols ▸ hj))
    simp only [Grid.cell, hs, hs', Option.getD_some] at heq
    rw [hs, hs', heq]
  · intro i
    unfold Grid.exchange
    split_ifs with h1 h2
    · rw [h1, hsame]
    · rw [h2, hsame]
    · rfl

/-- Exchanging two neighbouring rows keeps the choices of a level with settled ties, and keeps its
ties settled. -/
theorem RowsExchanged.settled {m : Nat} {size size' : Nat → Nat} {g g' : Grid Score}
    (h : RowsExchanged m g g') (hfull : g.Full) (hfull' : g'.Full)
    (hsize : ∀ i, size' i = size (exchange m i)) (hpos : g.Positive) (hties : TiesSettled size g) :
    (g'.choices size').Perm (g.choices size) ∧ TiesSettled size' g' := by
  by_cases htwins : Twins size g m (m + 1)
  · obtain ⟨rfl, hsame⟩ := h.eq_of_twins hfull hfull' htwins
    obtain rfl : size' = size := funext fun i => (hsize i).trans (hsame i)
    exact ⟨.refl _, hties⟩
  · obtain ⟨hstable, -⟩ := stable_picks hpos
    obtain ⟨hstable', -⟩ := stable_picks (h.positive hpos)
    have htie : ∀ p ∈ picks g.rounds g, p.1 = m → g.weight (m + 1, p.2) = g.weight p →
        TakenFirst g (picks g.rounds g) (m + 1) p.2 := by
      rintro p hp rfl heq
      exact (hties p hp (p.1 + 1) h.inside (by omega) heq).resolve_left htwins
    have hpicks := hstable'.perm g'.weight_le (hstable.exchange h htie)
    exact ⟨h.choices hsize hpicks, hties.exchange h hsize hpicks⟩

end Grid

namespace Outline

open Grid

/-! ### Choices and scores -/

/-- The cells taken can be read off the choices. -/
theorem map_cell_picks (size : Nat → Nat) {g : Grid Score} (hpos : g.Positive) :
    (picks g.rounds g).map g.cell = (g.choices size).map fun c => c.1.1.getD c.2 0 := by
  obtain ⟨hstable, -⟩ := stable_picks hpos
  rw [Grid.choices, List.map_map]
  refine List.map_congr_left fun p hp => ?_
  have hlt := (lt_of_weight_pos (hstable.positive p hp)).2
  simp [Grid.row, hlt]

/-- Two levels with the same choices have the same score. -/
theorem combine_eq_of_choices {a a' b : List Outline} {g g' : Grid Score}
    (hchoices : (g'.choices (childSize a')).Perm (g.choices (childSize a)))
    (htotal : (a'.map fun x => x.length + 1).sum = (a.map fun x => x.length + 1).sum)
    (hrows : g.rows = a.length) (hrows' : g'.rows = a'.length) (hcols : g.cols = b.length)
    (hcols' : g'.cols = b.length) (hpos : g.Positive) (hpos' : g'.Positive) :
    combine a' b g' = combine a b g := by
  obtain ⟨hstable, -⟩ := stable_picks hpos
  obtain ⟨hstable', -⟩ := stable_picks hpos'
  rw [combine_of_positive hrows hcols hpos, combine_of_positive hrows' hcols' hpos']
  have hsum : ((picks g'.rounds g').map g'.cell).sum = ((picks g.rounds g).map g.cell).sum := by
    rw [map_cell_picks (childSize a) hpos, map_cell_picks (childSize a') hpos',
      (hchoices.map _).sum_eq]
  have hright : leftOver b ((picks g'.rounds g').map Prod.snd) =
      leftOver b ((picks g.rounds g).map Prod.snd) := by
    have htaken := hchoices.map Prod.snd
    simp only [Grid.choices, List.map_map] at htaken
    exact leftOver_congr fun j => htaken.mem_iff
  -- What is left over of the other side is all of it without what was taken.
  have hleft : leftOver a' ((picks g'.rounds g').map Prod.fst) =
      leftOver a ((picks g.rounds g).map Prod.fst) := by
    have hall := leftOver_add_taken a (List.pairwise_map.mpr (hstable.apart.imp And.left))
      (List.forall_mem_map.mpr fun p hp => hrows ▸ (lt_of_weight_pos (hstable.positive p hp)).1)
    have hall' := leftOver_add_taken a' (List.pairwise_map.mpr (hstable'.apart.imp And.left))
      (List.forall_mem_map.mpr fun p hp => hrows' ▸ (lt_of_weight_pos (hstable'.positive p hp)).1)
    have htaken := (hchoices.map fun c => c.1.2).sum_eq
    simp only [Grid.choices, List.map_map] at htaken hall hall'
    change (List.map (childSize a' ∘ Prod.fst) _).sum = (List.map (childSize a ∘ Prod.fst) _).sum
      at htaken
    omega
  rw [hsum, hleft, hright]

end Outline

end Likeness
