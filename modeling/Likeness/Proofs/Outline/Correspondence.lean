import Likeness.Proofs.Outline.Conservation
import Likeness.Proofs.Outline.Parents

/-!
# Likeness.Proofs.Outline.Correspondence

What a score counts. A *correspondence* pairs entries of two outlines so that no entry occurs twice
and the parents of paired entries are paired. The alignment of two well nested outlines scores a
correspondence of theirs, one match for each pair and one for the parents of the outlines
(`Outline.exists_correspondence`). So no score is higher than the best correspondence allows.

The pairs are collected along the recursion. Each cell that is taken contributes the headings of its
two children and, shifted to their places, the pairs of their bodies. Cells taken are apart, so
their children lie in different stretches of the outlines.
-/

namespace Likeness

namespace Outline

open Grid

/-- Pairs of entries of two outlines in which no entry occurs twice. The parents of paired entries
are paired, unless both entries are at the top. -/
structure Correspondence (a b : Outline) (pairs : List (Nat × Nat)) : Prop where
  inside : ∀ p ∈ pairs, p.1 < a.length ∧ p.2 < b.length
  apart : pairs.Pairwise Apart
  closed : ∀ p ∈ pairs, (a.parent? p.1 = none ∧ b.parent? p.2 = none) ∨
    ∃ q ∈ pairs, a.parent? p.1 = some q.1 ∧ b.parent? p.2 = some q.2

theorem Correspondence.nil (a b : Outline) : Correspondence a b [] := by
  constructor <;> simp

/-! ### One pair of children -/

/-- Two headings, and the pairs of the bodies below them. -/
def nest (start : Nat × Nat) (pairs : List (Nat × Nat)) : List (Nat × Nat) :=
  start :: pairs.map fun p => (start.1 + 1 + p.1, start.2 + 1 + p.2)

theorem mem_nest {start p : Nat × Nat} {pairs : List (Nat × Nat)} :
    p ∈ nest start pairs ↔
      p = start ∨ ∃ q ∈ pairs, (start.1 + 1 + q.1, start.2 + 1 + q.2) = p := by
  simp [nest]

/-- The children of a pair cover one stretch of each outline. -/
theorem Correspondence.bounds {x y : Outline} {pairs : List (Nat × Nat)}
    (h : Correspondence x y pairs) {start p : Nat × Nat} (hp : p ∈ nest start pairs) :
    (start.1 ≤ p.1 ∧ p.1 < start.1 + 1 + x.length) ∧
      start.2 ≤ p.2 ∧ p.2 < start.2 + 1 + y.length := by
  rcases mem_nest.mp hp with rfl | ⟨q, hq, rfl⟩
  · omega
  · have hinside := h.inside q hq
    simp only
    omega

/-- A correspondence of the bodies of two children, put in its place. -/
theorem Correspondence.nest {a b x y : Outline} {start : Nat × Nat} {pairs : List (Nat × Nat)}
    (h : Correspondence x y pairs) (hleft : ChildAt a start.1 x) (hright : ChildAt b start.2 y) :
    Correspondence a b (nest start pairs) := by
  constructor
  · intro p hp
    have hbounds := h.bounds hp
    have hfitsLeft := hleft.fits
    have hfitsRight := hright.fits
    omega
  · refine List.pairwise_cons.mpr ⟨fun p hp => ?_, ?_⟩
    · obtain ⟨q, -, rfl⟩ := List.mem_map.mp hp
      constructor <;> simp only <;> omega
    · refine List.pairwise_map.mpr (h.apart.imp fun {p q} hpq => ?_)
      have hrow := hpq.1
      have hcol := hpq.2
      constructor <;> simp only <;> omega
  · intro p hp
    rcases mem_nest.mp hp with rfl | ⟨q, hq, rfl⟩
    · exact .inl ⟨hleft.top, hright.top⟩
    · right
      have hinside := h.inside q hq
      have hparentLeft := hleft.below q.1 hinside.1
      have hparentRight := hright.below q.2 hinside.2
      rcases h.closed q hq with ⟨htopLeft, htopRight⟩ | ⟨r, hr, hpairLeft, hpairRight⟩
      · rw [htopLeft] at hparentLeft
        rw [htopRight] at hparentRight
        exact ⟨start, mem_nest.mpr (.inl rfl), hparentLeft, hparentRight⟩
      · rw [hpairLeft] at hparentLeft
        rw [hpairRight] at hparentRight
        exact ⟨_, mem_nest.mpr (.inr ⟨r, hr, rfl⟩), hparentLeft, hparentRight⟩

/-! ### All pairs of children -/

/-- Correspondences that share no entry form one correspondence. -/
theorem Correspondence.flatMap {α : Type} {a b : Outline} {cells : List α}
    {pairs : α → List (Nat × Nat)} (h : ∀ p ∈ cells, Correspondence a b (pairs p))
    (hapart : cells.Pairwise fun p q => ∀ x ∈ pairs p, ∀ y ∈ pairs q, Apart x y) :
    Correspondence a b (cells.flatMap pairs) := by
  constructor
  · intro x hx
    obtain ⟨p, hp, hx⟩ := List.mem_flatMap.mp hx
    exact (h p hp).inside x hx
  · exact List.pairwise_flatMap.mpr ⟨fun p hp => (h p hp).apart, hapart⟩
  · intro x hx
    obtain ⟨p, hp, hx⟩ := List.mem_flatMap.mp hx
    rcases (h p hp).closed x hx with htop | ⟨y, hy, hparents⟩
    · exact .inl htop
    · exact .inr ⟨y, List.mem_flatMap.mpr ⟨p, hp, hy⟩, hparents⟩

/-- Different children cover different stretches of an outline. -/
theorem ne_of_startOf {bodies : List Outline} {i k : Nat} (hi : i < bodies.length)
    (hk : k < bodies.length) (hik : i ≠ k) {m n : Nat}
    (hm : startOf bodies i ≤ m ∧ m < startOf bodies i + 1 + (bodies[i]).length)
    (hn : startOf bodies k ≤ n ∧ n < startOf bodies k + 1 + (bodies[k]).length) : m ≠ n := by
  rcases Nat.lt_or_gt_of_ne hik with hlt | hlt
  · have := startOf_add_le hlt hk.le
    omega
  · have := startOf_add_le hlt hi.le
    omega

/-- The body of a child; empty if there is no such child. -/
def bodyOf (o : Outline) (i : Nat) : Outline := o.bodies[i]?.getD []

theorem bodyOf_of_lt {o : Outline} {i : Nat} (h : i < o.bodies.length) :
    bodyOf o i = o.bodies[i] := by
  simp [bodyOf, h]

/-- Where the children of a cell stand. -/
def startsOf (a b : Outline) (p : Cell) : Nat × Nat :=
  (startOf a.bodies p.1, startOf b.bodies p.2)

/-- Correspondences of the children taken form a correspondence of the outlines. -/
theorem Correspondence.ofCells {a b : Outline} (ha : a.WellNested) (hb : b.WellNested)
    {cells : List Cell} (hinside : ∀ p ∈ cells, p.1 < a.bodies.length ∧ p.2 < b.bodies.length)
    (hapart : cells.Pairwise Apart) {pairs : Cell → List (Nat × Nat)}
    (h : ∀ p ∈ cells, Correspondence (bodyOf a p.1) (bodyOf b p.2) (pairs p)) :
    Correspondence a b (cells.flatMap fun p => Outline.nest (startsOf a b p) (pairs p)) := by
  refine .flatMap (fun p hp => ?_) ?_
  · obtain ⟨hi, hj⟩ := hinside p hp
    refine (h p hp).nest ?_ ?_
    · rw [bodyOf_of_lt hi]
      exact ha.childAt hi
    · rw [bodyOf_of_lt hj]
      exact hb.childAt hj
  · refine hapart.imp_of_mem fun {p q} hp hq hpq x hx y hy => ?_
    obtain ⟨hi, hj⟩ := hinside p hp
    obtain ⟨hk, hl⟩ := hinside q hq
    have hxBounds := (h p hp).bounds hx
    have hyBounds := (h q hq).bounds hy
    rw [bodyOf_of_lt hi, bodyOf_of_lt hj] at hxBounds
    rw [bodyOf_of_lt hk, bodyOf_of_lt hl] at hyBounds
    exact ⟨ne_of_startOf hi hk hpq.1 hxBounds.1 hyBounds.1,
      ne_of_startOf hj hl hpq.2 hxBounds.2 hyBounds.2⟩

/-! ### All levels -/

/-- The nodes matched in a list of cells are the pairs that they contribute. -/
theorem length_flatMap_nest {g : Grid Score} {cells : List Cell} {start : Cell → Nat × Nat}
    {pairs : Cell → List (Nat × Nat)}
    (h : ∀ p ∈ cells, (g.cell p).matched = (pairs p).length + 1) :
    ((cells.map g.cell).sum).matched = (cells.flatMap fun p => nest (start p) (pairs p)).length := by
  induction cells with
  | nil => rfl
  | cons p cells ih =>
      obtain ⟨hp, hrest⟩ := List.forall_mem_cons.mp h
      rw [List.map_cons, List.sum_cons, Score.matched_add, ih hrest, hp, List.flatMap_cons,
        List.length_append, nest, List.length_cons, List.length_map]

/-- What an alignment has matched are the pairs of a correspondence, and the parents. -/
theorem exists_pairs {a b : Outline} (ha : a.WellNested) (hb : b.WellNested)
    (hsmall : a.length + b.length + 1 < 2 ^ 63) :
    ∃ pairs, Correspondence a b pairs ∧ (align a b).matched = pairs.length + 1 := by
  induction a, b using bodies_induction with
  | below a b ih =>
      by_cases hne : a = [] ∨ b = []
      · rw [align_eq, if_pos hne]
        exact ⟨[], .nil a b, rfl⟩
      · obtain ⟨hrows, hcols⟩ := size_childScores hne
        have hpos := positive_childScores hsmall
        obtain ⟨hstable, -⟩ := stable_picks hpos
        have hinside : ∀ p ∈ picks (childScores a b).rounds (childScores a b),
            p.1 < a.bodies.length ∧ p.2 < b.bodies.length := fun p hp =>
          hrows ▸ hcols ▸ lt_of_weight_pos (hstable.positive p hp)
        have hcells : ∀ p ∈ picks (childScores a b).rounds (childScores a b), ∃ pairs,
            Correspondence (bodyOf a p.1) (bodyOf b p.2) pairs ∧
              ((childScores a b).cell p).matched = pairs.length + 1 := by
          intro p hp
          obtain ⟨hi, hj⟩ := hinside p hp
          have hx := List.getElem_mem hi
          have hy := List.getElem_mem hj
          have hless := length_add_lt hx hy
          rw [bodyOf_of_lt hi, bodyOf_of_lt hj, cell_childScores_of_lt hi hj]
          exact ih _ hx _ hy (ha.of_mem_bodies hx) (hb.of_mem_bodies hy) (by omega)
        choose! pairs hpairs using hcells
        refine ⟨_, .ofCells ha hb hinside hstable.apart fun p hp => (hpairs p hp).1, ?_⟩
        rw [align_eq, if_neg hne, combine_of_positive hrows hcols hpos,
          ← length_flatMap_nest fun p hp => (hpairs p hp).2, Nat.add_comm]

/-- **Scores are realised.** Two well nested outlines have a correspondence that pairs as many
entries as their alignment has matched, the parents apart, and of which the total is what pairing
them leaves. Hence no alignment reports more than the best correspondence does. -/
theorem exists_correspondence {a b : Outline} (ha : a.WellNested) (hb : b.WellNested)
    (hsmall : a.length + b.length + 1 < 2 ^ 63) :
    (∃ pairs, Correspondence a b pairs ∧ (align a b).matched = pairs.length + 1 ∧
        (align a b).total + pairs.length = a.length + b.length + 1) ∧
      ∀ best, (∀ pairs, Correspondence a b pairs → pairs.length ≤ best) →
        (align a b).matched ≤ best + 1 ∧ a.length + b.length + 1 ≤ (align a b).total + best := by
  obtain ⟨pairs, hpairs, hmatched⟩ := exists_pairs ha hb hsmall
  have hconserved := (balanced_align hsmall).conserved
  refine ⟨⟨pairs, hpairs, hmatched, by omega⟩, fun best hbest => ?_⟩
  have hle := hbest pairs hpairs
  omega

/-- Each of the trees has a counterpart that it does not fit, and one entry below them is matched. -/
theorem exists_correspondence_crossed :
    ∃ pairs, Correspondence [⟨1, 0⟩, ⟨2, 1⟩, ⟨2, 2⟩, ⟨1, 3⟩, ⟨2, 4⟩]
      [⟨1, 0⟩, ⟨2, 1⟩, ⟨3, 2⟩, ⟨1, 3⟩] pairs ∧ pairs.length = 3 := by
  obtain ⟨⟨pairs, hpairs, hmatched, -⟩, -⟩ := exists_correspondence
    (a := [⟨1, 0⟩, ⟨2, 1⟩, ⟨2, 2⟩, ⟨1, 3⟩, ⟨2, 4⟩]) (b := [⟨1, 0⟩, ⟨2, 1⟩, ⟨3, 2⟩, ⟨1, 3⟩])
    (by decide) (by decide) (by decide)
  have hscore : align [⟨1, 0⟩, ⟨2, 1⟩, ⟨2, 2⟩, ⟨1, 3⟩, ⟨2, 4⟩]
      [⟨1, 0⟩, ⟨2, 1⟩, ⟨3, 2⟩, ⟨1, 3⟩] = ⟨4, 7⟩ := by
    decide +kernel
  rw [hscore] at hmatched
  exact ⟨pairs, hpairs, (Nat.succ.inj hmatched).symm⟩

end Outline

end Likeness
