import Mathlib.Algebra.BigOperators.Group.List.Basic
import Mathlib.Data.List.Flatten
import Mathlib.Data.List.Perm.Basic
import Likeness.Proofs.Sequence.Runs

/-!
# Likeness.Proofs.Sequence.Tiling

Greedy tiling places one tile after the other.

The tiling that takes the longest open run again and again, of several the first, is a relation of
its own (`Tiling.OneByOne`), which knows nothing of rounds and marks. A round places tiles in its
order: a tile can only shorten other runs, so a run that is longest later on was a candidate of the
round, and one that was cut never comes back at the same length (`Tiling.foldl_place`). The longest
open run is shorter after a round, so there are rounds enough (`Tiling.rounds_oneByOne`). What holds
of a greedy tiling is then read off the relation.
-/

namespace Likeness

/-! ### Positions of a tile -/

/-- Whether a position of the first sequence belongs to a tile. -/
def Tile.OnSource (t : Tile) (i : Nat) : Prop := t.source ≤ i ∧ i < t.source + t.length

/-- Whether a position of the second sequence belongs to a tile. -/
def Tile.OnTarget (t : Tile) (i : Nat) : Prop := t.target ≤ i ∧ i < t.target + t.length

instance (t : Tile) : DecidablePred t.OnSource := fun i =>
  inferInstanceAs (Decidable (t.source ≤ i ∧ i < t.source + t.length))

instance (t : Tile) : DecidablePred t.OnTarget := fun i =>
  inferInstanceAs (Decidable (t.target ≤ i ∧ i < t.target + t.length))

theorem Tile.Before.asymm {t u : Tile} (h : t.Before u) : ¬ u.Before t := by
  unfold Tile.Before at *
  omega

namespace Tiling

variable {α : Type}

/-- Whether a tile lies on equal elements. -/
def IsCommon (a b : List α) (t : Tile) : Prop :=
  ∀ k < t.length, ∃ x, a[t.source + k]? = some x ∧ b[t.target + k]? = some x

/-- A common run without a position of the tiles that are placed. -/
structure OpenRun (a b : List α) (placed : List Tile) (t : Tile) : Prop where
  common : IsCommon a b t
  source : ∀ k < t.length, ∀ p ∈ placed, ¬ p.OnSource (t.source + k)
  target : ∀ k < t.length, ∀ p ∈ placed, ¬ p.OnTarget (t.target + k)

/-- Tiling with one tile after the other: from the tiles placed so far to those placed in the end.
The next tile is the longest open run, and of several the first. -/
inductive OneByOne (a b : List α) (least : Nat) : List Tile → List Tile → Prop where
  | stop {placed : List Tile} (short : ∀ t, OpenRun a b placed t → t.length < least) :
      OneByOne a b least placed placed
  | take {placed final : List Tile} {t : Tile} (run : OpenRun a b placed t)
      (enough : least ≤ t.length) (longest : ∀ u, OpenRun a b placed u → u.length ≤ t.length)
      (first : ∀ u, OpenRun a b placed u → u.length = t.length → u = t ∨ t.Before u)
      (rest : OneByOne a b least (placed ++ [t]) final) : OneByOne a b least placed final

/-- The tiles cover both sequences as far as runs of the least length go. -/
structure Exhausts (a b : List α) (least : Nat) (tiles : List Tile) : Prop where
  common : ∀ t ∈ tiles, IsCommon a b t
  enough : ∀ t ∈ tiles, least ≤ t.length
  apart : tiles.Pairwise fun p q =>
    (∀ i, ¬ (p.OnSource i ∧ q.OnSource i)) ∧ ∀ i, ¬ (p.OnTarget i ∧ q.OnTarget i)
  sorted : tiles.Pairwise fun p q => q.length ≤ p.length
  short : ∀ t, OpenRun a b tiles t → t.length < least

/-! ### Open runs -/

variable {a b : List α} {least : Nat} {placed : List Tile} {t u : Tile}

theorem OpenRun.of_append {more : List Tile} (h : OpenRun a b (placed ++ more) t) :
    OpenRun a b placed t :=
  ⟨h.common, fun k hk p hp => h.source k hk p (List.mem_append_left _ hp),
    fun k hk p hp => h.target k hk p (List.mem_append_left _ hp)⟩

/-- A tile of some length is not open once it is placed. -/
theorem OpenRun.not_mem (h : OpenRun a b placed t) (hpos : 0 < t.length) : t ∉ placed :=
  fun hmem => h.source 0 hpos t hmem ⟨Nat.le_add_right .., Nat.add_lt_add_left hpos _⟩

theorem openRun_zero (a b : List α) (placed : List Tile) : OpenRun a b placed ⟨0, 0, 0⟩ :=
  ⟨fun _ hk => absurd hk (Nat.not_lt_zero _), fun _ hk => absurd hk (Nat.not_lt_zero _),
    fun _ hk => absurd hk (Nat.not_lt_zero _)⟩

theorem OpenRun.length_le (h : OpenRun a b placed t) : t.length ≤ min a.length b.length := by
  rcases Nat.eq_zero_or_pos t.length with hzero | hpos
  · omega
  · obtain ⟨x, hx, hy⟩ := h.common (t.length - 1) (by omega)
    have hlt := (List.getElem?_eq_some_iff.mp hx).1
    have hlt' := (List.getElem?_eq_some_iff.mp hy).1
    omega

/-- An open run has no position in common with a tile that is placed. -/
theorem OpenRun.apart (h : OpenRun a b placed t) {p : Tile} (hp : p ∈ placed) :
    (∀ i, ¬ (p.OnSource i ∧ t.OnSource i)) ∧ ∀ i, ¬ (p.OnTarget i ∧ t.OnTarget i) := by
  constructor
  · rintro i ⟨hpi, hle, hlt⟩
    obtain ⟨k, rfl⟩ := Nat.exists_eq_add_of_le hle
    exact h.source k (Nat.lt_of_add_lt_add_left hlt) p hp hpi
  · rintro i ⟨hpi, hle, hlt⟩
    obtain ⟨k, rfl⟩ := Nat.exists_eq_add_of_le hle
    exact h.target k (Nat.lt_of_add_lt_add_left hlt) p hp hpi

/-! ### One tile after the other -/

/-- There is only one way to tile with one tile after the other. -/
theorem OneByOne.unique {final other : List Tile} (h : OneByOne a b least placed final)
    (h' : OneByOne a b least placed other) : final = other := by
  induction h with
  | stop short =>
      cases h' with
      | stop => rfl
      | take run enough => exact absurd (short _ run) (Nat.not_lt.mpr enough)
  | @take placed final t run enough longest first rest ih =>
      cases h' with
      | stop short => exact absurd (short _ run) (Nat.not_lt.mpr enough)
      | @take _ _ u run' enough' longest' first' rest' =>
          have hlength : u.length = t.length := le_antisymm (longest _ run') (longest' _ run)
          rcases first _ run' hlength with rfl | hbefore
          · exact ih rest'
          · rcases first' _ run hlength.symm with rfl | hbefore'
            · exact ih rest'
            · exact absurd hbefore' hbefore.asymm

/-- What is kept while tiles are placed, whatever runs are left. -/
theorem OneByOne.exhausts {final : List Tile} (h : OneByOne a b least placed final)
    (hcommon : ∀ t ∈ placed, IsCommon a b t) (henough : ∀ t ∈ placed, least ≤ t.length)
    (hapart : placed.Pairwise fun p q =>
      (∀ i, ¬ (p.OnSource i ∧ q.OnSource i)) ∧ ∀ i, ¬ (p.OnTarget i ∧ q.OnTarget i))
    (hsorted : placed.Pairwise fun p q => q.length ≤ p.length)
    (hlongest : ∀ t, OpenRun a b placed t → ∀ p ∈ placed, t.length ≤ p.length) :
    Exhausts a b least final := by
  induction h with
  | stop short => exact ⟨hcommon, henough, hapart, hsorted, short⟩
  | @take placed final t run enough longest first rest ih =>
      have hmem {P : Tile → Prop} (hold : ∀ p ∈ placed, P p) (hnew : P t) :
          ∀ p ∈ placed ++ [t], P p := by
        intro p hp
        rcases List.mem_append.mp hp with hp | hp
        · exact hold p hp
        · obtain rfl := List.mem_singleton.mp hp
          exact hnew
      have hpairwise {R : Tile → Tile → Prop} (hold : placed.Pairwise R)
          (hnew : ∀ p ∈ placed, R p t) : (placed ++ [t]).Pairwise R := by
        refine List.pairwise_append.mpr ⟨hold, List.pairwise_singleton _ _, fun p hp q hq => ?_⟩
        obtain rfl := List.mem_singleton.mp hq
        exact hnew p hp
      refine ih (hmem hcommon run.common) (hmem henough enough)
        (hpairwise hapart fun p hp => run.apart hp) (hpairwise hsorted fun p hp => hlongest t run p hp)
        fun u hu => hmem (hlongest u hu.of_append) (longest u hu.of_append)

/-! ### Marks -/

/-- The marks of a tiling are the positions of its tiles. -/
structure Marked (a b : List α) (t : Tiling) : Prop where
  source : t.sourceMarks = (List.range a.length).map fun i => decide (∃ p ∈ t.tiles, p.OnSource i)
  target : t.targetMarks = (List.range b.length).map fun i => decide (∃ p ∈ t.tiles, p.OnTarget i)

theorem marked_blank (a b : List α) : Marked a b (blank a.length b.length) := by
  constructor <;> simp [blank, List.map_const']

theorem mark_map_range (f : Nat → Bool) (m start length : Nat) :
    mark ((List.range m).map f) start length =
      (List.range m).map fun i => f i || (start ≤ i && i < start + length) := by
  rw [mark]
  refine List.ext_getElem (by simp) fun i hi hi' => ?_
  simp

theorem touches_iff {marks : List Bool} {start length : Nat} :
    touches marks start length = true ↔ ∃ k < length, marks[start + k]? = some true := by
  rw [touches, List.contains_iff_mem, List.mem_iff_getElem?]
  simp only [List.getElem?_take, List.getElem?_drop]
  refine exists_congr fun k => ?_
  split <;> simp_all

theorem Marked.place {t : Tiling} (h : Marked a b t) (tile : Tile) : Marked a b (t.place tile) := by
  unfold Tiling.place
  split
  · exact h
  · constructor
    · dsimp only
      rw [h.source, mark_map_range]
      refine List.map_congr_left fun i _ => ?_
      rw [Bool.eq_iff_iff]
      simp only [Bool.or_eq_true, Bool.and_eq_true, decide_eq_true_eq,
        List.mem_append, List.mem_singleton, or_and_right, exists_or, exists_eq_left]
      rfl
    · dsimp only
      rw [h.target, mark_map_range]
      refine List.map_congr_left fun i _ => ?_
      rw [Bool.eq_iff_iff]
      simp only [Bool.or_eq_true, Bool.and_eq_true, decide_eq_true_eq,
        List.mem_append, List.mem_singleton, or_and_right, exists_or, exists_eq_left]
      rfl

theorem getElem?_marks {m i : Nat} {covered : Nat → Prop} [DecidablePred covered] {v : Bool} :
    ((List.range m).map fun i => decide (covered i))[i]? = some v ↔
      i < m ∧ decide (covered i) = v := by
  rw [List.getElem?_map]
  by_cases hi : i < m
  · simp [hi]
  · simp [hi]

/-- Runs of the marked sequences are the open runs. -/
theorem Marked.isRun_iff {t : Tiling} (h : Marked a b t) {tile : Tile} :
    Sequence.IsRun (a.zip t.sourceMarks) (b.zip t.targetMarks) tile ↔
      OpenRun a b t.tiles tile := by
  have hlt {l : List α} {i : Nat} {x : α} (hx : l[i]? = some x) : i < l.length :=
    (List.getElem?_eq_some_iff.mp hx).1
  simp only [Sequence.IsRun, List.getElem?_zip_eq_some, h.source, h.target, getElem?_marks,
    decide_eq_false_iff_not, not_exists, not_and]
  constructor
  · intro hrun
    refine ⟨fun k hk => ?_, fun k hk => ?_, fun k hk => ?_⟩
    · obtain ⟨x, ⟨hx, -⟩, hy, -⟩ := hrun k hk
      exact ⟨x, hx, hy⟩
    · obtain ⟨x, ⟨-, -, hfree⟩, -⟩ := hrun k hk
      exact hfree
    · obtain ⟨x, -, -, -, hfree⟩ := hrun k hk
      exact hfree
  · intro hopen k hk
    obtain ⟨x, hx, hy⟩ := hopen.common k hk
    exact ⟨x, ⟨hx, hlt hx, hopen.source k hk⟩, hy, hlt hy, hopen.target k hk⟩

/-- A common run is placed just when it is open. -/
theorem Marked.place_eq {t : Tiling} (h : Marked a b t) {tile : Tile} (hcommon : IsCommon a b tile)
    [Decidable (OpenRun a b t.tiles tile)] :
    (t.place tile).tiles = if OpenRun a b t.tiles tile then t.tiles ++ [tile] else t.tiles := by
  have hlt {l : List α} {i : Nat} {x : α} (hx : l[i]? = some x) : i < l.length :=
    (List.getElem?_eq_some_iff.mp hx).1
  have hsource : touches t.sourceMarks tile.source tile.length = true ↔
      ∃ k < tile.length, ∃ p ∈ t.tiles, p.OnSource (tile.source + k) := by
    rw [touches_iff, h.source]
    refine exists_congr fun k => and_congr_right fun hk => ?_
    obtain ⟨x, hx, -⟩ := hcommon k hk
    simp [hlt hx]
  have htarget : touches t.targetMarks tile.target tile.length = true ↔
      ∃ k < tile.length, ∃ p ∈ t.tiles, p.OnTarget (tile.target + k) := by
    rw [touches_iff, h.target]
    refine exists_congr fun k => and_congr_right fun hk => ?_
    obtain ⟨x, -, hy⟩ := hcommon k hk
    simp [hlt hy]
  unfold Tiling.place
  split
  next htouched =>
    rw [Bool.or_eq_true, hsource, htarget] at htouched
    rw [if_neg]
    rintro ⟨-, hfree, hfree'⟩
    rcases htouched with ⟨k, hk, p, hp, hon⟩ | ⟨k, hk, p, hp, hon⟩
    · exact hfree k hk p hp hon
    · exact hfree' k hk p hp hon
  next hfree =>
    rw [Bool.or_eq_true, hsource, htarget] at hfree
    push Not at hfree
    rw [if_pos ⟨hcommon, hfree.1, hfree.2⟩]

/-! ### Rounds -/

open Classical in
/-- The candidates of a round, placed in their order, are placed one by one. All open runs of their
length or more are among those still to come, so each that is open is the next tile, and in the end
there is none of that length. -/
theorem foldl_place {longest : Nat} (hpos : 0 < longest) (hleast : least ≤ longest)
    {candidates : List Tile} (hsorted : candidates.Pairwise Tile.Before)
    (hcandidates : ∀ c ∈ candidates, IsCommon a b c ∧ c.length = longest) {t : Tiling}
    (h : Marked a b t)
    (hall : ∀ u, OpenRun a b t.tiles u → longest ≤ u.length → u ∈ candidates) :
    Marked a b (candidates.foldl place t) ∧
      (∀ u, OpenRun a b (candidates.foldl place t).tiles u → u.length < longest) ∧
      ∀ final, OneByOne a b least (candidates.foldl place t).tiles final →
        OneByOne a b least t.tiles final := by
  induction candidates generalizing t with
  | nil =>
      refine ⟨h, fun u hu => ?_, fun final hfinal => hfinal⟩
      by_contra hlong
      exact List.not_mem_nil (hall u hu (Nat.not_lt.mp hlong))
  | cons c candidates ih =>
      obtain ⟨hfirst, hsorted⟩ := List.pairwise_cons.mp hsorted
      obtain ⟨hcommon, hlength⟩ := hcandidates c List.mem_cons_self
      have htiles := h.place_eq hcommon
      rw [List.foldl_cons]
      have hrest : ∀ u, OpenRun a b (t.place c).tiles u → longest ≤ u.length → u ∈ candidates := by
        intro u hu hlong
        have hopen : OpenRun a b t.tiles u := by
          rw [htiles] at hu
          split at hu
          · exact hu.of_append
          · exact hu
        refine (List.mem_cons.mp (hall u hopen hlong)).resolve_left ?_
        rintro rfl
        rw [htiles, if_pos hopen] at hu
        exact hu.not_mem (hlength ▸ hpos) (by simp)
      obtain ⟨hmarked, hshort, hsteps⟩ := ih hsorted
        (fun d hd => hcandidates d (List.mem_cons_of_mem _ hd)) (h.place c) hrest
      refine ⟨hmarked, hshort, fun final hfinal => ?_⟩
      have hfinal := hsteps final hfinal
      rw [htiles] at hfinal
      split at hfinal
      next hopen =>
        have hmost : ∀ u, OpenRun a b t.tiles u → u.length ≤ c.length := by
          intro u hu
          by_contra hlong
          have hmem := hall u hu (by omega)
          have hlength' := (hcandidates u hmem).2
          omega
        refine .take hopen (hlength ▸ hleast) hmost (fun u hu hsame => ?_) hfinal
        exact (List.mem_cons.mp (hall u hu (by omega))).imp_right (hfirst u)
      next => exact hfinal

variable [DecidableEq α]

/-- What a round finds: the longest runs of positions without a mark. -/
def found (a b : List α) (t : Tiling) : Sequence.Longest :=
  Sequence.longestRuns (a.zip t.sourceMarks) (b.zip t.targetMarks)

/-- The tiling after a round that goes on. -/
def afterRound (a b : List α) (t : Tiling) : Tiling := (found a b t).tiles.foldl place t

theorem rounds_succ (a b : List α) (least n : Nat) (t : Tiling) :
    rounds a b least (n + 1) t =
      if (found a b t).length < least then t else rounds a b least n (afterRound a b t) := rfl

section

variable {t : Tiling} {u : Tile}

theorem Marked.mem_found (h : Marked a b t) : u ∈ (found a b t).tiles ↔
    OpenRun a b t.tiles u ∧ u.length = (found a b t).length ∧ 0 < u.length := by
  rw [← h.isRun_iff]
  exact Sequence.mem_longestRuns

theorem Marked.length_le_found (h : Marked a b t) (hu : OpenRun a b t.tiles u) :
    u.length ≤ (found a b t).length := (h.isRun_iff.mpr hu).length_le

theorem exists_mem_found (hpos : 0 < (found a b t).length) : ∃ c, c ∈ (found a b t).tiles :=
  List.exists_mem_of_ne_nil _ (Sequence.longestRuns_ne_nil hpos)

/-- What a round does that goes on: it places tiles one by one until no open run is as long as those it
found. -/
theorem Marked.place_found (h : Marked a b t) (hpos : 0 < (found a b t).length)
    (hleast : least ≤ (found a b t).length) :
    Marked a b (afterRound a b t) ∧
      (∀ u, OpenRun a b (afterRound a b t).tiles u → u.length < (found a b t).length) ∧
      ∀ final, OneByOne a b least (afterRound a b t).tiles final →
        OneByOne a b least t.tiles final := by
  refine foldl_place hpos hleast (Sequence.pairwise_longestRuns _ _) (fun c hc => ?_) h
    fun u hu hlong => ?_
  · obtain ⟨hopen, hlength, -⟩ := h.mem_found.mp hc
    exact ⟨hopen.common, hlength⟩
  · have hlength : u.length = (found a b t).length := le_antisymm (h.length_le_found hu) hlong
    exact h.mem_found.mpr ⟨hu, hlength, hlength ▸ hpos⟩

end

/-- With more rounds than the longest open run has positions, rounds place one tile after the other
until no run is left. -/
theorem rounds_oneByOne (hleast : 0 < least) (n : Nat) {t : Tiling} (h : Marked a b t)
    (hrounds : ∀ u, OpenRun a b t.tiles u → u.length < n) :
    Marked a b (rounds a b least n t) ∧
      OneByOne a b least t.tiles (rounds a b least n t).tiles := by
  induction n generalizing t with
  | zero => exact absurd (hrounds _ (openRun_zero a b t.tiles)) (Nat.not_lt_zero _)
  | succ n ih =>
      rw [rounds_succ]
      split
      next hless => exact ⟨h, .stop fun u hu => (h.length_le_found hu).trans_lt hless⟩
      next hmore =>
        have hpos : 0 < (found a b t).length := by omega
        obtain ⟨c, hc⟩ := exists_mem_found hpos
        obtain ⟨hopen, hlength, -⟩ := h.mem_found.mp hc
        have hlongest : (found a b t).length < n + 1 := hlength ▸ hrounds c hopen
        obtain ⟨hmarked, hshort, hsteps⟩ := h.place_found hpos (Nat.not_lt.mp hmore)
        obtain ⟨hmarked', hfinal⟩ := ih hmarked fun u hu => (hshort u hu).trans_le (by omega)
        exact ⟨hmarked', hsteps _ hfinal⟩

theorem greedy_oneByOne (a b : List α) (least : Nat) :
    Marked a b (greedy a b least) ∧ OneByOne a b (max least 1) [] (greedy a b least).tiles :=
  rounds_oneByOne (by omega) (a.length + 1) (marked_blank a b)
    fun _ hu => Nat.lt_succ_of_le (hu.length_le.trans (Nat.min_le_left _ _))

theorem greedy_exhausts (a b : List α) (least : Nat) :
    Exhausts a b (max least 1) (greedy a b least).tiles :=
  (greedy_oneByOne a b least).2.exhausts (List.forall_mem_nil _) (List.forall_mem_nil _) .nil .nil
    fun _ _ => List.forall_mem_nil _

/-- **Rounds make no difference.** Taking the longest open run, of several the first, until the
longest is too short, gives the tiles of the greedy tiling in their order and no others. -/
theorem oneByOne_iff_greedy (a b : List α) (least : Nat) (tiles : List Tile) :
    OneByOne a b (max least 1) [] tiles ↔ tiles = (greedy a b least).tiles := by
  obtain ⟨-, hgreedy⟩ := greedy_oneByOne a b least
  constructor
  · exact fun h => h.unique hgreedy
  · rintro rfl
    exact hgreedy

end Tiling

end Likeness
