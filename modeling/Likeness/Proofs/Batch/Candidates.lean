import Mathlib.Algebra.BigOperators.Intervals
import Likeness.Proofs.Batch.Plan

/-!
# Likeness.Proofs.Batch.Candidates

Which pairs a plan holds.

The candidates of a batch stand at positions, which are looked at in lexicographic order. A plan
has one job for every pair of different paths that some candidate brings together, made from the
first of these candidates, and every candidate is counted once (`Plan.ofGroups_exact`). So the
order of the groups, and of the works in them, does not change which pairs are planned.
-/

namespace Likeness

namespace Batch

def Job.pair (job : Job) : Sym2 (List (List Nat)) := Path.pair job.first.path job.second.path

/-- Whether a group has a work at a path. -/
def Group.Has (g : Group) (p : Path) : Prop := ∃ w ∈ g.works, w.path.same p = true

/-- Whether a plan has a job for two paths. -/
def Plan.Holds (p : Plan) (x y : Path) : Prop := ∃ job ∈ p.jobs, job.pair = Path.pair x y

namespace Plan

/-! ### Positions -/

/-- The works at a position: the places of two works of all groups together, or the places of two
groups and of a work in each. -/
inductive Candidate (groups : List Group) : Pairing → List Nat → Work → Work → Prop where
  | manyToMany {i j : Nat} {a b : Work} (order : i < j)
      (first : (groups.flatMap Group.works)[i]? = some a)
      (second : (groups.flatMap Group.works)[j]? = some b) : Candidate groups .manyToMany [i, j] a b
  | oneToOne {i j k l : Nat} {g h : Group} {a b : Work} (order : i < j)
      (group : groups[i]? = some g) (other : groups[j]? = some h) (first : g.works[k]? = some a)
      (second : h.works[l]? = some b) : Candidate groups .oneToOne [i, j, k, l] a b

/-- Whether a batch brings two paths together. -/
def Paired (groups : List Group) : Pairing → Path → Path → Prop
  | .manyToMany, p, q => ∃ (i j : Nat) (a b : Work), i ≠ j ∧
      (groups.flatMap Group.works)[i]? = some a ∧ (groups.flatMap Group.works)[j]? = some b ∧
      a.path.same p = true ∧ b.path.same q = true
  | .oneToOne, p, q => ∃ (i j : Nat) (g h : Group), i ≠ j ∧
      groups[i]? = some g ∧ groups[j]? = some h ∧ g.Has p ∧ h.Has q

/-- How many candidates a batch has. -/
def candidateCount (groups : List Group) : Pairing → Nat
  | .manyToMany =>
    let n := (groups.flatMap Group.works).length
    n * (n - 1) / 2
  | .oneToOne =>
    let size (i : Nat) := (groups.map (·.works.length)).getD i 0
    ∑ j ∈ Finset.range groups.length, ∑ i ∈ Finset.range j, size i * size j

/-- The same groups in another order, each with its works in another order. -/
def Shuffled (groups others : List Group) : Prop :=
  ∃ between, groups.Perm between ∧
    List.Forall₂ (fun g h : Group => g.works.Perm h.works) between others

/-! ### Lists of pairs -/

section Lists

variable {α : Type} {f : α → Nat} {l : List α}

theorem laterPairs_map {β : Type} (f : α → β) (l : List α) :
    laterPairs (l.map f) = (laterPairs l).map (Prod.map f f) := by
  induction l with
  | nil => rfl
  | cons a rest ih => simp [laterPairs, ih, Function.comp_def]

theorem length_laterPairs (l : List α) :
    (laterPairs l).length = l.length * (l.length - 1) / 2 := by
  rw [← Nat.choose_two_right]
  induction l with
  | nil => rfl
  | cons a rest ih =>
      rw [laterPairs, List.length_append, List.length_map, ih, List.length_cons,
        Nat.choose_succ_succ' _ 1, Nat.choose_one_right]

/-- In a list sorted by `f` the later elements are those with the larger value. -/
theorem mem_laterPairs (h : l.Pairwise (f · < f ·)) {x y : α} :
    (x, y) ∈ laterPairs l ↔ x ∈ l ∧ y ∈ l ∧ f x < f y := by
  induction l with
  | nil => simp [laterPairs]
  | cons a rest ih =>
      obtain ⟨hfirst, hrest⟩ := List.pairwise_cons.mp h
      rw [laterPairs, List.mem_append, ih hrest, List.mem_map]
      constructor
      · rintro (⟨b, hb, heq⟩ | ⟨hx, hy, hlt⟩)
        · obtain ⟨rfl, rfl⟩ := Prod.mk.inj heq
          exact ⟨List.mem_cons_self, List.mem_cons_of_mem _ hb, hfirst _ hb⟩
        · exact ⟨List.mem_cons_of_mem _ hx, List.mem_cons_of_mem _ hy, hlt⟩
      · rintro ⟨hx, hy, hlt⟩
        rcases List.mem_cons.mp hx with rfl | hx' <;> rcases List.mem_cons.mp hy with rfl | hy'
        · exact absurd hlt (lt_irrefl _)
        · exact .inl ⟨y, hy', rfl⟩
        · exact absurd hlt (lt_asymm (hfirst x hx'))
        · exact .inr ⟨hx', hy', hlt⟩

/-- The pairs of a list sorted by `f` come in the order of the values of both sides. -/
theorem pairwise_laterPairs (h : l.Pairwise (f · < f ·)) :
    (laterPairs l).Pairwise fun x y => [f x.1, f x.2] < [f y.1, f y.2] := by
  induction l with
  | nil => exact .nil
  | cons a rest ih =>
      obtain ⟨hfirst, hrest⟩ := List.pairwise_cons.mp h
      rw [laterPairs, List.pairwise_append, List.pairwise_map]
      refine ⟨hrest.imp fun hlt => ?_, ih hrest, fun x hx y hy => ?_⟩
      · simp [List.cons_lt_cons_iff, hlt]
      · obtain ⟨b, -, rfl⟩ := List.mem_map.mp hx
        obtain ⟨hy, -⟩ := (mem_laterPairs hrest).mp hy
        simp [List.cons_lt_cons_iff, hfirst y.1 hy]

theorem pairwise_crossPairs {as bs : List α} (ha : as.Pairwise (f · < f ·))
    (hb : bs.Pairwise (f · < f ·)) :
    (crossPairs as bs).Pairwise fun x y => [f x.1, f x.2] < [f y.1, f y.2] := by
  rw [crossPairs, List.pairwise_flatMap]
  refine ⟨fun a _ => ?_, ha.imp fun hlt x hx y hy => ?_⟩
  · rw [List.pairwise_map]
    exact hb.imp fun hlt => by simp [List.cons_lt_cons_iff, hlt]
  · obtain ⟨b, -, rfl⟩ := List.mem_map.mp hx
    obtain ⟨c, -, rfl⟩ := List.mem_map.mp hy
    simp [List.cons_lt_cons_iff, hlt]

theorem crossPairs_map {β : Type} (f : α → β) (as bs : List α) :
    crossPairs (as.map f) (bs.map f) = (crossPairs as bs).map (Prod.map f f) := by
  simp [crossPairs, List.flatMap_map, List.map_flatMap, Function.comp_def]

theorem mem_crossPairs {as bs : List α} {x y : α} :
    (x, y) ∈ crossPairs as bs ↔ x ∈ as ∧ y ∈ bs := by
  simp [crossPairs, and_comm]

theorem length_crossPairs (as bs : List α) :
    (crossPairs as bs).length = as.length * bs.length := by
  simp [crossPairs, List.length_flatMap]

theorem pairwise_zipIdx (l : List α) : l.zipIdx.Pairwise (Prod.snd · < Prod.snd ·) := by
  rw [← List.pairwise_map (R := (· < ·)), List.zipIdx_map_snd]
  exact List.pairwise_lt_range'

end Lists

/-! ### Candidates in the order in which they are looked at -/

/-- The candidates with their positions, in order. -/
def scan (groups : List Group) : Pairing → List (List Nat × Work × Work)
  | .manyToMany =>
    (laterPairs (groups.flatMap Group.works).zipIdx).map fun (x, y) => ([x.2, y.2], x.1, y.1)
  | .oneToOne =>
    (laterPairs groups.zipIdx).flatMap fun (g, h) =>
      (crossPairs g.1.works.zipIdx h.1.works.zipIdx).map fun (x, y) =>
        ([g.2, h.2, x.2, y.2], x.1, y.1)

variable {groups : List Group} {pairing : Pairing}

theorem laterPairs_zipIdx {α : Type} (l : List α) :
    (laterPairs l.zipIdx).map (Prod.map Prod.fst Prod.fst) = laterPairs l := by
  rw [← laterPairs_map, List.zipIdx_map_fst]

theorem crossPairs_zipIdx {α : Type} (as bs : List α) :
    (crossPairs as.zipIdx bs.zipIdx).map (Prod.map Prod.fst Prod.fst) = crossPairs as bs := by
  rw [← crossPairs_map, List.zipIdx_map_fst, List.zipIdx_map_fst]

theorem candidates_eq (groups : List Group) (pairing : Pairing) :
    candidates groups pairing = (scan groups pairing).map Prod.snd := by
  cases pairing with
  | manyToMany =>
      rw [candidates, scan, ← laterPairs_zipIdx, List.map_map]
      rfl
  | oneToOne =>
      rw [candidates, scan, laterPairs_map, List.flatMap_map, List.map_flatMap,
        ← laterPairs_zipIdx groups, List.flatMap_map]
      refine List.flatMap_congr fun pair _ => ?_
      obtain ⟨⟨g, i⟩, ⟨h, j⟩⟩ := pair
      rw [List.map_map]
      exact (crossPairs_zipIdx g.works h.works).symm

theorem mem_scan {pos : List Nat} {a b : Work} :
    (pos, a, b) ∈ scan groups pairing ↔ Candidate groups pairing pos a b := by
  cases pairing with
  | manyToMany =>
      rw [scan, List.mem_map]
      constructor
      · rintro ⟨⟨⟨x, i⟩, ⟨y, j⟩⟩, hmem, heq⟩
        cases heq
        obtain ⟨hx, hy, hlt⟩ := (mem_laterPairs (pairwise_zipIdx _)).mp hmem
        exact .manyToMany hlt (List.mk_mem_zipIdx_iff_getElem?.mp hx)
          (List.mk_mem_zipIdx_iff_getElem?.mp hy)
      · intro hcandidate
        cases hcandidate with
        | manyToMany order first second =>
            exact ⟨((a, _), (b, _)), (mem_laterPairs (pairwise_zipIdx _)).mpr
              ⟨List.mk_mem_zipIdx_iff_getElem?.mpr first,
                List.mk_mem_zipIdx_iff_getElem?.mpr second, order⟩, rfl⟩
  | oneToOne =>
      rw [scan, List.mem_flatMap]
      constructor
      · rintro ⟨⟨⟨g, i⟩, ⟨h, j⟩⟩, hmem, hin⟩
        obtain ⟨⟨⟨x, k⟩, ⟨y, l⟩⟩, hcross, heq⟩ := List.mem_map.mp hin
        cases heq
        obtain ⟨hg, hh, hlt⟩ := (mem_laterPairs (pairwise_zipIdx _)).mp hmem
        obtain ⟨hx, hy⟩ := mem_crossPairs.mp hcross
        exact .oneToOne hlt (List.mk_mem_zipIdx_iff_getElem?.mp hg)
          (List.mk_mem_zipIdx_iff_getElem?.mp hh) (List.mk_mem_zipIdx_iff_getElem?.mp hx)
          (List.mk_mem_zipIdx_iff_getElem?.mp hy)
      · intro hcandidate
        cases hcandidate with
        | oneToOne order group other first second =>
            have hgroups := (mem_laterPairs (pairwise_zipIdx groups)).mpr
              ⟨List.mk_mem_zipIdx_iff_getElem?.mpr group,
                List.mk_mem_zipIdx_iff_getElem?.mpr other, order⟩
            have hworks := mem_crossPairs.mpr ⟨List.mk_mem_zipIdx_iff_getElem?.mpr first,
              List.mk_mem_zipIdx_iff_getElem?.mpr second⟩
            exact ⟨_, hgroups, List.mem_map.mpr ⟨_, hworks, rfl⟩⟩

theorem pairwise_scan (groups : List Group) (pairing : Pairing) :
    (scan groups pairing).Pairwise (Prod.fst · < Prod.fst ·) := by
  cases pairing with
  | manyToMany =>
      rw [scan, List.pairwise_map]
      exact pairwise_laterPairs (pairwise_zipIdx _)
  | oneToOne =>
      rw [scan, List.pairwise_flatMap]
      refine ⟨fun pair _ => ?_, (pairwise_laterPairs (pairwise_zipIdx _)).imp fun hlt x hx y hy => ?_⟩
      · rw [List.pairwise_map]
        refine (pairwise_crossPairs (pairwise_zipIdx _) (pairwise_zipIdx _)).imp fun hlt => ?_
        simpa [List.cons_lt_cons_iff] using hlt
      · obtain ⟨_, -, rfl⟩ := List.mem_map.mp hx
        obtain ⟨_, -, rfl⟩ := List.mem_map.mp hy
        simp only [List.cons_lt_cons_iff, List.not_lt_nil, and_false, or_false] at hlt ⊢
        tauto

theorem sum_map_eq_sum_range (g : Nat → Nat) (sizes : List Nat) :
    (sizes.map g).sum = ∑ i ∈ Finset.range sizes.length, g (sizes.getD i 0) := by
  induction sizes with
  | nil => rfl
  | cons n rest ih =>
      rw [List.map_cons, List.sum_cons, ih, List.length_cons, Finset.sum_range_succ', add_comm]
      rfl

/-- The products of the pairs of a list of sizes, added up over their positions. -/
theorem sum_laterPairs (sizes : List Nat) :
    ((laterPairs sizes).map fun (m, n) => m * n).sum =
      ∑ j ∈ Finset.range sizes.length, ∑ i ∈ Finset.range j, sizes.getD i 0 * sizes.getD j 0 := by
  induction sizes with
  | nil => rfl
  | cons m rest ih =>
      have hfirst := sum_map_eq_sum_range (m * ·) rest
      rw [laterPairs, List.map_append, List.sum_append, ih, List.map_map, List.length_cons,
        Finset.sum_range_succ']
      simp only [Finset.sum_range_succ', List.getD_cons_zero, List.getD_cons_succ,
        Finset.range_zero, Finset.sum_empty, add_zero, Finset.sum_add_distrib]
      rw [← hfirst, add_comm]
      rfl

theorem length_candidates (groups : List Group) (pairing : Pairing) :
    (candidates groups pairing).length = candidateCount groups pairing := by
  cases pairing with
  | manyToMany => exact length_laterPairs _
  | oneToOne =>
      have hsizes := sum_laterPairs (groups.map (·.works.length))
      rw [List.length_map] at hsizes
      rw [candidates, candidateCount, ← hsizes, List.length_flatMap, laterPairs_map, laterPairs_map,
        List.map_map, List.map_map]
      refine congrArg List.sum (List.map_congr_left fun pair _ => ?_)
      exact length_crossPairs _ _

/-! ### Looking at candidates -/

/-- What a draft has made of the candidates looked at so far. -/
structure Draft.Covers (d : Draft) (looked : List (Work × Work)) : Prop where
  seen : ∀ key, d.seen.contains key = true → ∃ job ∈ d.plan.jobs, job.key = key
  /-- Jobs are made from the first candidate for their pair. -/
  first : ∀ job ∈ d.plan.jobs, ∃ before a b after, looked = before ++ (a, b) :: after ∧
    Work.inOrder a b = (job.first, job.second) ∧
    ∀ c ∈ before, Path.pair c.1.path c.2.path ≠ job.pair
  complete : ∀ c ∈ looked, ¬ c.1.path.same c.2.path = true →
    d.plan.Holds c.1.path c.2.path
  count : d.plan.jobs.size + d.plan.skippedSelf + d.plan.skippedDuplicate = looked.length

theorem Draft.covers_empty : Draft.empty.Covers [] :=
  ⟨by simp [empty], by simp [empty, Plan.empty], by simp, rfl⟩

/-- A candidate that is left out, for a reason that makes no difference to the jobs. -/
theorem Draft.Covers.skip {d d' : Draft} {looked : List (Work × Work)} (h : d.Covers looked)
    {c : Work × Work} (hjobs : d'.plan.jobs = d.plan.jobs) (hseen : d'.seen = d.seen)
    (hheld : ¬ c.1.path.same c.2.path = true → d.plan.Holds c.1.path c.2.path)
    (hcount : d'.plan.skippedSelf + d'.plan.skippedDuplicate =
      d.plan.skippedSelf + d.plan.skippedDuplicate + 1) : d'.Covers (looked ++ [c]) := by
  refine ⟨?_, fun job hjob => ?_, fun c' hc' hne => ?_, ?_⟩
  · rw [hseen, hjobs]
    exact h.seen
  · rw [hjobs] at hjob
    obtain ⟨before, a, b, after, rfl, hwork, hfirst⟩ := h.first job hjob
    exact ⟨before, a, b, after ++ [c], by simp, hwork, hfirst⟩
  · rw [Holds, hjobs]
    rcases List.mem_append.mp hc' with hc' | hc'
    · exact h.complete c' hc' hne
    · obtain rfl := List.mem_singleton.mp hc'
      exact hheld hne
  · rw [List.length_append, ← h.count, hjobs]
    simp only [List.length_singleton]
    omega

/-- The works of a job are in order, so its key is determined by its pair. -/
theorem key_eq_of_pair_eq {p q r s : Path} (hpq : p.before q = true) (hrs : r.before s = true)
    (h : Path.pair p q = Path.pair r s) : Path.pairKey p q = Path.pairKey r s := by
  simp only [Path.before, decide_eq_true_eq] at hpq hrs
  exact Path.eq_of_mk_eq (lt_asymm hpq) (lt_asymm hrs) h

/-- A candidate for a pair that has left no key is the first for its pair, and makes a job. -/
theorem Draft.Covers.addPair {d : Draft} {looked : List (Work × Work)} (htidy : d.Tidy)
    (h : d.Covers looked) {a b first second : Work} (hworks : Work.inOrder a b = (first, second))
    (hpair : Path.pair first.path second.path = Path.pair a.path b.path)
    (hbefore : first.path.before second.path = true)
    (hnew : ¬ d.seen.contains (Path.pairKey first.path second.path) = true) :
    (d.addPair first second).Covers (looked ++ [(a, b)]) := by
  refine ⟨fun key hkey => ?_, fun job hjob => ?_, fun c hc hne => ?_, ?_⟩
  · rw [Draft.addPair, Std.HashSet.contains_insert, Bool.or_eq_true, beq_iff_eq] at hkey
    rcases hkey with rfl | hkey
    · exact ⟨_, Array.mem_push_self, rfl⟩
    · obtain ⟨job, hjob, hkey⟩ := h.seen key hkey
      exact ⟨job, Array.mem_push_of_mem _ hjob, hkey⟩
  · rcases Array.mem_push.mp hjob with hjob | rfl
    · obtain ⟨before, x, y, after, rfl, hwork, hfirst⟩ := h.first job hjob
      exact ⟨before, x, y, after ++ [(a, b)], by simp, hwork, hfirst⟩
    · refine ⟨looked, a, b, [], rfl, hworks, fun c hc heq => hnew ?_⟩
      -- A candidate for this pair would have left its key behind.
      have hne : ¬ c.1.path.same c.2.path = true := by
        rw [Path.same_iff_isDiag, heq, Job.pair, ← Path.same_iff_isDiag]
        simp [Path.not_same_of_before hbefore]
      obtain ⟨job, hjob, hheld⟩ := h.complete c hc hne
      have hkey := key_eq_of_pair_eq (htidy.plan.ordered job hjob) hbefore (hheld.trans heq)
      rw [← hkey]
      exact htidy.seen job hjob
  · rcases List.mem_append.mp hc with hc | hc
    · obtain ⟨job, hjob, hheld⟩ := h.complete c hc hne
      exact ⟨job, Array.mem_push_of_mem _ hjob, hheld⟩
    · obtain rfl := List.mem_singleton.mp hc
      exact ⟨_, Array.mem_push_self, hpair⟩
  · rw [Draft.addPair, Array.size_push, List.length_append, ← h.count]
    simp only [List.length_singleton]
    omega

theorem Draft.Covers.consider {d : Draft} {looked : List (Work × Work)} (htidy : d.Tidy)
    (h : d.Covers looked) (a b : Work) : (d.consider a b).Covers (looked ++ [(a, b)]) := by
  have hordered := Path.not_before_inOrder Work.path a b
  have hpair := Path.pair_inOrder Work.path a b
  have hworks : Work.inOrder a b = Path.inOrder Work.path a b := rfl
  unfold Draft.consider
  rw [hworks]
  generalize Path.inOrder Work.path a b = pair at *
  obtain ⟨first, second⟩ := pair
  dsimp only at hordered hpair ⊢
  split
  next hsame =>
    refine h.skip rfl rfl (fun hne => absurd ?_ hne) (by dsimp only; omega)
    rwa [Path.same_iff_isDiag, ← hpair, ← Path.same_iff_isDiag]
  next hsame =>
    have hbefore := Path.before_of_not_same hsame hordered
    split
    next hold =>
      refine h.skip rfl rfl (fun _ => ?_) (by dsimp only; omega)
      obtain ⟨job, hjob, hkey⟩ := h.seen _ hold
      refine ⟨job, hjob, ?_⟩
      obtain ⟨hfirst, hsecond⟩ := Prod.mk.inj hkey
      rw [← hpair, Job.pair, Path.pair, Path.pair, hfirst, hsecond]
    next hnew => exact h.addPair htidy hworks hpair hbefore hnew

theorem Draft.covers_foldl (cs : List (Work × Work)) :
    (cs.foldl (fun d (c : Work × Work) => d.consider c.1 c.2) Draft.empty).Tidy ∧
      (cs.foldl (fun d (c : Work × Work) => d.consider c.1 c.2) Draft.empty).Covers cs := by
  induction cs using List.reverseRecOn with
  | nil => exact ⟨Draft.tidy_empty, Draft.covers_empty⟩
  | append_singleton cs c ih =>
      obtain ⟨htidy, hcovers⟩ := ih
      rw [List.foldl_append, List.foldl_cons, List.foldl_nil]
      generalize cs.foldl _ Draft.empty = d at *
      exact ⟨htidy.consider c.1 c.2, hcovers.consider htidy c.1 c.2⟩

/-- What a plan has made of all candidates. -/
theorem covers_ofGroups (groups : List Group) (pairing : Pairing) :
    ∃ d : Draft, d.plan = ofGroups groups pairing ∧ d.Covers (candidates groups pairing) :=
  ⟨_, rfl, (Draft.covers_foldl (candidates groups pairing)).2⟩

/-! ### Pairs that are brought together -/

theorem exists_candidate_iff {p q : Path} :
    (∃ pos a b, Candidate groups pairing pos a b ∧ Path.pair a.path b.path = Path.pair p q) ↔
      Paired groups pairing p q := by
  have hsame {x : Work} {r : Path} : x.path.same r = true ↔ x.path.key = r.key := beq_iff_eq
  constructor
  · rintro ⟨pos, a, b, hcandidate, hpair⟩
    cases hcandidate with
    | @manyToMany i j _ _ order first second =>
        rcases Sym2.eq_iff.mp hpair with ⟨ha, hb⟩ | ⟨ha, hb⟩
        · exact ⟨i, j, a, b, order.ne, first, second, hsame.mpr ha, hsame.mpr hb⟩
        · exact ⟨j, i, b, a, order.ne', second, first, hsame.mpr hb, hsame.mpr ha⟩
    | @oneToOne i j k l g h _ _ order group other first second =>
        have ha := List.mem_of_getElem? first
        have hb := List.mem_of_getElem? second
        rcases Sym2.eq_iff.mp hpair with ⟨hp, hq⟩ | ⟨hq, hp⟩
        · exact ⟨i, j, g, h, order.ne, group, other, ⟨a, ha, hsame.mpr hp⟩, b, hb, hsame.mpr hq⟩
        · exact ⟨j, i, h, g, order.ne', other, group, ⟨b, hb, hsame.mpr hp⟩, a, ha, hsame.mpr hq⟩
  · intro hpaired
    cases pairing with
    | manyToMany =>
        obtain ⟨i, j, a, b, hij, hi, hj, ha, hb⟩ := hpaired
        rw [hsame] at ha hb
        rcases lt_or_gt_of_ne hij with hlt | hlt
        · exact ⟨_, a, b, .manyToMany hlt hi hj, by rw [Path.pair, ha, hb, Path.pair]⟩
        · exact ⟨_, b, a, .manyToMany hlt hj hi, by rw [Path.pair, ha, hb, Sym2.eq_swap, Path.pair]⟩
    | oneToOne =>
        obtain ⟨i, j, g, h, hij, hi, hj, ⟨a, ha, hap⟩, b, hb, hbq⟩ := hpaired
        obtain ⟨k, hk⟩ := List.mem_iff_getElem?.mp ha
        obtain ⟨l, hl⟩ := List.mem_iff_getElem?.mp hb
        rw [hsame] at hap hbq
        rcases lt_or_gt_of_ne hij with hlt | hlt
        · exact ⟨_, a, b, .oneToOne hlt hi hj hk hl, by rw [Path.pair, hap, hbq, Path.pair]⟩
        · exact ⟨_, b, a, .oneToOne hlt hj hi hl hk,
            by rw [Path.pair, hap, hbq, Sym2.eq_swap, Path.pair]⟩

theorem paired_manyToMany_iff {p q : Path} (hne : p.same q = false) :
    Paired groups .manyToMany p q ↔ (∃ g ∈ groups, g.Has p) ∧ ∃ g ∈ groups, g.Has q := by
  have hall {r : Path} : (∃ g ∈ groups, g.Has r) ↔
      ∃ (i : Nat) (w : Work), (groups.flatMap Group.works)[i]? = some w ∧
        w.path.same r = true := by
    simp only [← List.mem_iff_getElem?, exists_comm (α := Nat), exists_and_right]
    simp only [List.mem_flatMap, Group.Has]
    grind
  rw [hall, hall]
  constructor
  · rintro ⟨i, j, a, b, -, hi, hj, ha, hb⟩
    exact ⟨⟨i, a, hi, ha⟩, j, b, hj, hb⟩
  · rintro ⟨⟨i, a, hi, ha⟩, j, b, hj, hb⟩
    refine ⟨i, j, a, b, ?_, hi, hj, ha, hb⟩
    rintro rfl
    obtain rfl := Option.some.inj (hi.symm.trans hj)
    simp only [Path.same, beq_iff_eq, beq_eq_false_iff_ne] at ha hb hne
    exact hne (ha.symm.trans hb)

/-- Two groups at different places have the two paths, one each. -/
theorem paired_oneToOne_iff {p q : Path} : Paired groups .oneToOne p q ↔
    ¬ groups.Pairwise fun g h => ¬ (g.Has p ∧ h.Has q ∨ h.Has p ∧ g.Has q) := by
  rw [List.pairwise_iff_getElem]
  push Not
  constructor
  · rintro ⟨i, j, g, h, hij, hi, hj, hp, hq⟩
    obtain ⟨hi', rfl⟩ := List.getElem?_eq_some_iff.mp hi
    obtain ⟨hj', rfl⟩ := List.getElem?_eq_some_iff.mp hj
    rcases lt_or_gt_of_ne hij with hlt | hlt
    · exact ⟨i, j, hi', hj', hlt, .inl ⟨hp, hq⟩⟩
    · exact ⟨j, i, hj', hi', hlt, .inr ⟨hp, hq⟩⟩
  · rintro ⟨i, j, hi, hj, hlt, ⟨hp, hq⟩ | ⟨hp, hq⟩⟩
    · exact ⟨i, j, _, _, hlt.ne, List.getElem?_eq_getElem hi, List.getElem?_eq_getElem hj, hp, hq⟩
    · exact ⟨j, i, _, _, hlt.ne', List.getElem?_eq_getElem hj, List.getElem?_eq_getElem hi, hp, hq⟩

theorem Group.has_congr {g h : Group} (hperm : g.works.Perm h.works) (p : Path) :
    g.Has p ↔ h.Has p := by
  simp only [Group.Has, hperm.mem_iff]

/-- Which pairs are brought together does not depend on the order of groups and works. -/
theorem Shuffled.paired_iff {others : List Group} (h : Shuffled groups others) {p q : Path}
    (hne : p.same q = false) : Paired groups pairing p q ↔ Paired others pairing p q := by
  obtain ⟨between, hperm, hworks⟩ := h
  -- Groups in the same place have the same paths.
  have hsame : between.map (fun g => (g.Has p, g.Has q)) =
      others.map fun g => (g.Has p, g.Has q) := by
    rw [← List.forall₂_eq_eq_eq, List.forall₂_map_left_iff, List.forall₂_map_right_iff]
    refine hworks.imp fun g h hgh => ?_
    rw [propext (Group.has_congr hgh p), propext (Group.has_congr hgh q)]
  cases pairing with
  | manyToMany =>
      have hmem (φ : Prop × Prop → Prop) : (∃ g ∈ groups, φ (g.Has p, g.Has q)) ↔
          ∃ g ∈ others, φ (g.Has p, g.Has q) := by
        have hmap := congrArg (fun l => ∃ x ∈ l, φ x) hsame
        simp only [List.mem_map, exists_exists_and_eq_and, eq_iff_iff] at hmap
        simp only [hperm.mem_iff, hmap]
      rw [paired_manyToMany_iff hne, paired_manyToMany_iff hne, hmem Prod.fst, hmem Prod.snd]
  | oneToOne =>
      have hmap := congrArg
        (List.Pairwise fun x y : Prop × Prop => ¬ (x.1 ∧ y.2 ∨ y.1 ∧ x.2)) hsame
      rw [List.pairwise_map, List.pairwise_map] at hmap
      rw [paired_oneToOne_iff, paired_oneToOne_iff, hperm.pairwise_iff, hmap]
      intro g h hnot hyes
      exact hnot hyes.symm

/-- The jobs of a plan are the pairs that the batch brings together. -/
theorem holds_ofGroups_iff {p q : Path} (hne : p.same q = false) :
    (ofGroups groups pairing).Holds p q ↔ Paired groups pairing p q := by
  obtain ⟨d, hplan, hcovers⟩ := covers_ofGroups groups pairing
  rw [← exists_candidate_iff, ← hplan]
  constructor
  · rintro ⟨job, hjob, hpair⟩
    obtain ⟨before, a, b, after, hsplit, hwork, -⟩ := hcovers.first job hjob
    have hmem : (a, b) ∈ candidates groups pairing := by simp [hsplit]
    rw [candidates_eq] at hmem
    obtain ⟨⟨pos, c⟩, hscan, rfl⟩ := List.mem_map.mp hmem
    have hpaths := Path.pair_inOrder Work.path a b
    rw [show Path.inOrder Work.path a b = (job.first, job.second) from hwork] at hpaths
    exact ⟨pos, a, b, mem_scan.mp hscan, hpaths.symm.trans hpair⟩
  · rintro ⟨pos, a, b, hcandidate, hpair⟩
    have hmem : (a, b) ∈ candidates groups pairing := by
      rw [candidates_eq]
      exact List.mem_map.mpr ⟨_, mem_scan.mpr hcandidate, rfl⟩
    rw [Holds, ← hpair]
    refine hcovers.complete (a, b) hmem fun hsame => ?_
    simp only [Path.same, beq_iff_eq, beq_eq_false_iff_ne] at hsame hne
    rw [Path.pair, hsame] at hpair
    rcases Sym2.eq_iff.mp hpair with ⟨hp, hq⟩ | ⟨hq, hp⟩ <;> exact hne (hp.symm.trans hq)

/-- No job is for two works at the same path. -/
theorem Tidy.not_holds_self {plan : Plan} (h : plan.Tidy) {p q : Path} (hsame : p.same q = true) :
    ¬ plan.Holds p q := by
  rintro ⟨job, hjob, hpair⟩
  have hne := Path.not_same_of_before (h.ordered job hjob)
  simp only [Path.same, beq_iff_eq, beq_eq_false_iff_ne] at hsame hne
  rw [Path.pair, hsame] at hpair
  rcases Sym2.eq_iff.mp hpair with ⟨hfirst, hsecond⟩ | ⟨hfirst, hsecond⟩ <;>
    exact hne (hfirst.trans hsecond.symm)

theorem Tidy.nodup_pairs {plan : Plan} (h : plan.Tidy) : (plan.jobs.toList.map Job.pair).Nodup := by
  have hkeys := List.pairwise_map.mp h.distinct
  rw [List.Nodup, List.pairwise_map]
  refine hkeys.imp_of_mem fun hjob hother hne heq => hne ?_
  exact key_eq_of_pair_eq (h.ordered _ (Array.mem_toList_iff.mp hjob))
    (h.ordered _ (Array.mem_toList_iff.mp hother)) heq

theorem Candidate.mem {pos : List Nat} {a b : Work} (h : Candidate groups pairing pos a b) :
    a ∈ groups.flatMap Group.works ∧ b ∈ groups.flatMap Group.works := by
  cases h with
  | manyToMany order first second =>
      exact ⟨List.mem_of_getElem? first, List.mem_of_getElem? second⟩
  | oneToOne order group other first second =>
      exact ⟨List.mem_flatMap.mpr ⟨_, List.mem_of_getElem? group, List.mem_of_getElem? first⟩,
        List.mem_flatMap.mpr ⟨_, List.mem_of_getElem? other, List.mem_of_getElem? second⟩⟩

theorem exists_first_candidate {job : Job} (hjob : job ∈ (ofGroups groups pairing).jobs) :
    ∃ pos a b, Candidate groups pairing pos a b ∧ Work.inOrder a b = (job.first, job.second) ∧
      ∀ pos' a' b', Candidate groups pairing pos' a' b' →
        Path.pair a'.path b'.path = job.pair → pos ≤ pos' := by
  obtain ⟨d, hplan, hcovers⟩ := covers_ofGroups groups pairing
  rw [← hplan] at hjob
  obtain ⟨before, a, b, after, hsplit, hwork, hfirst⟩ := hcovers.first job hjob
  rw [candidates_eq, List.map_eq_append_iff] at hsplit
  obtain ⟨scanned, rest, hscan, rfl, hrest⟩ := hsplit
  obtain ⟨⟨pos, _⟩, later, rfl, rfl, rfl⟩ := List.map_eq_cons_iff.mp hrest
  have hmem : (pos, a, b) ∈ scan groups pairing := by simp [hscan]
  refine ⟨pos, a, b, mem_scan.mp hmem, hwork, fun pos' a' b' hcandidate hpair => ?_⟩
  have hmem' := mem_scan.mpr hcandidate
  have hsorted := pairwise_scan groups pairing
  rw [hscan, List.pairwise_append, List.pairwise_cons] at hsorted
  rw [hscan, List.mem_append, List.mem_cons] at hmem'
  rcases hmem' with hearlier | heq | hlater
  · exact absurd hpair (hfirst (a', b') (List.mem_map_of_mem hearlier))
  · cases heq
    exact le_rfl
  · exact (hsorted.2.1.1 _ hlater).le

/-- The works of a job are works of the groups. -/
theorem mem_works_of_job {job : Job} (hjob : job ∈ (ofGroups groups pairing).jobs) :
    job.first ∈ groups.flatMap Group.works ∧ job.second ∈ groups.flatMap Group.works := by
  obtain ⟨pos, a, b, hcandidate, horder, -⟩ := exists_first_candidate hjob
  obtain ⟨ha, hb⟩ := hcandidate.mem
  unfold Work.inOrder Path.inOrder at horder
  split at horder
  · obtain ⟨rfl, rfl⟩ := Prod.mk.inj horder
    exact ⟨hb, ha⟩
  · obtain ⟨rfl, rfl⟩ := Prod.mk.inj horder
    exact ⟨ha, hb⟩

/-- **Plans are exact.** Jobs are numbered in order, have their works in the strict order of their
paths, and no two of them are for the same two paths. Two different paths have a job just when the
batch brings them together, and the job has the works of the first candidate that does. Every
candidate is a job or counted as left out, and the order of groups and works does not matter. -/
theorem ofGroups_exact (groups : List Group) (pairing : Pairing) :
    let plan := ofGroups groups pairing
    (∀ (i : Nat) (job : Job), plan.jobs[i]? = some job → job.id = i) ∧
      (∀ job ∈ plan.jobs, job.first.path.before job.second.path = true) ∧
      (plan.jobs.toList.map Job.pair).Nodup ∧
      (∀ p q : Path, p.same q = false → (plan.Holds p q ↔ Paired groups pairing p q)) ∧
      (∀ job ∈ plan.jobs, ∃ pos a b, Candidate groups pairing pos a b ∧
        Work.inOrder a b = (job.first, job.second) ∧
        ∀ pos' a' b', Candidate groups pairing pos' a' b' →
          Path.pair a'.path b'.path = job.pair → pos ≤ pos') ∧
      plan.jobs.size + plan.skippedSelf + plan.skippedDuplicate = candidateCount groups pairing ∧
      ∀ others, Shuffled groups others →
        ∀ p q : Path, (ofGroups others pairing).Holds p q ↔ plan.Holds p q := by
  have htidy := tidy_ofGroups groups pairing
  obtain ⟨d, hplan, hcovers⟩ := covers_ofGroups groups pairing
  refine ⟨htidy.numbered, htidy.ordered, htidy.nodup_pairs, fun p q => holds_ofGroups_iff,
    fun job => exists_first_candidate, ?_, fun others hothers p q => ?_⟩
  · rw [← hplan, hcovers.count, length_candidates]
  · cases hsame : p.same q with
    | true =>
        exact iff_of_false ((tidy_ofGroups others pairing).not_holds_self hsame)
          (htidy.not_holds_self hsame)
    | false =>
        rw [holds_ofGroups_iff hsame, holds_ofGroups_iff hsame, hothers.paired_iff hsame]

end Plan

end Batch

end Likeness
