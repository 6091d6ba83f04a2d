import Mathlib.Data.List.Nodup
import Likeness.Batch.Plan
import Likeness.Proofs.Store.Pairs

/-!
# Likeness.Proofs.Batch.Plan

What the jobs of a plan are like, whatever the groups and the pairing.

Every job has its position for an id and its works in the strict order of their paths, and no two
jobs are for the same pair of paths (`Plan.tidy_ofGroups`). Since the works are in order, that is
also true of pairs in which the order does not count (`Plan.Tidy.eq_of_pairKey_eq`).
-/

namespace Likeness

namespace Batch

def Job.key (job : Job) : Path.PairKey := Path.pairKey job.first.path job.second.path

/-- What every plan made from groups meets. -/
structure Plan.Tidy (p : Plan) : Prop where
  numbered : ∀ (i : Nat) (job : Job), p.jobs[i]? = some job → job.id = i
  ordered : ∀ job ∈ p.jobs, job.first.path.before job.second.path = true
  distinct : (p.jobs.toList.map Job.key).Nodup

namespace Plan

/-- A draft is tidy and knows the keys of its jobs. -/
structure Draft.Tidy (d : Draft) : Prop where
  plan : d.plan.Tidy
  seen : ∀ job ∈ d.plan.jobs, d.seen.contains job.key = true

theorem Draft.tidy_empty : Draft.empty.Tidy :=
  ⟨⟨by simp [empty, Plan.empty], by simp [empty, Plan.empty], List.nodup_nil⟩,
    by simp [empty, Plan.empty]⟩

theorem Draft.Tidy.addPair {d : Draft} (h : d.Tidy) {first second : Work}
    (hordered : first.path.before second.path = true)
    (hnew : ¬ d.seen.contains (Path.pairKey first.path second.path) = true) :
    (d.addPair first second).Tidy := by
  obtain ⟨⟨numbered, ordered, distinct⟩, seen⟩ := h
  refine ⟨⟨fun i job hjob => ?_, fun job hjob => ?_, ?_⟩, fun job hjob => ?_⟩
  · rw [Draft.addPair, Array.getElem?_push] at hjob
    split at hjob
    next hi =>
      obtain rfl := Option.some.inj hjob
      exact hi.symm
    next => exact numbered i job hjob
  · rcases Array.mem_push.mp hjob with hjob | rfl
    · exact ordered job hjob
    · exact hordered
  · rw [Draft.addPair, Array.toList_push, List.map_append, List.nodup_append]
    refine ⟨distinct, List.nodup_singleton _, fun key hkey _ hlast heq => hnew ?_⟩
    obtain ⟨job, hjob, rfl⟩ := List.mem_map.mp hkey
    obtain rfl := List.mem_singleton.mp hlast
    have hseen := seen job (Array.mem_toList_iff.mp hjob)
    rw [heq] at hseen
    exact hseen
  · rw [Draft.addPair, Std.HashSet.contains_insert]
    rcases Array.mem_push.mp hjob with hjob | rfl
    · rw [seen job hjob, Bool.or_true]
    · rw [Job.key, beq_self_eq_true, Bool.true_or]

theorem Draft.Tidy.consider {d : Draft} (h : d.Tidy) (a b : Work) : (d.consider a b).Tidy := by
  have hordered := Path.not_before_inOrder Work.path a b
  unfold Draft.consider Work.inOrder
  generalize Path.inOrder Work.path a b = pair at *
  obtain ⟨first, second⟩ := pair
  dsimp only at hordered ⊢
  split
  next => exact ⟨⟨h.plan.numbered, h.plan.ordered, h.plan.distinct⟩, h.seen⟩
  next hsame =>
    split
    next => exact ⟨⟨h.plan.numbered, h.plan.ordered, h.plan.distinct⟩, h.seen⟩
    next hnew => exact h.addPair (Path.before_of_not_same hsame hordered) hnew

/-- Plans are tidy, whatever the groups and the pairing. -/
theorem tidy_ofGroups (groups : List Group) (pairing : Pairing) :
    (ofGroups groups pairing).Tidy := by
  refine Draft.Tidy.plan (List.foldlRecOn _ _ Draft.tidy_empty ?_)
  rintro d hd ⟨a, b⟩ -
  exact hd.consider a b

/-- Two works in one group, in order, make one job. -/
theorem ofGroups_pair {a b : Work} (name : String) (h : a.path.before b.path = true) :
    ofGroups [⟨name, [a, b]⟩] .manyToMany = ⟨#[⟨0, a, b⟩], 0, 0⟩ := by
  have hbefore : b.path.before a.path = false := Path.before_asymm h
  have hsame : a.path.same b.path = false := Path.not_same_of_before h
  simp [ofGroups, candidates, laterPairs, Draft.consider, Draft.addPair, Draft.empty, Plan.empty,
    Work.inOrder, Path.inOrder, hbefore, hsame]

/-- A work against two others, in order, makes two jobs. -/
theorem ofGroups_oneToOne {a b c : Work} (name name' : String) (hb : a.path.before b.path = true)
    (hc : a.path.before c.path = true) (hne : b.path.key ≠ c.path.key) :
    ofGroups [⟨name, [a]⟩, ⟨name', [b, c]⟩] .oneToOne =
      ⟨#[⟨0, a, b⟩, ⟨1, a, c⟩], 0, 0⟩ := by
  have hb' : b.path.before a.path = false := Path.before_asymm hb
  have hc' : c.path.before a.path = false := Path.before_asymm hc
  have hbsame : a.path.same b.path = false := Path.not_same_of_before hb
  have hcsame : a.path.same c.path = false := Path.not_same_of_before hc
  simp [ofGroups, candidates, laterPairs, crossPairs, Draft.consider, Draft.addPair, Draft.empty,
    Plan.empty, Work.inOrder, Path.inOrder, Path.pairKey, hb', hc', hbsame, hcsame, hne]

namespace Tidy

variable {p : Plan}

theorem getElem?_id (h : p.Tidy) {job : Job} (hjob : job ∈ p.jobs) : p.jobs[job.id]? = some job := by
  obtain ⟨i, hi⟩ := Array.mem_iff_getElem?.mp hjob
  rw [h.numbered i job hi]
  exact hi

theorem eq_of_id_eq (h : p.Tidy) {job other : Job} (hjob : job ∈ p.jobs) (hother : other ∈ p.jobs)
    (hid : job.id = other.id) : job = other := by
  have hget := h.getElem?_id hjob
  rw [hid, h.getElem?_id hother] at hget
  exact (Option.some.inj hget).symm

/-- The works of a job are in order, so their key is the one that does not depend on the order. -/
theorem pairKey_identities (h : p.Tidy) {job : Job} (hjob : job ∈ p.jobs) :
    Identity.pairKey job.first.identity job.second.identity = job.key :=
  Identity.pairKey_of_before (h.ordered job hjob)

/-- No two jobs are for the same pair of paths, in whatever order. -/
theorem eq_of_pairKey_eq (h : p.Tidy) {job other : Job} (hjob : job ∈ p.jobs)
    (hother : other ∈ p.jobs)
    (heq : Identity.pairKey job.first.identity job.second.identity =
      Identity.pairKey other.first.identity other.second.identity) : job = other := by
  rw [h.pairKey_identities hjob, h.pairKey_identities hother] at heq
  exact List.inj_on_of_nodup_map h.distinct (Array.mem_toList_iff.mpr hjob)
    (Array.mem_toList_iff.mpr hother) heq

end Tidy

end Plan

end Batch

end Likeness
