import Likeness.Proofs.Batch.Status
import Likeness.Proofs.Batch.Transparency

/-!
# Likeness.Proofs.Batch.Threshold

What a batch finds when its threshold is lowered.

The threshold counts twice: works whose quick measures stay below it are not compared any further, and
an outcome is found if its outlines are more alike than it says. Lowering it opens the gate and moves the
mark of the outlines; ignoring it opens the gate alone. Either way nothing is lost
(`retains_of_lowered`).
-/

namespace Likeness

/-! ### Settings -/

/-- Settings that differ in nothing but a lower threshold, or in ignoring it. -/
inductive CompareSettings.Lowered (s : CompareSettings) : CompareSettings → Prop where
  | threshold {t : UInt8} (h : t ≤ s.threshold) : Lowered s { s with threshold := t }
  | ignored : Lowered s { s with ignoreThreshold := true }

namespace CompareSettings.Lowered

variable {s lower : CompareSettings}

theorem threshold_le (h : s.Lowered lower) : lower.threshold ≤ s.threshold := by
  cases h with
  | threshold h => exact h
  | ignored => exact UInt8.le_refl _

theorem accepts (h : s.Lowered lower) : lower.Accepts s := by
  cases h with
  | @threshold t h =>
      refine ⟨⟨rfl, rfl, rfl⟩, ?_⟩
      intro threshold hgate
      unfold gate at hgate ⊢
      split at hgate
      · cases hgate
      · obtain rfl := Option.some.inj hgate
        rename_i hheeded
        exact ⟨s.threshold, if_neg hheeded, h⟩
  | ignored =>
      refine ⟨⟨rfl, rfl, rfl⟩, ?_⟩
      intro threshold hgate
      cases hgate

end CompareSettings.Lowered

/-- What lies above a threshold lies above every lower one. -/
theorem Verdict.exceeds_mono {v : Verdict} {t u : UInt8} (h : t ≤ u) (hexceeds : v.exceeds u = true) :
    v.exceeds t = true := by
  cases v with
  | quick q => cases hexceeds
  | full f =>
      simp only [exceeds, outline?, aboveThreshold] at hexceeds ⊢
      exact Binary64.ofNat_lt_mono (UInt8.le_iff_toNat_le.mp h) hexceeds

namespace Batch

/-! ### Outcomes -/

/-- The outcome of a pair and what becomes of it under a lower threshold. -/
structure Outcome.Retained (threshold lower : UInt8) (x y : Outcome) : Prop where
  paths : x.paths = y.paths
  /-- A full verdict is there again, the same but for its date. -/
  full : ∀ f, x.verdict? = some (.full f) →
    ∃ g, y.verdict? = some (.full g) ∧ (Verdict.full g).Agrees (.full f)
  found : x.status threshold = .similarityFound → y.status lower = .similarityFound

theorem Outcome.retained_of_full {threshold lower : UInt8} {x y : Outcome} (hle : lower ≤ threshold)
    (hpaths : x.paths = y.paths)
    (hfull : ∀ f, x.verdict? = some (.full f) →
      ∃ g, y.verdict? = some (.full g) ∧ (Verdict.full g).Agrees (.full f)) :
    x.Retained threshold lower y := by
  refine ⟨hpaths, hfull, ?_⟩
  intro hfound
  obtain ⟨f, hf, hexceeds⟩ := status_eq_similarityFound.mp hfound
  obtain ⟨g, hg, hagrees⟩ := hfull f hf
  rw [← hagrees.exceeds] at hexceeds
  exact status_eq_similarityFound.mpr ⟨g, hg, Verdict.exceeds_mono hle hexceeds⟩

/-- The batch under other settings for comparing, at other times. -/
def Occasion.under (o : Occasion) (compare : CompareSettings) (clock : Work → Work → Moment) : Occasion :=
  { o with settings := { o.settings with compare }, clock }

variable {o : Occasion} {lower : CompareSettings}

theorem Occasion.plan_under (o : Occasion) (compare : CompareSettings) (clock : Work → Work → Moment) :
    (o.under compare clock).plan = o.plan := rfl

/-- **A pair of works under a lower threshold.** -/
theorem Occasion.retained (h : o.settings.compare.Lowered lower) (clock : Work → Work → Moment)
    (job : Job) : (o.fresh job).Retained o.settings.compare.threshold lower.threshold
      ((o.under lower clock).fresh job) := by
  refine Outcome.retained_of_full h.threshold_le ?_ ?_
  · rw [paths_fresh, paths_fresh]
  · intro f hf
    have hcompared : o.compare job.first job.second = .verdict (.full f) := by
      rw [fresh] at hf
      cases hcomparison : o.compare job.first job.second with
      | verdict v =>
          rw [hcomparison] at hf
          rw [Option.some.inj hf]
      | refused message =>
          rw [hcomparison] at hf
          cases hf
      | crashed message =>
          rw [hcomparison] at hf
          cases hf
    have hagrees := agrees_of_accepts (clock job.first job.second) (.refl job.first)
      (.refl job.second) h.accepts hcompared
    have hunder : (o.under lower clock).fresh job =
        (comparison lower (clock job.first job.second) job.first job.second).outcome job := rfl
    rw [hunder]
    generalize comparison lower (clock job.first job.second) job.first job.second = c at hagrees
    cases hagrees with
    | verdict h =>
        cases h with
        | full first second quick outline => exact ⟨_, rfl, .full first second quick outline⟩

/-! ### Reports -/

/-- The report of a batch without a store that was not cancelled. -/
theorem Occasion.Ended.outcomes_fresh {processors : Nat} {r : Run}
    (h : o.Ended processors .none () r ()) (huncancelled : r.cancelled = false) (threshold : UInt8) :
    (r.report threshold).outcomes = o.plan.jobs.toList.map o.fresh := by
  obtain ⟨outcomes, hreport, hforetold⟩ := h.exists_foretold VerdictStore.separate_none threshold
  rw [huncancelled] at hforetold
  rw [hreport]
  exact Run.outcomes_of_foretold hforetold

/-- A lower threshold loses no mark of similarity. -/
theorem Report.contains_of_retained {xs ys : List Outcome} {threshold lower : UInt8}
    (h : List.Forall₂ (Outcome.Retained threshold lower) xs ys)
    (hfound : (ofOutcomes xs threshold).status.contains .similarityFound = true) :
    (ofOutcomes ys lower).status.contains .similarityFound = true := by
  rw [contains_iff (.inl rfl)] at hfound ⊢
  obtain ⟨x, hx, hstatus⟩ := hfound
  induction h with
  | nil => cases hx
  | @cons x' y' xs ys hretained _ ih =>
      rcases List.mem_cons.mp hx with rfl | hx
      · exact ⟨y', List.mem_cons_self, hretained.found hstatus⟩
      · obtain ⟨y, hy, hfound⟩ := ih hx
        exact ⟨y, List.mem_cons_of_mem _ hy, hfound⟩

/-- **A lower threshold only adds findings.** A batch is run without a store, and again with a lower
threshold or with the threshold ignored, at any time and with any number of processors. Neither run was
cancelled.

The outcomes stand for the same pairs in the same order. A pair with a full verdict has it again, with the
same quick measures and the same likeness of the outlines, and a pair that was found is found again. So
the second run is marked with similarity if the first one is. -/
theorem retains_of_lowered (h : o.settings.compare.Lowered lower) {clock : Work → Work → Moment}
    {processors processors' : Nat} {r r' : Run} (hrun : o.Ended processors .none () r ())
    (hlower : (o.under lower clock).Ended processors' .none () r' ())
    (huncancelled : r.cancelled = false) (huncancelled' : r'.cancelled = false) :
    List.Forall₂ (Outcome.Retained o.settings.compare.threshold lower.threshold)
        (r.report o.settings.compare.threshold).outcomes (r'.report lower.threshold).outcomes ∧
      ((r.report o.settings.compare.threshold).status.contains .similarityFound = true →
        (r'.report lower.threshold).status.contains .similarityFound = true) := by
  have hretained : List.Forall₂ (Outcome.Retained o.settings.compare.threshold lower.threshold)
      (r.report o.settings.compare.threshold).outcomes (r'.report lower.threshold).outcomes := by
    rw [hrun.outcomes_fresh huncancelled, hlower.outcomes_fresh huncancelled', Occasion.plan_under]
    rw [List.forall₂_map_left_iff, List.forall₂_map_right_iff, List.forall₂_same]
    exact fun job _ => Occasion.retained h clock job
  refine ⟨hretained, ?_⟩
  intro hfound
  rw [Run.status_report] at hfound ⊢
  exact Report.contains_of_retained hretained hfound

/-- The drafts pass at 52 percent and are found; so they are at 50. -/
theorem retains_drafts : ∃ r r' : Run, (passing 52).Lowered (passing 50) ∧
    (Occasion.ofPair draft excerpt (passing 52) ⟨0, 0⟩).Ended 8 .none () r () ∧
    (Occasion.ofPair draft excerpt (passing 50) ⟨86400, 0⟩).Ended 8 .none () r' () ∧
    r.cancelled = false ∧ r'.cancelled = false ∧ (r.report 52).found.length = 1 ∧
    List.Forall₂ (Outcome.Retained 52 50) (r.report 52).outcomes (r'.report 50).outcomes ∧
    (r'.report 50).status.contains .similarityFound = true := by
  have hbefore : draft.path.before excerpt.path = true := by decide +kernel
  have hlowered : (passing 52).Lowered (passing 50) := .threshold (t := 50) (by decide)
  obtain ⟨r, _, h, huncancelled⟩ :=
    Occasion.exists_ended .none () draft excerpt (passing 52) ⟨0, 0⟩
  obtain ⟨r', _, h', huncancelled'⟩ :=
    Occasion.exists_ended .none () draft excerpt (passing 50) ⟨86400, 0⟩
  have hlater : ((Occasion.ofPair draft excerpt (passing 52) ⟨0, 0⟩).under (passing 50)
      fun _ _ => ⟨86400, 0⟩).Ended 8 .none () r' () := h'
  have houtcomes := h.outcomes_ofPair huncancelled VerdictStore.separate_none hbefore 52
  obtain ⟨hretained, hsimilar⟩ :=
    retains_of_lowered hlowered h hlater huncancelled huncancelled'
  refine ⟨r, r', hlowered, h, h', huncancelled, huncancelled', ?_, hretained, hsimilar ?_⟩
  · have hfound : (r.report 52).found = (r.report 52).outcomes.filter (Report.ofOutcomes [] 52).isFound :=
      rfl
    rw [hfound, houtcomes]
    decide +kernel
  · rw [Run.status_report]
    change (Report.ofOutcomes (r.report 52).outcomes 52).status.contains .similarityFound = true
    rw [houtcomes]
    decide +kernel

end Batch

end Likeness
