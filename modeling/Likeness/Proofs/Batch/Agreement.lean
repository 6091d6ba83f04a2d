import Likeness.Proofs.Batch.Results
import Likeness.Proofs.Except
import Likeness.Proofs.Number.Rounding
import Likeness.Proofs.Store.Records

/-!
# Likeness.Proofs.Batch.Agreement

When two comparisons come to the same result.

Results agree if they are the same up to the date and to how the paths of the works are written
(`Outcome.Agrees`). So do the comparisons of works that have the same identities and features
(`agrees_of_alike`), and a full verdict agrees with what is found under other settings that accept it
(`agrees_of_accepts`).
-/

namespace Likeness

/-! ### Works -/

/-- Two works with the same identity and the same features. -/
structure Work.Alike (a b : Work) : Prop where
  identity : a.identity.same b.identity = true
  features : { b with identity := a.identity } = a

namespace Work.Alike

variable {a a' b b' : Work}

theorem refl (a : Work) : a.Alike a := ⟨Identity.same_refl _, rfl⟩

theorem outline (h : a.Alike a') : a.outline = a'.outline := by
  rw [← h.features]

theorem heads (h : a.Alike a') : a.heads = a'.heads := by
  rw [← h.features]

theorem modified (h : a.Alike a') : a.modified = a'.modified := by
  rw [← h.features]

theorem quickCompare_eq (ha : a.Alike a') (hb : b.Alike b') (windowLength : Nat) (weights : Weights) :
    quickCompare a b windowLength weights = quickCompare a' b' windowLength weights := by
  rw [← ha.features, ← hb.features]
  rfl

theorem inOrder (ha : a.Alike a') (hb : b.Alike b') :
    (Work.inOrder a b).1.Alike (Work.inOrder a' b').1 ∧
      (Work.inOrder a b).2.Alike (Work.inOrder a' b').2 := by
  have hbefore : b.path.before a.path = b'.path.before a'.path :=
    Path.before_congr (Identity.path_same hb.identity) (Identity.path_same ha.identity)
  unfold Work.inOrder Path.inOrder
  rw [hbefore]
  split
  · exact ⟨hb, ha⟩
  · exact ⟨ha, hb⟩

end Work.Alike

/-! ### Verdicts -/

/-- What is told about a work is the same, however its path is written. -/
structure Summary.Agrees (s t : Summary) : Prop where
  identity : s.identity.same t.identity = true
  modified : s.modified = t.modified
  heads : s.heads = t.heads

theorem Work.Alike.summary {a b : Work} (h : a.Alike b) :
    (Summary.ofWork a).Agrees (Summary.ofWork b) := ⟨h.identity, h.modified, h.heads⟩

/-- Verdicts that are the same up to their dates. -/
inductive Verdict.Agrees : Verdict → Verdict → Prop where
  | quick (q : QuickLikeness) : Agrees (.quick q) (.quick q)
  | full {f g : FullVerdict} (first : f.first.Agrees g.first) (second : f.second.Agrees g.second)
      (quick : f.quick = g.quick) (outline : f.outline = g.outline) : Agrees (.full f) (.full g)

theorem Verdict.Agrees.exceeds {v w : Verdict} (h : v.Agrees w) (threshold : UInt8) :
    v.exceeds threshold = w.exceeds threshold := by
  cases h with
  | quick q => rfl
  | full first second quick outline => simp only [Verdict.exceeds, outline?, outline]

namespace Batch

/-! ### Comparisons and outcomes -/

/-- Comparisons that end in the same way. -/
inductive Comparison.Agrees : Comparison → Comparison → Prop where
  | verdict {v w : Verdict} (h : v.Agrees w) : Agrees (.verdict v) (.verdict w)
  | refused (message : String) : Agrees (.refused message) (.refused message)
  | crashed (message : String) : Agrees (.crashed message) (.crashed message)

/-- Outcomes for the same two paths with the same result, found in the store or not. -/
inductive Outcome.Agrees (o p : Outcome) : Prop where
  | verdict {v w : Verdict} (paths : o.paths = p.paths) (left : o.verdict? = some v)
      (right : p.verdict? = some w) (h : v.Agrees w)
  | fault {f : PairFault} (left : o = .failed f) (right : p = .failed f)

theorem Comparison.Agrees.outcome {c d : Comparison} (h : c.Agrees d) (job : Job) :
    (c.outcome job).Agrees (d.outcome job) := by
  cases h with
  | verdict h => exact .verdict rfl rfl rfl h
  | refused message => exact .fault rfl rfl
  | crashed message => exact .fault rfl rfl

/-- A comparison agrees with its verdict that is found in the store. -/
theorem Comparison.Agrees.cached {c : Comparison} {v : Verdict} (h : c.Agrees (.verdict v))
    (job : Job) : (c.outcome job).Agrees (.cached job.first.identity job.second.identity v) := by
  cases h with
  | verdict h => exact .verdict rfl rfl rfl h

theorem Outcome.Agrees.status {o p : Outcome} (h : o.Agrees p) (threshold : UInt8) :
    o.status threshold = p.status threshold := by
  cases h with
  | verdict paths left right h => simp only [Outcome.status, left, right, h.exceeds]
  | fault left right => rw [left, right]

/-- What an outcome says of the works. -/
def Outcome.measures (o : Outcome) : Option (QuickLikeness × Option OutlineLikeness) :=
  o.verdict?.map fun v => (v.quickLikeness, v.outline?)

theorem Outcome.Agrees.measures {o p : Outcome} (h : o.Agrees p) : o.measures = p.measures := by
  cases h with
  | verdict paths left right h =>
      rw [Outcome.measures, Outcome.measures, left, right]
      cases h with
      | quick q => rfl
      | full first second quick outline =>
          simp only [Option.map_some, Verdict.quickLikeness, Verdict.outline?, quick, outline]
  | fault left right => rw [left, right]

end Batch

/-! ### How works are compared -/

/-- Whether the quick measures are all there is to say. -/
def CompareSettings.stays (s : CompareSettings) (q : QuickLikeness) : Bool :=
  match s.gate with
  | none => false
  | some threshold => q.percent.lt (.ofNat threshold.toNat)

/-- What is left to compare once the quick measures have reached the threshold. -/
def compareOutlines (a b : Work) (maxDepth : Option UInt32) (quick : QuickLikeness) (now : Moment) :
    Except CompareFault Verdict := do
  let (a, b) := Work.inOrder a b
  let aOutline := a.outline.upTo maxDepth
  let bOutline := b.outline.upTo maxDepth
  aOutline.check.mapError .malformed
  bOutline.check.mapError .malformed
  return .full {
    date := now
    first := .ofWork a
    second := .ofWork b
    quick := quick
    outline := .ofOutlines aOutline bOutline a.heads.length b.heads.length }

/-- Outlines that could be compared have a full verdict, with the quick measures that were there. -/
theorem compareOutlines_eq_ok {a b : Work} {maxDepth : Option UInt32} {quick : QuickLikeness}
    {now : Moment} {v : Verdict} (h : compareOutlines a b maxDepth quick now = .ok v) :
    v = .full {
      date := now
      first := .ofWork (Work.inOrder a b).1
      second := .ofWork (Work.inOrder a b).2
      quick := quick
      outline := .ofOutlines ((Work.inOrder a b).1.outline.upTo maxDepth)
        ((Work.inOrder a b).2.outline.upTo maxDepth) (Work.inOrder a b).1.heads.length
        (Work.inOrder a b).2.heads.length } := by
  unfold compareOutlines at h
  obtain ⟨⟨⟩, -, h⟩ := Except.bind_eq_ok.mp h
  obtain ⟨⟨⟩, -, h⟩ := Except.bind_eq_ok.mp h
  exact (Except.ok.inj h).symm

theorem compareWorks_eq (a b : Work) (s : CompareSettings) (now : Moment) :
    compareWorks a b s now = (do
      let quick ← (quickCompare a b s.windowLength.toNat s.weights).mapError .overflow
      if s.stays quick then return .quick quick
      compareOutlines a b s.maxDepth quick now) := rfl

namespace Batch

/-- How a comparison with a result ends. -/
def Comparison.ofResult : Except CompareFault Verdict → Comparison
  | .ok v => .verdict v
  | .error (.malformed m) => .refused m.message
  | .error (.overflow o) => .crashed o.message

theorem Comparison.ofResult_eq_verdict {x : Except CompareFault Verdict} {v : Verdict}
    (h : Comparison.ofResult x = .verdict v) : x = .ok v := by
  cases x with
  | ok w => rw [Comparison.verdict.inj h]
  | error f => cases f <;> cases h

section

variable {a a' b b' : Work} {s : CompareSettings} {quick : QuickLikeness} (now : Moment)

theorem comparison_eq : comparison s now a b = .ofResult (compareWorks a b s now) := rfl

theorem comparison_of_overflow {o : Overflow}
    (h : quickCompare a b s.windowLength.toNat s.weights = .error o) :
    comparison s now a b = .crashed o.message := by
  rw [comparison_eq, compareWorks_eq, h]
  rfl

theorem comparison_of_stays (h : quickCompare a b s.windowLength.toNat s.weights = .ok quick)
    (hstays : s.stays quick = true) : comparison s now a b = .verdict (.quick quick) := by
  rw [comparison_eq, compareWorks_eq, h]
  simp only [Except.mapError, bind, Except.bind, hstays]
  rfl

theorem comparison_of_reaches (h : quickCompare a b s.windowLength.toNat s.weights = .ok quick)
    (hstays : s.stays quick = false) :
    comparison s now a b = .ofResult (compareOutlines a b s.maxDepth quick now) := by
  rw [comparison_eq, compareWorks_eq, h]
  simp only [Except.mapError, bind, Except.bind, hstays]
  rfl

theorem agrees_compareOutlines (ha : a.Alike a') (hb : b.Alike b') (maxDepth : Option UInt32)
    (quick : QuickLikeness) (now' : Moment) :
    (Comparison.ofResult (compareOutlines a b maxDepth quick now)).Agrees
      (.ofResult (compareOutlines a' b' maxDepth quick now')) := by
  obtain ⟨hfirst, hsecond⟩ := ha.inOrder hb
  unfold compareOutlines
  generalize Work.inOrder a b = pair at *
  generalize Work.inOrder a' b' = pair' at *
  simp only [hfirst.outline, hsecond.outline]
  cases (pair'.1.outline.upTo maxDepth).check with
  | error m => exact .refused _
  | ok _ =>
      cases (pair'.2.outline.upTo maxDepth).check with
      | error m => exact .refused _
      | ok _ =>
          refine .verdict (.full hfirst.summary hsecond.summary rfl ?_)
          simp only [hfirst.heads, hsecond.heads]

/-- **The comparisons of works that are alike agree.** -/
theorem agrees_of_alike (ha : a.Alike a') (hb : b.Alike b') (now' : Moment) :
    (comparison s now a b).Agrees (comparison s now' a' b') := by
  have hsame := ha.quickCompare_eq hb s.windowLength.toNat s.weights
  cases hquick : quickCompare a b s.windowLength.toNat s.weights with
  | error o =>
      rw [comparison_of_overflow now hquick, comparison_of_overflow now' (hsame ▸ hquick)]
      exact .crashed _
  | ok quick =>
      cases hstays : s.stays quick with
      | true =>
          rw [comparison_of_stays now hquick hstays,
            comparison_of_stays now' (hsame ▸ hquick) hstays]
          exact .verdict (.quick quick)
      | false =>
          rw [comparison_of_reaches now hquick hstays,
            comparison_of_reaches now' (hsame ▸ hquick) hstays]
          exact agrees_compareOutlines now ha hb s.maxDepth quick now'

end

end Batch

/-! ### Settings -/

/-- Settings under which works are measured in the same way. They may differ in the threshold. -/
structure CompareSettings.SameMeasures (s t : CompareSettings) : Prop where
  windowLength : s.windowLength = t.windowLength
  weights : s.weights = t.weights
  maxDepth : s.maxDepth = t.maxDepth

/-- Settings that let pass whatever has passed under others with the same measures. -/
structure CompareSettings.Accepts (s other : CompareSettings) : Prop where
  measures : s.SameMeasures other
  gate : ∀ threshold, s.gate = some threshold → ∃ t, other.gate = some t ∧ threshold ≤ t

theorem CompareSettings.Accepts.stays {s other : CompareSettings} (h : s.Accepts other)
    {q : QuickLikeness} (hother : other.stays q = false) : s.stays q = false := by
  unfold CompareSettings.stays at hother ⊢
  cases hgate : s.gate with
  | none => rfl
  | some threshold =>
      obtain ⟨t, ht, hle⟩ := h.gate threshold hgate
      rw [ht] at hother
      dsimp only at hother ⊢
      by_contra hlt
      have hgreater := Binary64.lt_ofNat_mono (UInt8.le_iff_toNat_le.mp hle)
        (Bool.eq_true_of_not_eq_false hlt)
      rw [hgreater] at hother
      cases hother

namespace Batch

variable {a a' b b' : Work} {s other : CompareSettings} {now now' : Moment} {f : FullVerdict}

theorem quick_compareOutlines {maxDepth : Option UInt32} {quick : QuickLikeness}
    (h : Comparison.ofResult (compareOutlines a b maxDepth quick now) = .verdict (.full f)) :
    f.quick = quick := by
  obtain rfl := Verdict.full.inj (compareOutlines_eq_ok (Comparison.ofResult_eq_verdict h))
  rfl

/-- How a comparison came to a full verdict. -/
theorem full_of_comparison (h : comparison s now a b = .verdict (.full f)) :
    quickCompare a b s.windowLength.toNat s.weights = .ok f.quick ∧ s.stays f.quick = false ∧
      Comparison.ofResult (compareOutlines a b s.maxDepth f.quick now) = .verdict (.full f) := by
  cases hquick : quickCompare a b s.windowLength.toNat s.weights with
  | error o =>
      rw [comparison_of_overflow now hquick] at h
      cases h
  | ok quick =>
      cases hstays : s.stays quick with
      | true =>
          rw [comparison_of_stays now hquick hstays] at h
          cases h
      | false =>
          rw [comparison_of_reaches now hquick hstays] at h
          obtain rfl := quick_compareOutlines h
          exact ⟨rfl, hstays, h⟩

/-- **A full verdict under other settings with the same measures** agrees with what is found under
these, unless its quick measures stay below the threshold here. -/
theorem agrees_or_stays (now : Moment) (ha : a.Alike a') (hb : b.Alike b')
    (hsame : s.SameMeasures other) (h : comparison other now' a' b' = .verdict (.full f)) :
    (comparison s now a b).Agrees (.verdict (.full f)) ∨
      s.stays f.quick = true ∧ comparison s now a b = .verdict (.quick f.quick) := by
  obtain ⟨hquick, -, houtlines⟩ := full_of_comparison h
  rw [← ha.quickCompare_eq hb, ← hsame.windowLength, ← hsame.weights] at hquick
  cases hstays : s.stays f.quick with
  | true => exact .inr ⟨rfl, comparison_of_stays now hquick hstays⟩
  | false =>
      left
      rw [comparison_of_reaches now hquick hstays, ← houtlines, ← hsame.maxDepth]
      exact agrees_compareOutlines now ha hb s.maxDepth f.quick now'

/-- **A full verdict under other settings that are accepted** is found under these, up to its date. -/
theorem agrees_of_accepts (now : Moment) (ha : a.Alike a') (hb : b.Alike b') (h : s.Accepts other)
    (hfull : comparison other now' a' b' = .verdict (.full f)) :
    (comparison s now a b).Agrees (.verdict (.full f)) := by
  rcases agrees_or_stays now ha hb h.measures hfull with hagree | ⟨hstays, -⟩
  · exact hagree
  · rw [h.stays (full_of_comparison hfull).2.1] at hstays
    cases hstays

end Batch

/-! ### What a full verdict is on -/

section

variable {a b : Work} {s : CompareSettings} {now : Moment} {f : FullVerdict}

/-- A full verdict is made of the works in the order of their paths. -/
theorem FullVerdict.eq_of_compareWorks (h : compareWorks a b s now = .ok (.full f)) :
    f = {
      date := now
      first := .ofWork (Work.inOrder a b).1
      second := .ofWork (Work.inOrder a b).2
      quick := f.quick
      outline := .ofOutlines ((Work.inOrder a b).1.outline.upTo s.maxDepth)
        ((Work.inOrder a b).2.outline.upTo s.maxDepth) (Work.inOrder a b).1.heads.length
        (Work.inOrder a b).2.heads.length } := by
  have hcomparison : Batch.comparison s now a b = .verdict (.full f) := by
    rw [Batch.comparison_eq, h]
    rfl
  obtain ⟨-, -, houtlines⟩ := Batch.full_of_comparison hcomparison
  exact Verdict.full.inj (compareOutlines_eq_ok (Batch.Comparison.ofResult_eq_verdict houtlines))

/-- A verdict is on two works, the first and the second. -/
structure FullVerdict.On (f : FullVerdict) (a b : Work) : Prop where
  first : f.first = .ofWork a
  second : f.second = .ofWork b

/-- A verdict is on the works in the order of their paths. -/
theorem FullVerdict.on_of_compareWorks (h : compareWorks a b s now = .ok (.full f)) :
    f.On (Work.inOrder a b).1 (Work.inOrder a b).2 := by
  rw [FullVerdict.eq_of_compareWorks h]
  exact ⟨rfl, rfl⟩

end

end Likeness
