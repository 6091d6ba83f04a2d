import Likeness.Command.Compare
import Likeness.Proofs.Compare.Tokens
import Likeness.Proofs.Command.Twice

/-!
# Likeness.Proofs.Command.Halves

Which works the two halves of a comparison speak of.

The verdict has the works in the order of their paths, the token report in the order in which they were
given (`tokens_of_compareReport`). So the halves speak of the same works in the same order if the works
are given in the order of their paths. If not, what is told of the tokens of the first work belongs to the
work that the verdict has second (`exists_crossed_report`).
-/

namespace Likeness

namespace Command

open FileTree

variable {r : CompareRequest} {s : Settings} {t u : FileTree}

/-! ### What is compared -/

/-- Two works are loaded one after the other, which changes nothing. -/
theorem run_loadPair (first second : Path) (t : FileTree) :
    (loadPair first second : StateM FileTree _).run t =
      ((do return (← Loader.default.resultAt t first, ← Loader.default.resultAt t second)), t) := by
  rw [loadPair, Host.run_bind_eq (Loader.run_loadFile_of_uncached rfl first t)]
  cases Loader.default.resultAt t first with
  | error f => rfl
  | ok a =>
      dsimp only
      rw [Host.run_bind_eq (Loader.run_loadFile_of_uncached rfl second t)]
      cases Loader.default.resultAt t second <;> rfl

/-- A comparison that gives a report has loaded both works. -/
theorem compareReport_eq_ok {p : PairReport}
    (h : (compareReport r : StateM FileTree _).run t = (.ok (s, p), u)) :
    ∃ a b, Loader.default.resultAt t r.first = .ok a ∧ Loader.default.resultAt t r.second = .ok b ∧
      PairReport.ofWorks a b s.compare r.leastTile t.time = .ok p := by
  rw [compareReport, Host.run_bind_eq (run_soundSettings_congr id fun _ _ _ _ => rfl)] at h
  cases hsettings : ((soundSettings r.settings id : StateM FileTree _).run t).1 with
  | error f =>
      rw [hsettings] at h
      cases h
  | ok s' =>
      rw [hsettings] at h
      dsimp only at h
      rw [Host.run_bind_eq (run_loadPair r.first r.second t)] at h
      cases hfirst : Loader.default.resultAt t r.first with
      | error f =>
          rw [hfirst] at h
          cases h
      | ok a =>
          cases hsecond : Loader.default.resultAt t r.second with
          | error f =>
              rw [hfirst, hsecond] at h
              cases h
          | ok b =>
              rw [hfirst, hsecond] at h
              obtain ⟨p', hreport, hsame⟩ := Except.map_eq_ok.mp (Prod.mk.inj h).1
              obtain ⟨rfl, rfl⟩ := Prod.mk.inj hsame
              exact ⟨a, b, rfl, rfl, Except.mapError_eq_ok.mp hreport⟩

/-! ### The halves -/

/-- The halves of a report on two works. -/
theorem PairReport.halves {a b : Work} {settings : CompareSettings} {least : Nat} {now : Moment}
    {p : PairReport} {f : FullVerdict} (h : ofWorks a b settings least now = .ok p)
    (hfull : p.verdict = .full f) :
    f.On (Work.inOrder a b).1 (Work.inOrder a b).2 ∧ p.tokens.About least a b := by
  obtain ⟨v, hcompared, rfl⟩ := Except.map_eq_ok.mp h
  obtain rfl : v = .full f := hfull
  exact ⟨FullVerdict.on_of_compareWorks hcompared, TokenReport.about_ofWorks a b least⟩

/-- **Each half of a comparison has its own order.** If a comparison comes to a full verdict, both works
were loaded. The tokens are told of in the order in which the works were given; the verdict is on them in
the order of their paths. -/
theorem tokens_of_compareReport {p : PairReport} {f : FullVerdict}
    (h : (compareReport r : StateM FileTree _).run t = (.ok (s, p), u)) (hfull : p.verdict = .full f) :
    ∃ a b, Loader.default.resultAt t r.first = .ok a ∧ Loader.default.resultAt t r.second = .ok b ∧
      a.path = r.first ∧ b.path = r.second ∧ p.tokens.About r.leastTile a b ∧
      (r.second.before r.first = false → f.On a b) ∧ (r.second.before r.first = true → f.On b a) := by
  obtain ⟨a, b, hfirst, hsecond, hreport⟩ := compareReport_eq_ok h
  obtain ⟨hon, habout⟩ := PairReport.halves hreport hfull
  have ha : a.path = r.first := Loader.path_of_resultAt hfirst
  have hb : b.path = r.second := Loader.path_of_resultAt hsecond
  have horder : Work.inOrder a b = if r.second.before r.first then (b, a) else (a, b) := by
    rw [← ha, ← hb]
    rfl
  rw [horder] at hon
  refine ⟨a, b, hfirst, hsecond, ha, hb, habout, ?_, ?_⟩
  · intro hbefore
    rw [hbefore] at hon
    exact hon
  · intro hbefore
    rw [hbefore] at hon
    exact hon

/-- A listing of three tokens, and one that has another token in front of them. -/
def listings : FileTree where
  entries := [(["a.json"], .file (Work.bareRecord "[1, 2, 3]").toUTF8 ⟨0, 0⟩),
    (["b.json"], .file (Work.bareRecord "[9, 1, 2, 3]").toUTF8 ⟨0, 0⟩)]
  time := ⟨0, 0⟩

/-- The longer listing is given first. -/
def crossed : CompareRequest where
  first := ⟨"b.json"⟩
  second := ⟨"a.json"⟩
  settings := none
  leastTile := 3
  format := .json

/-- What the listings share starts behind the first token of the longer one. -/
theorem crossed_tiles : ((compareReport crossed : StateM FileTree _).run listings).1.toOption.any
    (fun x => x.2.verdict.isFull && x.2.tokens.tiles = [⟨1, 0, 3⟩]) = true := by decide +kernel

theorem exists_crossed : ∃ s p f u,
    (compareReport crossed : StateM FileTree _).run listings = (.ok (s, p), u) ∧
      p.verdict = .full f ∧ p.tokens.tiles = [⟨1, 0, 3⟩] := by
  have htiles := crossed_tiles
  rcases hrun : (compareReport crossed : StateM FileTree _).run listings with ⟨answer, u⟩
  rw [hrun] at htiles
  cases answer with
  | error f => cases htiles
  | ok x =>
      obtain ⟨s, ⟨v, tokens⟩⟩ := x
      simp only [Except.toOption, Option.any_some, Bool.and_eq_true, decide_eq_true_eq] at htiles
      obtain ⟨hfull, htiles⟩ := htiles
      cases v with
      | quick q => cases hfull
      | full f => exact ⟨s, _, f, u, rfl, rfl, htiles⟩

/-- The token report on the listings is on the longer one first, the verdict on the shorter one. -/
theorem tokens_of_crossed : ∃ s p f u a b,
    (compareReport crossed : StateM FileTree _).run listings = (.ok (s, p), u) ∧
      p.verdict = .full f ∧ a.path = ⟨"b.json"⟩ ∧ b.path = ⟨"a.json"⟩ ∧ p.tokens.About 3 a b ∧
      f.On b a := by
  obtain ⟨s, p, f, u, hrun, hfull, -⟩ := exists_crossed
  obtain ⟨a, b, -, -, ha, hb, habout, -, hon⟩ := tokens_of_compareReport hrun hfull
  exact ⟨s, p, f, u, a, b, hrun, hfull, ha, hb, habout, hon (by decide +kernel)⟩

/-- **The halves of a report may be crossed**: the works that the verdict has first and second are not the
works that the token report is about. -/
theorem exists_crossed_report : ∃ (r : CompareRequest) (t u : FileTree) (s : Settings) (p : PairReport)
    (f : FullVerdict), (compareReport r : StateM FileTree _).run t = (.ok (s, p), u) ∧
      p.verdict = .full f ∧ r.first.same r.second = false ∧
      ¬ ∃ a b, Loader.default.resultAt t f.first.identity.path = .ok a ∧
        Loader.default.resultAt t f.second.identity.path = .ok b ∧ p.tokens.About r.leastTile a b := by
  obtain ⟨s, p, f, u, hrun, hfull, htiles⟩ := exists_crossed
  refine ⟨crossed, listings, u, s, p, f, hrun, hfull, by decide +kernel, ?_⟩
  rintro ⟨a, b, ha, -, habout⟩
  obtain ⟨first, second, hfirst, hsecond, hreport⟩ := compareReport_eq_ok hrun
  have hname : f.first.identity.path = ⟨"a.json"⟩ := by
    rw [(PairReport.halves hreport hfull).1.first, Work.inOrder, Path.inOrder]
    have hbefore : second.path.before first.path = true := by
      rw [Loader.path_of_resultAt hfirst, Loader.path_of_resultAt hsecond]
      decide +kernel
    rw [if_pos hbefore]
    exact Loader.path_of_resultAt hsecond
  have htokens : (Loader.default.resultAt listings ⟨"a.json"⟩).toOption.all
      (fun w => w.tokens = [1, 2, 3]) = true := by decide +kernel
  rw [hname] at ha
  rw [ha] at htokens
  -- The last token of the tile is beyond the end of the shorter listing.
  have hend : ∃ x, a.tokens[3]? = some x ∧ b.tokens[2]? = some x :=
    habout.tiles.common ⟨1, 0, 3⟩ (htiles ▸ List.mem_singleton_self _) 2 (by decide)
  obtain ⟨x, hx, -⟩ := hend
  rw [of_decide_eq_true htokens] at hx
  cases hx

end Command

end Likeness
