import Likeness.Proofs.Except
import Likeness.Work.Builder

/-!
# Likeness.Proofs.Work.Builder

What a work has when its steps are taken. The tokens and the places of a work are those of its steps,
one after the other (`Work.streams_of_steps`), and it is finished if and only if its outline is well
nested (`Work.finish_eq_ok`).
-/

namespace Likeness.Work

namespace Step

/-- The tokens that a step appends. -/
def pushed : Step → List UInt32
  | .token t _ => [t]
  | .tokens ts => ts
  | _ => []

/-- The places that a step appends. -/
def placed : Step → List Place
  | .token _ place => place.toList
  | _ => []

end Step

variable {w w' : Work}

theorem streams_of_step {s : Step} (h : w.step s = .ok w') :
    w'.tokens = w.tokens ++ s.pushed ∧ w'.places = w.places ++ s.placed := by
  cases s with
  | token token place =>
      cases h
      exact ⟨rfl, rfl⟩
  | tokens tokens =>
      cases h
      exact ⟨rfl, (List.append_nil _).symm⟩
  | count category label n =>
      -- Counting may overflow; when it does not, it leaves the streams alone.
      cases category
      all_goals
        obtain ⟨c, -, h⟩ := Except.bind_eq_ok.mp h
        cases h
        exact ⟨(List.append_nil _).symm, (List.append_nil _).symm⟩
  | content _ | digest _ | modified _ | node _ _ | head _ =>
      cases h
      exact ⟨(List.append_nil _).symm, (List.append_nil _).symm⟩

/-- The streams of a work grow by those of its steps. -/
theorem streams_of_steps {ss : List Step} (h : w.steps ss = .ok w') :
    w'.tokens = w.tokens ++ ss.flatMap Step.pushed ∧
      w'.places = w.places ++ ss.flatMap Step.placed := by
  induction ss generalizing w with
  | nil =>
      cases h
      exact ⟨(List.append_nil _).symm, (List.append_nil _).symm⟩
  | cons s ss ih =>
      rw [steps, List.foldlM_cons] at h
      obtain ⟨w₁, hstep, hsteps⟩ := Except.bind_eq_ok.mp h
      obtain ⟨htokens, hplaces⟩ := streams_of_step hstep
      obtain ⟨htokens', hplaces'⟩ := ih hsteps
      rw [htokens', hplaces', htokens, hplaces, List.append_assoc, List.append_assoc]
      exact ⟨rfl, rfl⟩

theorem finish_eq_ok : w.finish = .ok w' ↔ w.outline.WellNested ∧ w' = w := by
  unfold finish
  rw [Except.bind_eq_ok]
  constructor
  · rintro ⟨⟨⟩, hcheck, h⟩
    exact ⟨hcheck, (Except.ok.inj h).symm⟩
  · rintro ⟨hcheck, rfl⟩
    exact ⟨(), hcheck, rfl⟩

end Likeness.Work
