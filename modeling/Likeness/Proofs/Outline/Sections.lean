import Likeness.Digest.Grams
import Likeness.Proofs.Outline.Children
import Likeness.Proofs.Outline.Preorder

/-!
# Likeness.Proofs.Outline.Sections

An outline is made up of sections, each a heading and the body behind it.

The children are found by where they start, and their bodies are then cut out between one start and the
next (`Outline.sections?`). For any list of entries the starts ascend from the front to the end, so no
bound is out of range, and what is cut out are the bodies, with nothing left out between them
(`Outline.Cut.exists_sections`). The body of a node in a well nested outline is well nested one level
further down (`Outline.Below`), and so is all that is cut out of it in turn.
-/

namespace Likeness

namespace Outline

/-- The heading at a start and the entries behind it up to the next start. There is none if a bound is
out of range. -/
def sectionBetween? (o : Outline) (start next : Nat) : Option (Entry × Outline) := do
  return (← o[start]?, ← Grams.slice? o (start + 1) next)

def sectionsAt? (o : Outline) (starts : List Nat) : Option (List (Entry × Outline)) :=
  (starts.zip starts.tail).mapM fun bounds => o.sectionBetween? bounds.1 bounds.2

def sections? (o : Outline) : Option (List (Entry × Outline)) := o.sectionsAt? o.childStarts

/-! ### Starts -/

theorem pairwise_childStarts (o : Outline) : o.childStarts.Pairwise (· < ·) := by
  rw [childStarts_eq, List.pairwise_map]
  refine List.pairwise_lt_range.imp_of_mem fun _ hk hik => ?_
  have hle := startOf_add_le hik (Nat.le_of_lt_succ (List.mem_range.mp hk))
  omega

theorem head?_childStarts (o : Outline) : o.childStarts.head? = some 0 := by
  cases o with
  | nil => rfl
  | cons e rest => simp [childStarts, headings]

theorem getLast?_childStarts (o : Outline) : o.childStarts.getLast? = some o.length := by
  cases o with
  | nil => rfl
  | cons e rest => simp [childStarts]

/-! ### Sections -/

theorem sectionBetween?_append (before : Outline) (heading : Entry) (body rest : Outline) :
    sectionBetween? (before ++ heading :: (body ++ rest)) before.length (before.length + 1 + body.length) =
      some (heading, body) := by
  have hheading : (before ++ heading :: (body ++ rest))[before.length]? = some heading := by simp
  have hbody : Grams.slice? (before ++ heading :: (body ++ rest)) (before.length + 1)
      (before.length + 1 + body.length) = some body := by
    rw [Grams.slice?, if_pos ⟨Nat.le_add_right _ _, by simp; omega⟩, List.drop_append,
      List.drop_of_length_le (by omega)]
    simp
  rw [sectionBetween?, hheading, hbody]
  rfl

theorem Cut.exists_starts {d : UInt32} {o : Outline} {bodies : List Outline} (h : Cut d o bodies)
    (index : Nat) : ∃ later, headings d index o ++ [index + o.length] = index :: later := by
  rw [h.headings_eq, List.range_succ_eq_map, List.map_cons, startOf_zero]
  exact ⟨_, rfl⟩

/-- Wherever a cut outline stands, its sections are cut out, and they are all of it. -/
theorem Cut.exists_sections {d : UInt32} {o : Outline} {bodies : List Outline} (h : Cut d o bodies)
    (before : Outline) : ∃ sections,
      sectionsAt? (before ++ o) (headings d before.length o ++ [before.length + o.length]) =
        some sections ∧
      sections.map Prod.snd = bodies ∧
      sections.flatMap (fun (heading, body) => heading :: body) = o := by
  induction h generalizing before with
  | nil => exact ⟨[], rfl, rfl, rfl⟩
  | @cons heading body rest bodies here inside beside ih =>
      obtain ⟨later, hlater⟩ := beside.exists_starts (before.length + 1 + body.length)
      obtain ⟨sections, hsections, hbodies, hall⟩ := ih (before ++ heading :: body)
      have hbehind : (before ++ heading :: body).length = before.length + 1 + body.length := by
        rw [List.length_append, List.length_cons]
        omega
      have hwhole : before ++ heading :: body ++ rest = before ++ heading :: (body ++ rest) := by simp
      rw [hbehind, hlater, hwhole] at hsections
      refine ⟨(heading, body) :: sections, ?_, by simp [hbodies], by simp [hall]⟩
      rw [sectionsAt?, List.tail_cons] at hsections
      rw [headings_cons_append here inside, hlater, sectionsAt?, List.tail_cons, List.zip_cons_cons,
        List.mapM_cons, hsections, sectionBetween?_append]
      rfl

/-- **Every list of entries is cut into sections.** -/
theorem exists_sections (o : Outline) : ∃ sections, o.sections? = some sections ∧
    sections.map Prod.snd = o.bodies ∧
    sections.flatMap (fun (heading, body) => heading :: body) = o := by
  cases o with
  | nil => exact ⟨[], rfl, rfl, rfl⟩
  | cons e rest =>
      obtain ⟨sections, hsections, hbodies, hall⟩ := (cut_bodies e rest).exists_sections []
      refine ⟨sections, ?_, hbodies, hall⟩
      rw [← hsections]
      simp [sections?, childStarts]

/-! ### Well nested sections -/

/-- A body one level below an entry: it has no entries, or it is well nested, starts right below the
entry, and has nothing that is not below it. -/
def Below (e : Entry) (body : Outline) : Prop :=
  body = [] ∨ body.WellNested ∧ (∃ x ∈ body.head?, x.depth.toNat = e.depth.toNat + 1) ∧
    ∀ x ∈ body, e.depth < x.depth

theorem WellNested.below {o body : Outline} (h : o.WellNested) {e : Entry} (he : e ∈ o.head?)
    (hbody : body ∈ o.bodies) : Below e body := by
  obtain ⟨depth, F, hF⟩ := wellNested_iff_exists_isPreorder.mp h
  obtain ⟨G, hG⟩ := hF.of_mem_bodies hbody
  have hdepth : e.depth.toNat = depth := hF.depth_head he
  cases body with
  | nil => exact .inl rfl
  | cons x body =>
      have hx : x.depth.toNat = depth + 1 := hG.depth_head rfl
      refine .inr ⟨h.of_mem_bodies hbody, ⟨x, rfl, by rw [hx, hdepth]⟩, ?_⟩
      intro y hy
      have hle := Forest.le_depth hG.fits y (hG.flatten ▸ hy)
      rw [UInt32.lt_iff_toNat_lt]
      omega

/-- **Sections.** For every list of entries, well nested or not, the starts of the children ascend
from zero to the length of the list; all sections between them can be cut out, and their bodies, which
are those that are aligned, are shorter than the list; headings and bodies one after the other give the
list back. If the list is well nested, the bodies are so one level below the first entry. -/
theorem sections_exact (o : Outline) :
    o.childStarts.Pairwise (· < ·) ∧ o.childStarts.head? = some 0 ∧
      o.childStarts.getLast? = some o.length ∧ (o = [] → o.childStarts = [o.length]) ∧
      ∃ sections, o.sections? = some sections ∧ sections.length + 1 = o.childStarts.length ∧
        sections.map Prod.snd = o.bodies ∧ (∀ s ∈ sections, s.2.length < o.length) ∧
        sections.flatMap (fun (heading, body) => heading :: body) = o ∧
        (o.WellNested → ∀ e ∈ o.head?, ∀ s ∈ sections, Below e s.2) := by
  obtain ⟨sections, hsections, hbodies, hall⟩ := exists_sections o
  have hmem : ∀ s ∈ sections, s.2 ∈ o.bodies := by
    intro s hs
    rw [← hbodies]
    exact List.mem_map_of_mem hs
  refine ⟨pairwise_childStarts o, head?_childStarts o, getLast?_childStarts o, ?_, sections, hsections,
    ?_, hbodies, fun s hs => length_of_mem_bodies (hmem s hs), hall,
    fun ho e he s hs => ho.below he (hmem s hs)⟩
  · rintro rfl
    rfl
  · rw [childStarts_eq, List.length_map, List.length_range, ← hbodies, List.length_map]

/-- The second of two sections has three entries behind its heading. -/
theorem sections_exact_two :
    let o : Outline := [⟨3, 0⟩, ⟨3, 1⟩, ⟨4, 2⟩, ⟨5, 3⟩, ⟨4, 4⟩]
    sections? o = some [(⟨3, 0⟩, []), (⟨3, 1⟩, [⟨4, 2⟩, ⟨5, 3⟩, ⟨4, 4⟩])] ∧
      WellNested [⟨4, 2⟩, ⟨5, 3⟩, ⟨4, 4⟩] ∧ ∀ x ∈ ([⟨4, 2⟩, ⟨5, 3⟩, ⟨4, 4⟩] : Outline), 3 < x.depth := by
  intro o
  have hcut : o.sections? = some [(⟨3, 0⟩, []), (⟨3, 1⟩, [⟨4, 2⟩, ⟨5, 3⟩, ⟨4, 4⟩])] := by decide
  obtain ⟨-, -, -, -, sections, hsections, -, -, -, -, hbelow⟩ := sections_exact o
  rw [hcut, Option.some.injEq] at hsections
  subst hsections
  obtain hnil | ⟨hnested, -, hdeeper⟩ := hbelow (by decide) ⟨3, 0⟩ rfl _ (.tail _ (.head _))
  · cases hnil
  · exact ⟨hcut, hnested, hdeeper⟩

/-- Entries above the first one stay behind the heading before them. -/
example : sections? [⟨3, 0⟩, ⟨1, 1⟩, ⟨3, 2⟩] = some [(⟨3, 0⟩, [⟨1, 1⟩]), (⟨3, 2⟩, [])] := by decide

end Outline

end Likeness
