import Mathlib.Data.List.TakeWhile
import Likeness.Proofs.Outline.Alignment

/-!
# Likeness.Proofs.Outline.Children

Where the children of an outline stand in it, well nested or not.

An outline is cut into children at the entries that share the depth of the first one
(`Outline.Cut`). Each child takes up one entry more than its body, and so the lengths of the bodies
say where the children start (`Outline.childStarts_eq`).
-/

namespace Likeness

namespace Outline

/-! ### Cutting at a depth -/

/-- An outline consists of headings at a depth, each followed by a body without entries at this
depth. -/
inductive Cut (d : UInt32) : Outline → List Outline → Prop
  | nil : Cut d [] []
  | cons {heading : Entry} {body rest : Outline} {bodies : List Outline}
      (here : heading.depth = d) (inside : ∀ x ∈ body, x.depth ≠ d) (beside : Cut d rest bodies) :
      Cut d (heading :: (body ++ rest)) (body :: bodies)

theorem cut_bodiesAt {d : UInt32} {o : Outline} (hhead : ∀ e ∈ o.head?, e.depth = d) :
    Cut d o (bodiesAt d o) := by
  fun_induction bodiesAt d o with
  | case1 => exact .nil
  | case2 e rest ih =>
      have hinside : ∀ x ∈ rest.takeWhile (fun x => decide (x.depth ≠ d)), x.depth ≠ d := by
        intro x hx
        simpa using List.mem_takeWhile_imp hx
      have hnext : ∀ x ∈ (rest.dropWhile fun x => decide (x.depth ≠ d)).head?, x.depth = d := by
        intro x hx
        have hhead := List.head?_dropWhile_not (fun x : Entry => decide (x.depth ≠ d)) rest
        rw [hx] at hhead
        simpa using hhead
      have hcut := Cut.cons (hhead e rfl) hinside (ih hnext)
      rwa [List.takeWhile_append_dropWhile] at hcut

theorem cut_bodies (e : Entry) (rest : Outline) :
    Cut e.depth (e :: rest) (bodies (e :: rest)) := cut_bodiesAt (by simp)

/-! ### Starts -/

/-- Where the heading of a child stands: after all children before it. -/
def startOf : List Outline → Nat → Nat
  | [], _ => 0
  | _ :: _, 0 => 0
  | b :: bodies, i + 1 => b.length + 1 + startOf bodies i

@[simp] theorem startOf_zero (bodies : List Outline) : startOf bodies 0 = 0 := by
  cases bodies <;> rfl

/-- A child takes up one entry more than its body. -/
theorem startOf_succ {bodies : List Outline} {i : Nat} (h : i < bodies.length) :
    startOf bodies (i + 1) = startOf bodies i + 1 + (bodies[i]).length := by
  induction bodies generalizing i with
  | nil => exact absurd h (Nat.not_lt_zero i)
  | cons b bodies ih =>
      rw [startOf]
      cases i with
      | zero =>
          simp only [startOf_zero, List.getElem_cons_zero]
          omega
      | succ i =>
          rw [ih (Nat.lt_of_succ_lt_succ h), startOf, List.getElem_cons_succ]
          omega

theorem startOf_mono {bodies : List Outline} {i k : Nat} (hik : i ≤ k) (hk : k ≤ bodies.length) :
    startOf bodies i ≤ startOf bodies k := by
  induction k, hik using Nat.le_induction with
  | base => exact Nat.le_refl _
  | succ k _ ih =>
      have hprevious := ih (Nat.le_of_succ_le hk)
      have hnext := startOf_succ (Nat.lt_of_succ_le hk)
      omega

/-- A child ends before the next one starts. -/
theorem startOf_add_le {bodies : List Outline} {i k : Nat} (hik : i < k) (hk : k ≤ bodies.length) :
    startOf bodies i + 1 + (bodies[i]).length ≤ startOf bodies k := by
  rw [← startOf_succ (Nat.lt_of_lt_of_le hik hk)]
  exact startOf_mono hik hk

/-- An outline, cut at one of its children. -/
theorem Cut.exists_split {d : UInt32} {o : Outline} {bodies : List Outline} (h : Cut d o bodies)
    {i : Nat} (hi : i < bodies.length) :
    ∃ before heading after, o = before ++ heading :: (bodies[i] ++ after) ∧
      before.length = startOf bodies i ∧ heading.depth = d ∧ ∀ x ∈ bodies[i], x.depth ≠ d := by
  induction h generalizing i with
  | nil => exact absurd hi (Nat.not_lt_zero i)
  | @cons first body rest _ here inside _ ih =>
      cases i with
      | zero => exact ⟨[], first, rest, rfl, rfl, here, inside⟩
      | succ i =>
          obtain ⟨before, heading, after, hsplit, hlength, hheading, hbody⟩ :=
            ih (Nat.lt_of_succ_lt_succ hi)
          refine ⟨first :: (body ++ before), heading, after, ?_, ?_, hheading, hbody⟩
          · rw [hsplit, List.getElem_cons_succ, List.cons_append, List.append_assoc]
          · simp only [startOf, List.length_cons, List.length_append, hlength]
            omega

/-! ### Headings -/

theorem headings_append (d : UInt32) (index : Nat) (o o' : Outline) :
    headings d index (o ++ o') = headings d index o ++ headings d (index + o.length) o' := by
  induction o generalizing index with
  | nil => rfl
  | cons e o ih =>
      rw [List.cons_append, headings, headings, ih, List.length_cons, Nat.add_assoc,
        Nat.add_comm 1 o.length]
      split
      · rfl
      · rfl

theorem headings_eq_nil {d : UInt32} {o : Outline} (h : ∀ e ∈ o, e.depth ≠ d) (index : Nat) :
    headings d index o = [] := by
  induction o generalizing index with
  | nil => rfl
  | cons e o ih =>
      obtain ⟨he, ho⟩ := List.forall_mem_cons.mp h
      rw [headings, if_neg he]
      exact ih ho (index + 1)

/-- Behind a heading, the starts are those of the rest, which begins behind the body. -/
theorem headings_cons_append {d : UInt32} {heading : Entry} {body : Outline} (here : heading.depth = d)
    (inside : ∀ x ∈ body, x.depth ≠ d) (rest : Outline) (index : Nat) :
    headings d index (heading :: (body ++ rest)) ++ [index + (heading :: (body ++ rest)).length] =
      index :: (headings d (index + 1 + body.length) rest ++
        [index + 1 + body.length + rest.length]) := by
  have hend : index + (heading :: (body ++ rest)).length = index + 1 + body.length + rest.length := by
    rw [List.length_cons, List.length_append]
    omega
  rw [headings, if_pos here, headings_append, headings_eq_nil inside, List.nil_append, hend,
    List.cons_append]

/-- The headings stand where the children start, and the last child ends with the outline. -/
theorem Cut.headings_eq {d : UInt32} {o : Outline} {bodies : List Outline} (h : Cut d o bodies)
    (index : Nat) : headings d index o ++ [index + o.length] =
      (List.range (bodies.length + 1)).map fun i => index + startOf bodies i := by
  induction h generalizing index with
  | nil => rfl
  | @cons first body rest bodies here inside _ ih =>
      have hlater : (fun i => index + startOf (body :: bodies) i) ∘ Nat.succ =
          fun i => index + 1 + body.length + startOf bodies i := by
        funext i
        rw [Function.comp_apply, startOf]
        omega
      rw [headings_cons_append here inside, ih, List.length_cons,
        List.range_succ_eq_map (n := bodies.length + 1), List.map_cons, List.map_map, hlater]
      rfl

/-- The starts of the children follow from the lengths of their bodies. -/
theorem childStarts_eq (o : Outline) :
    o.childStarts = (List.range (o.bodies.length + 1)).map (startOf o.bodies) := by
  cases o with
  | nil => rfl
  | cons e rest =>
      have hstarts := (cut_bodies e rest).headings_eq 0
      simp only [Nat.zero_add] at hstarts
      exact hstarts

end Outline

end Likeness
