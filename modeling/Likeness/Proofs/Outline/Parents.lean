import Likeness.Proofs.Outline.Children
import Likeness.Proofs.Outline.Nesting

/-!
# Likeness.Proofs.Outline.Parents

The parents of the entries of an outline.

The parent of an entry is the last entry before it that lies above it. In a well nested outline the
headings of the children have no parent, and an entry of a body has the parent that it has in the
body, or else the heading of the child (`Outline.WellNested.childAt`).
-/

namespace Likeness

namespace Outline

/-! ### Parents -/

def depthAt (o : Outline) (i : Nat) : UInt32 := (o[i]?.getD default).depth

/-- The last of the first `k` entries that lie above a depth. -/
def lastAbove (o : Outline) (depth : UInt32) : Nat → Option Nat
  | 0 => none
  | k + 1 => if o.depthAt k < depth then some k else lastAbove o depth k

/-- The parent of an entry. The entries at the top have none. -/
def parent? (o : Outline) (i : Nat) : Option Nat := o.lastAbove (o.depthAt i) i

theorem depthAt_of_lt {o : Outline} {i : Nat} (h : i < o.length) : o.depthAt i = o[i].depth := by
  simp [depthAt, h]

theorem depthAt_append_left {o after : Outline} {i : Nat} (h : i < o.length) :
    (o ++ after).depthAt i = o.depthAt i := by
  rw [depthAt, List.getElem?_append_left h, depthAt]

theorem depthAt_append_right (before o : Outline) (i : Nat) :
    (before ++ o).depthAt (before.length + i) = o.depthAt i := by
  rw [depthAt, List.getElem?_append_right (Nat.le_add_right ..), Nat.add_sub_cancel_left, depthAt]

theorem depthAt_heading (before rest : Outline) (heading : Entry) :
    depthAt (before ++ heading :: rest) before.length = heading.depth :=
  depthAt_append_right before (heading :: rest) 0

theorem depthAt_body (before body after : Outline) (heading : Entry) {k : Nat}
    (hk : k < body.length) :
    depthAt (before ++ heading :: (body ++ after)) (before.length + 1 + k) = body.depthAt k := by
  rw [Nat.add_assoc, depthAt_append_right, Nat.add_comm 1 k]
  exact depthAt_append_left hk

theorem lastAbove_eq_none {o : Outline} {depth : UInt32} {k : Nat} :
    o.lastAbove depth k = none ↔ ∀ i < k, depth ≤ o.depthAt i := by
  induction k with
  | zero => simp [lastAbove]
  | succ k ih =>
      rw [lastAbove, Nat.forall_lt_succ_right]
      by_cases habove : o.depthAt k < depth
      · have hnot : ¬ depth ≤ o.depthAt k := fun hle => UInt32.not_lt.mpr hle habove
        simp [habove, hnot]
      · rw [if_neg habove, ih]
        exact (and_iff_left (UInt32.not_lt.mp habove)).symm

theorem lastAbove_eq_some {o : Outline} {depth : UInt32} {k j : Nat}
    (h : o.lastAbove depth k = some j) :
    j < k ∧ o.depthAt j < depth ∧ ∀ i < k, j < i → depth ≤ o.depthAt i := by
  induction k with
  | zero => cases h
  | succ k ih =>
      rw [lastAbove] at h
      split at h
      next habove =>
        cases h
        exact ⟨Nat.lt_succ_self j, habove, fun i hi hlt => by omega⟩
      next hbelow =>
        obtain ⟨hlt, habove, hbetween⟩ := ih h
        refine ⟨Nat.lt_succ_of_lt hlt, habove, fun i hi hji => ?_⟩
        by_cases hik : i = k
        · rw [hik]
          exact UInt32.not_lt.mp hbelow
        · exact hbetween i (by omega) hji

/-- In a well nested outline an entry lies one level below its parent, and it is at the level of the
first entry if it has none. -/
theorem WellNested.depth_parent {o : Outline} (h : o.WellNested) {i : Nat} (hi : i < o.length) :
    (o.depthAt i).toNat =
      (o.parent? i).elim (o.depthAt 0).toNat fun j => (o.depthAt j).toNat + 1 := by
  cases o with
  | nil => exact absurd hi (Nat.not_lt_zero i)
  | cons e rest =>
      obtain ⟨hlow, hchain⟩ := wellNested_cons.mp h
      cases hparent : parent? (e :: rest) i with
      | none =>
          have hhere : e.depth ≤ depthAt (e :: rest) i := by
            rw [depthAt_of_lt hi]
            rcases List.mem_cons.mp (List.getElem_mem hi) with heq | hmem
            · rw [heq]
              exact UInt32.le_refl _
            · exact hlow _ hmem
          have hfirst : depthAt (e :: rest) i ≤ e.depth := by
            cases i with
            | zero => exact UInt32.le_refl _
            | succ i => exact lastAbove_eq_none.mp hparent 0 (Nat.succ_pos i)
          exact congrArg UInt32.toNat (UInt32.le_antisymm hfirst hhere)
      | some j =>
          obtain ⟨hlt, habove, hbetween⟩ := lastAbove_eq_some hparent
          have habove := UInt32.lt_iff_toNat_lt.mp habove
          have hnext : j + 1 < (e :: rest).length := by omega
          have hfollows := List.isChain_iff_getElem.mp hchain j hnext
          rw [Follows, ← depthAt_of_lt, ← depthAt_of_lt] at hfollows
          have hle : (depthAt (e :: rest) i).toNat ≤ (depthAt (e :: rest) (j + 1)).toNat := by
            by_cases hji : j + 1 = i
            · rw [hji]
            · exact UInt32.le_iff_toNat_le.mp (hbetween (j + 1) (by omega) (by omega))
          simp only [Option.elim_some]
          omega

/-- Looking for what lies above inside a body ends at the heading of the body. -/
theorem lastAbove_body {before body after : Outline} {heading : Entry} {depth : UInt32}
    (hheading : heading.depth < depth) {k : Nat} (hk : k ≤ body.length) :
    (before ++ heading :: (body ++ after)).lastAbove depth (before.length + 1 + k) =
      some ((body.lastAbove depth k).elim before.length (before.length + 1 + ·)) := by
  induction k with
  | zero =>
      change (if _ < depth then some before.length else _) = _
      rw [depthAt_heading, if_pos hheading]
      rfl
  | succ k ih =>
      rw [← Nat.add_assoc, lastAbove, depthAt_body before body after heading hk, lastAbove]
      split
      · rfl
      · exact ih (Nat.le_of_succ_le hk)

/-! ### Children in their place -/

/-- A child of an outline in its place: the position of its heading, and its body. -/
structure ChildAt (o : Outline) (start : Nat) (body : Outline) : Prop where
  fits : start + 1 + body.length ≤ o.length
  top : o.parent? start = none
  below : ∀ k < body.length,
    o.parent? (start + 1 + k) = some ((body.parent? k).elim start (start + 1 + ·))

theorem WellNested.childAt {o : Outline} (h : o.WellNested) {i : Nat} (hi : i < o.bodies.length) :
    ChildAt o (startOf o.bodies i) (o.bodies[i]) := by
  cases o with
  | nil => exact absurd hi (Nat.not_lt_zero i)
  | cons e rest =>
      obtain ⟨before, heading, after, hsplit, hlength, hheading, hbody⟩ :=
        (cut_bodies e rest).exists_split hi
      generalize (bodies (e :: rest))[i] = body at *
      rw [← hlength]
      -- No entry lies above the first, which is as deep as the heading.
      have hlow : ∀ x ∈ e :: rest, heading.depth ≤ x.depth := by
        rw [hheading]
        exact List.forall_mem_cons.mpr ⟨UInt32.le_refl _, (wellNested_cons.mp h).1⟩
      rw [hsplit] at hlow ⊢
      constructor
      · simp only [List.length_append, List.length_cons]
        omega
      · rw [parent?, depthAt_heading]
        refine lastAbove_eq_none.mpr fun k hk => ?_
        rw [depthAt_append_left hk, depthAt_of_lt hk]
        exact hlow _ (List.mem_append_left _ (List.getElem_mem hk))
      · intro k hk
        have hhere := depthAt_body before body after heading hk
        have hdeeper : heading.depth < body.depthAt k := by
          rw [depthAt_of_lt hk]
          have hmem := List.getElem_mem hk
          have hle := hlow body[k] (by simp [hmem])
          rw [hheading] at hle ⊢
          exact UInt32.lt_of_le_of_ne hle (hbody _ hmem).symm
        rw [parent?, hhere, lastAbove_body hdeeper hk.le, parent?]

end Outline

end Likeness
