import Likeness.Proofs.Outline.Preorder

/-!
# Likeness.Proofs.Outline.Levels

The topmost levels of an outline.

Leaving out all entries below some depth is cutting the forest off at that depth
(`Outline.IsPreorder.upTo`). Between two neighbours that stay there stood only entries that were
deeper than both allow, that is whole subtrees, so what stays is the preorder of what is left of the
forest. The roots stay as long as the limit is not above them, and each child is cut for itself
(`Outline.roots_upTo`, `Outline.bodies_upTo`).
-/

namespace Likeness

/-! ### Levels of a forest -/

mutual
/-- A tree with no more than some levels below its root. -/
def Tree.top : (levels : Nat) → Tree → Tree
  | levels, .node label children => .node label (Forest.top levels children)
/-- The topmost levels of a forest. -/
def Forest.top : (levels : Nat) → List Tree → List Tree
  | _, [] => []
  | 0, _ :: _ => []
  | levels + 1, t :: rest => t.top levels :: Forest.top (levels + 1) rest
end

theorem Tree.children_top (levels : Nat) (t : Tree) :
    (t.top levels).children = Forest.top levels t.children := by
  cases t
  rfl

namespace Forest

@[simp] theorem top_zero (F : Forest) : top 0 F = [] := by
  cases F <;> rfl

theorem top_succ (levels : Nat) (F : Forest) : top (levels + 1) F = F.map (Tree.top levels) := by
  induction F with
  | nil => rfl
  | cons t F ih => rw [top, ih, List.map_cons]

/-- What a forest with its roots at a depth has down to a limit. -/
def upTo (limit : Option UInt32) (depth : Nat) (F : Forest) : Forest :=
  match limit with
  | none => F
  | some d => top (d.toNat + 1 - depth) F

theorem upTo_eq_map {depth : Nat} {d : UInt32} (h : depth ≤ d.toNat) (F : Forest) :
    upTo (some d) depth F = F.map (Tree.top (d.toNat - depth)) := by
  rw [upTo, Nat.succ_sub h, top_succ]

end Forest

mutual
theorem Tree.Fits.top {depth : Nat} : ∀ {t : Tree} (levels : Nat), t.Fits depth →
    (t.top levels).Fits depth
  | .node _ _, levels, h => ⟨h.1, Forest.Fits.top levels h.2⟩
theorem Forest.Fits.top {depth : Nat} : ∀ {F : List Tree} (levels : Nat), Forest.Fits depth F →
    Forest.Fits depth (Forest.top levels F)
  | [], _, _ => trivial
  | _ :: _, 0, _ => trivial
  | _ :: _, levels + 1, h => ⟨Tree.Fits.top levels h.1, Forest.Fits.top (levels + 1) h.2⟩
end

mutual
/-- The root of a tree stays, and its children are cut one level below it. -/
theorem Tree.filter_flatten {depth : Nat} {d : UInt32} (hd : depth ≤ d.toNat) : ∀ {t : Tree},
    t.Fits depth → (t.flatten depth).filter (·.depth ≤ d) =
      (t.top (d.toNat - depth)).flatten depth
  | .node label children, h => by
      obtain ⟨hlt, hchildren⟩ := h
      have hroot : UInt32.ofNat depth ≤ d := by
        rw [UInt32.le_iff_toNat_le, UInt32.toNat_ofNat_of_lt' hlt]
        exact hd
      have hbelow := Forest.filter_flatten (d := d) hchildren
      rw [Nat.add_sub_add_right] at hbelow
      rw [Tree.flatten, List.filter_cons_of_pos (by simpa using hroot), hbelow]
      rfl
/-- The entries down to a depth are the preorder of the levels down to it. -/
theorem Forest.filter_flatten {depth : Nat} {d : UInt32} : ∀ {F : List Tree},
    Forest.Fits depth F → (Forest.flatten depth F).filter (·.depth ≤ d) =
      Forest.flatten depth (Forest.top (d.toNat + 1 - depth) F)
  | [], _ => rfl
  | t :: rest, h => by
      rcases Nat.lt_or_ge d.toNat depth with hlt | hle
      · -- Even the roots are too deep.
        rw [Nat.sub_eq_zero_of_le hlt, Forest.top_zero, Forest.flatten_nil, List.filter_eq_nil_iff]
        intro e he
        have hdeep := Forest.le_depth h e he
        rw [decide_eq_true_eq, UInt32.le_iff_toNat_le]
        omega
      · have hhere := Tree.filter_flatten hle h.1
        have hbeside := Forest.filter_flatten (d := d) h.2
        rw [Nat.succ_sub hle] at hbeside ⊢
        rw [Forest.flatten, List.filter_append, hhere, hbeside]
        rfl
end

namespace Outline

variable {o : Outline} {limit : Option UInt32}

/-- **An outline down to a limit is the preorder of its forest down to that limit.** -/
theorem IsPreorder.upTo {depth : Nat} {F : Forest} (h : o.IsPreorder depth F)
    (limit : Option UInt32) : (o.upTo limit).IsPreorder depth (F.upTo limit depth) := by
  obtain ⟨hfits, rfl⟩ := h
  cases limit with
  | none => exact ⟨hfits, rfl⟩
  | some d => exact ⟨hfits.top _, (Forest.filter_flatten hfits).symm⟩

theorem WellNested.upTo (h : o.WellNested) (limit : Option UInt32) : (o.upTo limit).WellNested := by
  rw [wellNested_iff_exists_isPreorder] at h ⊢
  obtain ⟨depth, F, hF⟩ := h
  exact ⟨depth, _, hF.upTo limit⟩

/-- Of two limits the tighter one counts. -/
theorem upTo_upTo (o : Outline) (m n : Option UInt32) :
    (o.upTo n).upTo m = o.upTo (m.merge min n) := by
  cases m with
  | none => cases n <;> rfl
  | some m =>
      cases n with
      | none => rfl
      | some n =>
          rw [upTo, upTo, List.filter_filter]
          refine List.filter_congr fun e _ => ?_
          rw [← Bool.decide_and, decide_eq_decide]
          exact Std.le_min_iff.symm

/-! ### Children -/

/-- The headings of the children. -/
def roots (o : Outline) : Outline :=
  match o with
  | [] => []
  | e :: _ => o.filter (·.depth = e.depth)

/-- The limit does not lie above the first entry. -/
def Reaches (o : Outline) (limit : Option UInt32) : Prop :=
  ∀ e ∈ o.head?, ∀ d ∈ limit, e.depth ≤ d

/-- A limit that is not above the roots keeps all of them. -/
theorem roots_upTo (h : o.Reaches limit) : (o.upTo limit).roots = o.roots := by
  cases limit with
  | none => rfl
  | some d =>
      cases o with
      | nil => rfl
      | cons e rest =>
          have hfirst : e.depth ≤ d := h e rfl d rfl
          have hhead : Outline.upTo (some d) (e :: rest) = e :: rest.filter (·.depth ≤ d) := by
            rw [Outline.upTo, List.filter_cons_of_pos (by simpa using hfirst)]
          have hroots : roots (e :: rest.filter (·.depth ≤ d)) =
              (Outline.upTo (some d) (e :: rest)).filter (·.depth = e.depth) := by
            rw [hhead]
            rfl
          have hstay (x : Entry) : x.depth = e.depth ∧ x.depth ≤ d ↔ x.depth = e.depth :=
            ⟨fun hx => hx.1, fun hx => ⟨hx, hx ▸ hfirst⟩⟩
          rw [hhead, hroots, Outline.upTo, List.filter_filter]
          simp only [← Bool.decide_and, hstay]
          rfl

/-- A limit that is not above the roots applies to each child by itself. -/
theorem bodies_upTo (ho : o.WellNested) (h : o.Reaches limit) :
    (o.upTo limit).bodies = o.bodies.map (Outline.upTo limit) := by
  cases limit with
  | none => exact (List.map_id _).symm
  | some d =>
      obtain ⟨depth, F, hF⟩ := wellNested_iff_exists_isPreorder.mp ho
      obtain ⟨hfits, hflatten⟩ := hF.upTo (some d)
      cases o with
      | nil => rfl
      | cons e rest =>
          have hdepth : depth ≤ d.toNat := by
            have hfirst : e.depth.toNat = depth := hF.depth_head rfl
            exact hfirst ▸ UInt32.le_iff_toNat_le.mp (h e rfl d rfl)
          rw [← hflatten, Forest.bodies_flatten hfits, ← hF.flatten, Forest.bodies_flatten hF.fits,
            Forest.upTo_eq_map hdepth, List.map_map, List.map_map]
          refine List.map_congr_left fun t ht => ?_
          have hchild := Forest.filter_flatten (d := d) (hF.fits.children ht)
          rw [Nat.add_sub_add_right] at hchild
          rw [Function.comp_apply, Function.comp_apply, Tree.children_top, ← hchild]
          rfl

end Outline

end Likeness
