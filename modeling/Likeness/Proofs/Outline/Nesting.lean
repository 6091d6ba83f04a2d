import Mathlib.Data.List.Chain
import Mathlib.Data.List.TakeWhile
import Likeness.Proofs.Outline.Forest

/-!
# Likeness.Proofs.Outline.Nesting

The well nested outlines are the preorders of forests.

What the check accepts is a list in which no entry lies above the first and each lies at most one
level below the entry before it (`Outline.wellNested_cons`). Such a list is cut at its second root
into what lies inside the first tree and what lies beside it, and both are lists of this kind
again.

An outline is *reordered* by moving siblings about. What can be followed through an exchange of two
neighbours and through a change inside one child holds of all reorderings (`Outline.Stepwise`).
-/

namespace Likeness

/-! ### The check, entry by entry -/

namespace Outline

/-- One entry lies at most one level below another. -/
def Follows (p e : Entry) : Prop := e.depth.toNat ≤ p.depth.toNat + 1

theorem checkFrom_eq_ok {base : UInt32} {p : Entry} {index : Nat} {o : Outline} :
    checkFrom base p.depth index o = .ok () ↔
      (∀ e ∈ o, base ≤ e.depth) ∧ List.IsChain Follows (p :: o) := by
  induction o generalizing p index with
  | nil => simp [checkFrom]
  | cons e rest ih =>
      simp only [checkFrom, List.forall_mem_cons, List.isChain_cons_cons, Follows]
      split
      next hout =>
        rw [← Nat.not_le, ← UInt32.not_le] at hout
        simp only [reduceCtorEq, false_iff]
        tauto
      next hin =>
        rw [not_or, UInt32.not_lt, Nat.not_lt] at hin
        rw [ih]
        tauto

theorem wellNested_cons {e : Entry} {rest : Outline} :
    WellNested (e :: rest) ↔
      (∀ x ∈ rest, e.depth ≤ x.depth) ∧ List.IsChain Follows (e :: rest) := checkFrom_eq_ok

end Outline

open Outline

/-! ### Forests are well nested -/

mutual
theorem Tree.isChain {depth : Nat} : ∀ {t : Tree}, t.Fits depth →
    List.IsChain Follows (t.flatten depth)
  | .node label children, h => by
      obtain ⟨hlt, hchildren⟩ := h
      refine List.isChain_cons.mpr ⟨fun e he => ?_, Forest.isChain hchildren⟩
      rcases Forest.flatten_eq_nil_or_cons (depth + 1) children with heq | ⟨l, rest, heq⟩
      · simp [heq] at he
      · obtain rfl : ⟨.ofNat (depth + 1), l⟩ = e := by simpa [heq] using he
        simp only [Follows, UInt32.toNat_ofNat', Nat.mod_eq_of_lt hlt]
        exact Nat.mod_le _ _
theorem Forest.isChain {depth : Nat} : ∀ {F : List Tree}, Forest.Fits depth F →
    List.IsChain Follows (Forest.flatten depth F)
  | [], _ => .nil
  | t :: F, h => by
      refine List.isChain_append.mpr ⟨Tree.isChain h.1, Forest.isChain h.2, fun x hx y hy => ?_⟩
      have hlow := Tree.le_depth h.1 x (List.mem_of_mem_getLast? hx)
      rcases Forest.flatten_eq_nil_or_cons depth F with heq | ⟨l, rest, heq⟩
      · simp [heq] at hy
      · obtain rfl : ⟨.ofNat depth, l⟩ = y := by simpa [heq] using hy
        refine le_trans ?_ (Nat.le_succ_of_le hlow)
        rw [UInt32.toNat_ofNat']
        exact Nat.mod_le _ _
end

theorem Forest.wellNested {depth : Nat} {F : Forest} (hF : Forest.Fits depth F) :
    (Forest.flatten depth F).WellNested := by
  have hchain := Forest.isChain hF
  have hlow := Forest.le_depth hF
  rcases Forest.flatten_eq_nil_or_cons depth F with heq | ⟨l, rest, heq⟩
  · rw [heq]
    rfl
  · rw [heq] at hchain hlow ⊢
    refine wellNested_cons.mpr ⟨fun x hx => ?_, hchain⟩
    have hle := hlow x (List.mem_cons_of_mem _ hx)
    rw [UInt32.le_iff_toNat_le, UInt32.toNat_ofNat']
    exact le_trans (Nat.mod_le _ _) hle

/-! ### Well nested outlines are forests -/

/-- A part of a well nested outline is the preorder of a forest. The induction is on its length:
cutting it at the second root leaves two shorter parts. -/
theorem Forest.exists_of_isChain {depth : Nat} {o : Outline}
    (hbelow : ∀ e ∈ o, depth ≤ e.depth.toNat) (hhead : ∀ e ∈ o.head?, e.depth.toNat = depth)
    (hchain : List.IsChain Follows o) :
    ∃ F : Forest, Forest.Fits depth F ∧ Forest.flatten depth F = o := by
  induction hn : o.length using Nat.strong_induction_on generalizing depth o with
  | _ n ih =>
      subst hn
      cases o with
      | nil => exact ⟨[], trivial, rfl⟩
      | cons e rest =>
          have hdepth : e.depth.toNat = depth := hhead e rfl
          -- Everything up to the next root lies inside the first tree.
          let here : Entry → Bool := fun x => x.depth ≠ e.depth
          have hcut : rest.takeWhile here ++ rest.dropWhile here = rest :=
            List.takeWhile_append_dropWhile
          have hinside : ∀ x ∈ rest.takeWhile here, x.depth ≠ e.depth := fun x hx => by
            simpa [here] using List.mem_takeWhile_imp hx
          have hnext : ∀ x ∈ (rest.dropWhile here).head?, x.depth = e.depth := by
            intro x hx
            have hhead := List.head?_dropWhile_not here rest
            rw [hx] at hhead
            simpa [here] using hhead
          generalize rest.takeWhile here = inside at *
          generalize rest.dropWhile here = beside at *
          subst hcut
          rw [← List.cons_append] at hchain
          obtain ⟨hchainInside, hchainBeside, -⟩ := List.isChain_append.mp hchain
          obtain ⟨hfirst, hchainInside⟩ := List.isChain_cons.mp hchainInside
          have hlow : ∀ x ∈ inside, depth + 1 ≤ x.depth.toNat := by
            intro x hx
            have hle := hbelow x (by simp [hx])
            have hne : x.depth.toNat ≠ depth := fun heq =>
              hinside x hx (UInt32.toNat_inj.mp (heq.trans hdepth.symm))
            omega
          obtain ⟨children, hfitsInside, rfl⟩ := ih inside.length
            (by simp only [List.length_cons, List.length_append]; omega) hlow
            (fun x hx => by
              have hle := hfirst x hx
              have hge := hlow x (List.mem_of_mem_head? hx)
              rw [Follows] at hle
              omega) hchainInside rfl
          obtain ⟨siblings, hfitsBeside, rfl⟩ := ih beside.length
            (by simp only [List.length_cons, List.length_append]; omega)
            (fun x hx => hbelow x (by simp [hx])) (fun x hx => by rw [hnext x hx, hdepth])
            hchainBeside rfl
          refine ⟨.node e.label children :: siblings, ⟨⟨?_, hfitsInside⟩, hfitsBeside⟩, ?_⟩
          · exact hdepth ▸ e.depth.toNat_lt
          · rw [Forest.flatten_cons, ← hdepth]
            simp

/-- The well nested outlines are the preorders of forests. -/
theorem Outline.wellNested_iff {o : Outline} :
    o.WellNested ↔
      ∃ (depth : Nat) (F : Forest), Forest.Fits depth F ∧ Forest.flatten depth F = o := by
  constructor
  · intro h
    cases o with
    | nil => exact ⟨0, [], trivial, rfl⟩
    | cons e rest =>
        obtain ⟨hlow, hchain⟩ := wellNested_cons.mp h
        exact ⟨e.depth.toNat, Forest.exists_of_isChain
          (List.forall_mem_cons.mpr ⟨le_rfl, fun x hx => UInt32.le_iff_toNat_le.mp (hlow x hx)⟩)
          (by simp) hchain⟩
  · rintro ⟨depth, F, hF, rfl⟩
    exact Forest.wellNested hF

/-- What lies below a node of a well nested outline is well nested. -/
theorem Outline.WellNested.of_mem_bodies {o x : Outline} (h : o.WellNested) (hx : x ∈ o.bodies) :
    x.WellNested := by
  obtain ⟨depth, F, hF, rfl⟩ := wellNested_iff.mp h
  rw [Forest.bodies_flatten hF] at hx
  obtain ⟨t, ht, rfl⟩ := List.mem_map.mp hx
  exact Forest.wellNested (hF.children ht)

/-! ### Siblings in another order -/

/-- One well nested outline comes from another by putting the children of any nodes, those at the
top included, in another order. -/
def Outline.Reordered (a a' : Outline) : Prop :=
  ∃ (depth : Nat) (F F' : Forest), Forest.Fits depth F ∧ Forest.Reordering F F' ∧
    Forest.flatten depth F = a ∧ Forest.flatten depth F' = a'

theorem Outline.Reordered.length_eq {a a' : Outline} (h : Reordered a a') :
    a'.length = a.length := by
  obtain ⟨depth, F, F', -, hreordering, rfl, rfl⟩ := h
  exact hreordering.length_flatten depth

theorem Outline.Reordered.symm {a a' : Outline} (h : Reordered a a') : Reordered a' a := by
  obtain ⟨depth, F, F', hfits, hreordering, rfl, rfl⟩ := h
  exact ⟨depth, F', F, hreordering.fits hfits, hreordering.symm, rfl, rfl⟩

/-- A relation between outlines that can be followed through a reordering step by step: two
neighbouring children change places, or one child is replaced by another that it is related to. -/
structure Outline.Stepwise (R : Outline → Outline → Prop) : Prop where
  refl : ∀ a, R a a
  trans : ∀ {a a' a'' : Outline}, R a a' → R a' a'' → R a a''
  swap : ∀ {a a' : Outline} {before after : List Outline} {x y : Outline},
    a'.length = a.length → a.bodies = before ++ x :: y :: after →
    a'.bodies = before ++ y :: x :: after → R a a'
  replace : ∀ {a a' : Outline} {before after : List Outline} {x x' : Outline},
    a'.length = a.length → a.bodies = before ++ x :: after → a'.bodies = before ++ x' :: after →
    x'.length = x.length → R x x' → R a a'

open Forest in
/-- Reordering the last trees of a forest. The induction is on the reordering; what has been
reordered already stands before it. -/
theorem Outline.Stepwise.flatten {R : Outline → Outline → Prop} (hR : Stepwise R) {F F' : Forest}
    (h : Reordering F F') {depth : Nat} {before : Forest} (hfits : Fits depth (before ++ F)) :
    R (Forest.flatten depth (before ++ F)) (Forest.flatten depth (before ++ F')) := by
  induction h generalizing depth before with
  | nil => exact hR.refl _
  | @cons children children' rest rest' label inside beside ihInside ihBeside =>
      -- First below the root ...
      have hfirst : Reordering (before ++ .node label children :: rest)
          (before ++ .node label children' :: rest) :=
        (Reordering.cons label inside (.refl rest)).append_left before
      have hfits' := hfirst.fits hfits
      have hfitsInside := (fits_cons.mp (fits_append.mp hfits).2).1.2
      have hreplaced := hR.replace (hfirst.length_flatten depth)
        ((bodies_flatten hfits).trans List.map_append)
        ((bodies_flatten hfits').trans List.map_append)
        (inside.length_flatten (depth + 1)) (@ihInside (depth + 1) [] hfitsInside)
      -- ... then beside it.
      rw [List.append_cons] at hfits'
      have hbeside := ihBeside hfits'
      rw [← List.append_cons, ← List.append_cons] at hbeside
      exact hR.trans hreplaced hbeside
  | swap t u rest =>
      have hswapped := (Reordering.swap t u rest).append_left before
      exact hR.swap (hswapped.length_flatten depth)
        ((bodies_flatten hfits).trans List.map_append)
        ((bodies_flatten (hswapped.fits hfits)).trans List.map_append)
  | trans first second ihFirst ihSecond =>
      exact hR.trans (ihFirst hfits) (ihSecond ((first.append_left before).fits hfits))

theorem Outline.Stepwise.reordered {R : Outline → Outline → Prop} (hR : Stepwise R)
    {a a' : Outline} (h : Reordered a a') : R a a' := by
  obtain ⟨depth, F, F', hfits, hreordering, rfl, rfl⟩ := h
  exact @Stepwise.flatten R hR F F' hreordering depth [] hfits

/-- Any of the children can be put before the others. -/
theorem Outline.WellNested.exists_reordered {o : Outline} (h : o.WellNested) (p : Outline → Bool) :
    ∃ o', Reordered o o' ∧ o'.bodies = o.bodies.filter p ++ o.bodies.filter fun x => !p x := by
  obtain ⟨depth, F, hF, rfl⟩ := wellNested_iff.mp h
  let body (t : Tree) : Outline := Forest.flatten (depth + 1) t.children
  have hreordering : Forest.Reordering F (F.filter (p ∘ body) ++ F.filter fun t => !p (body t)) :=
    .of_perm (List.filter_append_perm (p ∘ body) F).symm
  refine ⟨_, ⟨depth, F, _, hF, hreordering, rfl, rfl⟩, ?_⟩
  rw [Forest.bodies_flatten hF, Forest.bodies_flatten (hreordering.fits hF), List.map_append,
    List.filter_map, List.filter_map]
  rfl

theorem Outline.reordered_self {a : Outline} : Reordered a a ↔ a.WellNested := by
  rw [wellNested_iff]
  constructor
  · rintro ⟨depth, F, -, hF, -, rfl, -⟩
    exact ⟨depth, F, hF, rfl⟩
  · rintro ⟨depth, F, hF, rfl⟩
    exact ⟨depth, F, F, hF, .refl F, rfl, rfl⟩

end Likeness
