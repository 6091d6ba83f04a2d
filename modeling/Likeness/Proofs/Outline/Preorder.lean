import Mathlib.Order.Basic
import Likeness.Proofs.Outline.Nesting

/-!
# Likeness.Proofs.Outline.Preorder

The check of an outline as a statement about forests (`Outline.check_exact`).

That the outlines which pass are the preorders of forests is `Outline.wellNested_iff`. Here the forest
is shown to be the only one: its labels and the entries below each root can be read off the outline
(`Forest.flatten_injective`). And an outline that does not pass is cut at the entry that is out of
place (`Outline.exists_of_check_eq_error`): what stands before that entry passes, and with the entry it
does not.
-/

namespace Likeness

/-! ### One forest -/

/-- A forest is known from its preorder. The induction goes along the roots and below each of them, so
it is on the number of nodes. -/
theorem Forest.flatten_injective {depth : Nat} {F G : Forest} (hF : Forest.Fits depth F)
    (hG : Forest.Fits depth G) (h : Forest.flatten depth F = Forest.flatten depth G) : F = G := by
  induction hn : Forest.size F using Nat.strong_induction_on generalizing depth F G with
  | _ n ih =>
      subst hn
      cases F with
      | nil => exact (Forest.flatten_eq_nil.mp h.symm).symm
      | cons s F =>
          cases G with
          | nil => exact Forest.flatten_eq_nil.mp h
          | cons t G =>
              obtain ⟨label, children⟩ := s
              obtain ⟨label', children'⟩ := t
              obtain ⟨⟨hdepth, hchildren⟩, hrest⟩ := Forest.fits_cons.mp hF
              obtain ⟨⟨-, hchildren'⟩, hrest'⟩ := Forest.fits_cons.mp hG
              rw [Forest.flatten_cons, Forest.flatten_cons] at h
              obtain ⟨hroot, hbehind⟩ := List.cons.inj h
              obtain ⟨htake, hdrop⟩ := Forest.span_below hdepth (Forest.le_depth hchildren) F
              obtain ⟨htake', hdrop'⟩ := Forest.span_below hdepth (Forest.le_depth hchildren') G
              -- Both preorders are cut at the next root.
              rw [hbehind] at htake hdrop
              have hlabel : label = label' := congrArg Entry.label hroot
              have hbelow : children = children' :=
                ih _ (by simp only [Forest.size, Tree.size]; omega) hchildren hchildren'
                  (htake.symm.trans htake') rfl
              have hbeside : F = G :=
                ih _ (by simp only [Forest.size, Tree.size]; omega) hrest hrest'
                  (hdrop.symm.trans hdrop') rfl
              rw [hlabel, hbelow, hbeside]

namespace Outline

/-- An outline is the preorder of a forest whose roots lie at a depth. -/
structure IsPreorder (o : Outline) (depth : Nat) (F : Forest) : Prop where
  fits : Forest.Fits depth F
  flatten : Forest.flatten depth F = o

/-- The first entry lies at the depth of the roots. -/
theorem IsPreorder.depth_head {o : Outline} {depth : Nat} {F : Forest} (h : o.IsPreorder depth F)
    {e : Entry} (he : e ∈ o.head?) : e.depth.toNat = depth := by
  obtain ⟨hfits, rfl⟩ := h
  cases F with
  | nil => cases he
  | cons t F =>
      obtain ⟨label, children⟩ := t
      rw [Forest.flatten_cons, List.head?_cons, Option.mem_some_iff] at he
      rw [← he]
      exact UInt32.toNat_ofNat_of_lt' hfits.1.1

/-- What lies below a node is the preorder of a forest one level down. -/
theorem IsPreorder.of_mem_bodies {o x : Outline} {depth : Nat} {F : Forest} (h : o.IsPreorder depth F)
    (hx : x ∈ o.bodies) : ∃ G, x.IsPreorder (depth + 1) G := by
  obtain ⟨hfits, rfl⟩ := h
  rw [Forest.bodies_flatten hfits] at hx
  obtain ⟨t, ht, rfl⟩ := List.mem_map.mp hx
  exact ⟨t.children, hfits.children ht, rfl⟩

/-- An outline with entries is the preorder of at most one forest, at one depth. -/
theorem IsPreorder.unique {o : Outline} {depth depth' : Nat} {F F' : Forest} (ho : o ≠ [])
    (h : o.IsPreorder depth F) (h' : o.IsPreorder depth' F') : depth = depth' ∧ F = F' := by
  have hhead := List.head_mem_head? ho
  obtain rfl : depth = depth' := (h.depth_head hhead).symm.trans (h'.depth_head hhead)
  exact ⟨rfl, Forest.flatten_injective h.fits h'.fits (h.flatten.trans h'.flatten.symm)⟩

theorem wellNested_iff_exists_isPreorder {o : Outline} :
    o.WellNested ↔ ∃ depth F, o.IsPreorder depth F := by
  rw [wellNested_iff]
  constructor
  · intro ⟨depth, F, hfits, hflatten⟩
    exact ⟨depth, F, hfits, hflatten⟩
  · intro ⟨depth, F, hfits, hflatten⟩
    exact ⟨depth, F, hfits, hflatten⟩

/-! ### The entry that is out of place -/

/-- What starts a well nested outline is well nested. -/
theorem WellNested.take {o : Outline} (h : o.WellNested) (n : Nat) : WellNested (o.take n) := by
  cases n with
  | zero => rfl
  | succ n =>
      cases o with
      | nil => rfl
      | cons e rest =>
          obtain ⟨hlow, hchain⟩ := wellNested_cons.mp h
          rw [List.take_succ_cons]
          refine wellNested_cons.mpr ⟨fun x hx => hlow x (List.mem_of_mem_take hx), ?_⟩
          exact hchain.take (n + 1)

/-- Checking fails at an entry that is out of place behind entries that are not. -/
theorem exists_of_checkFrom_eq_error {base : UInt32} {p : Entry} {index : Nat} {o : Outline}
    {m : Misnesting} (h : checkFrom base p.depth index o = .error m) :
    ∃ before e after q, o = before ++ e :: after ∧ (p :: before).getLast? = some q ∧
      m = ⟨index + before.length, e.depth, q.depth, base⟩ ∧
      checkFrom base p.depth index (before ++ [e]) = .error m ∧
      checkFrom base p.depth index before = .ok () := by
  induction o generalizing p index with
  | nil => cases h
  | cons e rest ih =>
      rw [checkFrom] at h
      split at h
      next hout =>
        refine ⟨[], e, rest, p, rfl, rfl, (Except.error.inj h).symm, ?_, rfl⟩
        simp only [List.nil_append, checkFrom, hout, if_true]
        exact h
      next hin =>
        obtain ⟨before, x, after, q, rfl, hlast, rfl, hfails, hpasses⟩ := ih h
        refine ⟨e :: before, x, after, q, rfl, by simpa using hlast, ?_, ?_, ?_⟩
        · rw [List.length_cons, Nat.add_comm before.length 1, Nat.add_assoc]
        · rw [List.cons_append, checkFrom, if_neg hin]
          exact hfails
        · rw [checkFrom, if_neg hin]
          exact hpasses

/-- A fault tells which entry is out of place, what stands right before it, and at which depth the
outline starts. -/
structure Names (o : Outline) (m : Misnesting) : Prop where
  pos : 0 < m.index
  depth : o[m.index]?.map Entry.depth = some m.depth
  previous : o[m.index - 1]?.map Entry.depth = some m.previous
  base : o.head?.map Entry.depth = some m.base

theorem Names.ext {o : Outline} {m m' : Misnesting} (h : o.Names m) (h' : o.Names m')
    (hindex : m.index = m'.index) : m = m' := by
  obtain ⟨index, depth, previous, base⟩ := m
  obtain ⟨index', depth', previous', base'⟩ := m'
  obtain rfl : index = index' := hindex
  obtain rfl : depth = depth' := Option.some.inj (h.depth.symm.trans h'.depth)
  obtain rfl : previous = previous' := Option.some.inj (h.previous.symm.trans h'.previous)
  obtain rfl : base = base' := Option.some.inj (h.base.symm.trans h'.base)
  rfl

/-- **An outline that does not pass is cut at the entry that is out of place.** -/
theorem exists_of_check_eq_error {o : Outline} {m : Misnesting} (h : o.check = .error m) :
    o.Names m ∧ ¬ WellNested (o.take (m.index + 1)) ∧ WellNested (o.take m.index) := by
  cases o with
  | nil => cases h
  | cons b rest =>
      obtain ⟨before, e, after, q, rfl, hlast, rfl, hfails, hpasses⟩ :=
        exists_of_checkFrom_eq_error h
      -- The entry stands right behind `front`.
      obtain ⟨front, hfront⟩ : ∃ front, front = b :: before := ⟨_, rfl⟩
      have hcut : b :: (before ++ e :: after) = front ++ e :: after := by rw [hfront, List.cons_append]
      have hlength : 1 + before.length = front.length := by
        rw [hfront, List.length_cons, Nat.add_comm]
      have hpos : 0 < front.length := by rw [hfront]; exact Nat.succ_pos _
      rw [hlength] at hfails ⊢
      rw [← hfront, List.getLast?_eq_getElem?] at hlast
      refine ⟨⟨hpos, ?_, ?_, rfl⟩, ?_, ?_⟩
      · rw [hcut, List.getElem?_append_right (Nat.le_refl _), Nat.sub_self]
        rfl
      · rw [hcut, List.getElem?_append_left (Nat.sub_lt hpos Nat.one_pos), hlast]
        rfl
      · rw [hcut, List.take_length_add_append, hfront]
        intro hpass
        cases hfails.symm.trans hpass
      · rw [hcut, List.take_left, hfront]
        exact hpasses

/-- **The check is exact.** An outline passes if and only if it is empty or the preorder of a forest,
and an outline with entries is the preorder of at most one forest, at one depth. The check fails with
a fault if and only if the fault names the first entry such that the outline up to and with it is not
the preorder of a forest. -/
theorem check_exact (o : Outline) :
    (o.check = .ok () ↔ o = [] ∨ ∃ depth F, o.IsPreorder depth F) ∧
      (o ≠ [] → ∀ depth depth' F F', o.IsPreorder depth F → o.IsPreorder depth' F' →
        depth = depth' ∧ F = F') ∧
      ∀ m, o.check = .error m ↔ o.Names m ∧
        (¬ ∃ depth F, IsPreorder (o.take (m.index + 1)) depth F) ∧
        ∀ index < m.index, ∃ depth F, IsPreorder (o.take (index + 1)) depth F := by
  have herror {m : Misnesting} (h : o.check = .error m) :
      o.Names m ∧ (¬ WellNested (o.take (m.index + 1))) ∧
        ∀ index < m.index, WellNested (o.take (index + 1)) := by
    obtain ⟨hnames, hfails, hpasses⟩ := exists_of_check_eq_error h
    refine ⟨hnames, hfails, fun index hindex => ?_⟩
    have htake := hpasses.take (index + 1)
    rwa [List.take_take, Nat.min_eq_left hindex] at htake
  refine ⟨?_, fun ho _ _ _ _ h h' => h.unique ho h', fun m => ?_⟩
  · rw [← wellNested_iff_exists_isPreorder]
    constructor
    · exact fun h => .inr h
    · intro h
      rcases h with rfl | h
      · rfl
      · exact h
  · simp only [← wellNested_iff_exists_isPreorder]
    refine ⟨herror, fun ⟨hnames, hfails, hbefore⟩ => ?_⟩
    cases hcheck : o.check with
    | ok _ => exact absurd (WellNested.take hcheck (m.index + 1)) hfails
    | error m' =>
        obtain ⟨hnames', hfails', hbefore'⟩ := herror hcheck
        -- Both entries are the first at which the outline fails.
        have hindex : m'.index = m.index := by
          rcases Nat.lt_trichotomy m'.index m.index with hlt | heq | hlt
          · exact absurd (hbefore _ hlt) hfails'
          · exact heq
          · exact absurd (hbefore' _ hlt) hfails
        rw [hnames'.ext hnames hindex]

end Outline

end Likeness
