import Mathlib.Order.Lattice
import Mathlib.Data.List.Lex
import Mathlib.Data.Sym.Sym2
import Likeness.Work.Basic

/-!
# Likeness.Proofs.Store.Pairs

Paths in order, keys of pairs in order, and pairs of paths and identities whatever their order.
-/

namespace Likeness

namespace Path

theorem before_asymm {p q : Path} (h : p.before q = true) : q.before p = false := by
  simp only [before, decide_eq_true_eq, decide_eq_false_iff_not] at *
  exact lt_asymm h

theorem not_same_of_before {p q : Path} (h : p.before q = true) : p.same q = false := by
  simp only [same, before, beq_eq_false_iff_ne, decide_eq_true_eq] at *
  exact ne_of_lt h

theorem before_congr {p p' q q' : Path} (hp : p.same p' = true) (hq : q.same q' = true) :
    p.before q = p'.before q' := by
  simp only [same, beq_iff_eq] at hp hq
  rw [before, before, hp, hq]

/-- Of two paths that are not the same, one comes before the other. -/
theorem before_of_not_same {p q : Path} (hsame : ¬ p.same q = true) (h : ¬ q.before p = true) :
    p.before q = true := by
  simp only [same, before, beq_iff_eq, decide_eq_true_eq] at *
  exact lt_of_le_of_ne (not_lt.mp h) hsame

theorem inOrder_of_before {path : α → Path} {a b : α} (h : (path a).before (path b) = true) :
    inOrder path a b = (a, b) := by
  rw [inOrder, if_neg (by simp [before_asymm h])]

/-- The one with the smaller path comes first, also when it is given second. -/
theorem inOrder_of_before_swap {path : α → Path} {a b : α}
    (h : (path a).before (path b) = true) : inOrder path b a = (a, b) := if_pos h

/-- What carries over the paths carries over the order. -/
theorem inOrder_map {β : Type} (path : β → Path) (g : α → β) (a b : α) :
    inOrder path (g a) (g b) = (inOrder (fun a => path (g a)) a b).map g g := by
  unfold inOrder
  split <;> rfl

/-- Two things with different paths are put in order. -/
theorem before_inOrder {path : α → Path} {a b : α} (h : ¬ (path a).same (path b) = true) :
    (path (inOrder path a b).1).before (path (inOrder path a b).2) = true := by
  unfold inOrder
  split
  next hbefore => exact hbefore
  next hbefore => exact before_of_not_same h hbefore

/-- Keys that come in neither order are equal. -/
theorem eq_of_not_keyBefore {k l : PairKey} (hkl : keyBefore k l = false)
    (hlk : keyBefore l k = false) : k = l := by
  obtain ⟨k₁, k₂⟩ := k
  obtain ⟨l₁, l₂⟩ := l
  simp only [keyBefore, Bool.or_eq_false_iff, Bool.and_eq_false_imp, decide_eq_false_iff_not,
    beq_iff_eq, not_lt] at hkl hlk
  have hfirst : k₁ = l₁ := le_antisymm hlk.1 hkl.1
  have hsecond : k₂ = l₂ := le_antisymm (hlk.2 hfirst.symm) (hkl.2 hfirst)
  rw [hfirst, hsecond]

/-- Putting two things in order keeps the later path from coming first. -/
theorem not_before_inOrder (path : α → Path) (a b : α) :
    ¬ (path (inOrder path a b).2).before (path (inOrder path a b).1) = true := by
  unfold inOrder
  split
  next h => simp [before_asymm h]
  next h => exact h

/-! ### Pairs in no order -/

/-- Two paths as places, whatever their order. -/
def pair (p q : Path) : Sym2 (List (List Nat)) := s(p.key, q.key)

/-- Whether two paths are the same shows in their pair. -/
theorem same_iff_isDiag {p q : Path} : p.same q = true ↔ (pair p q).IsDiag := by
  simp [same, pair]

/-- Putting two things in order changes their order only. -/
theorem mk_inOrder {β : Type} (path : α → Path) (f : α → β) (a b : α) :
    s(f (inOrder path a b).1, f (inOrder path a b).2) = s(f a, f b) := by
  unfold inOrder
  split
  · exact Sym2.eq_swap
  · rfl

theorem pair_inOrder (path : α → Path) (a b : α) :
    pair (path (inOrder path a b).1) (path (inOrder path a b).2) = pair (path a) (path b) :=
  mk_inOrder path (fun a => (path a).key) a b

/-- Two pairs of keys in order are the same if they are the same in no order. -/
theorem eq_of_mk_eq {k l : PairKey} (hk : ¬ k.2 < k.1) (hl : ¬ l.2 < l.1)
    (h : s(k.1, k.2) = s(l.1, l.2)) : k = l := by
  obtain ⟨k₁, k₂⟩ := k
  obtain ⟨l₁, l₂⟩ := l
  rcases Sym2.eq_iff.mp h with ⟨rfl, rfl⟩ | ⟨rfl, rfl⟩
  · rfl
  · obtain rfl : k₁ = k₂ := le_antisymm (not_lt.mp hk) (not_lt.mp hl)
    rfl

end Path

/-- What tells pairs of identities apart by their paths, whatever their order. -/
def Identity.pairKey (a b : Identity) : Path.PairKey :=
  let (first, second) := Path.inOrder Identity.path a b
  Path.pairKey first.path second.path

theorem Identity.pairKey_of_before {a b : Identity} (h : a.path.before b.path = true) :
    Identity.pairKey a b = Path.pairKey a.path b.path := by
  unfold Identity.pairKey
  rw [Path.inOrder_of_before h]

end Likeness
