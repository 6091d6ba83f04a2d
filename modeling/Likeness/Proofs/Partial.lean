/-!
# Likeness.Proofs.Partial

Lists under a function that may give nothing, where it gives something for all their elements.
-/

namespace List

variable {α β : Type} {f : α → Option β} {l : List α}

theorem mapM_eq_some_map {g : α → β} (h : ∀ x ∈ l, f x = some (g x)) : l.mapM f = some (l.map g) := by
  induction l with
  | nil => rfl
  | cons x l ih =>
      obtain ⟨hx, hl⟩ := forall_mem_cons.mp h
      rw [mapM_cons, hx, ih hl]
      rfl

/-- Nothing is passed over, so that every element keeps its position. -/
theorem getElem?_filterMap_of_isSome (h : ∀ x ∈ l, (f x).isSome) (k : Nat) :
    (l.filterMap f)[k]? = l[k]?.bind f := by
  induction l generalizing k with
  | nil => rfl
  | cons x l ih =>
      obtain ⟨hx, hl⟩ := forall_mem_cons.mp h
      obtain ⟨y, hy⟩ := Option.isSome_iff_exists.mp hx
      rw [filterMap_cons_some hy]
      cases k with
      | zero => exact hy.symm
      | succ k => exact ih hl k

end List
