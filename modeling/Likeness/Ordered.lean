/-!
# Likeness.Ordered

Ordered lists without repetition, the form in which maps are kept when their order can be seen.
-/

namespace Likeness.Ordered

/-- Puts an element in its place, instead of one at the same place. -/
def insert (before : α → α → Bool) (a : α) : List α → List α
  | [] => [a]
  | b :: rest =>
    if before a b then a :: b :: rest
    else if before b a then b :: insert before a rest
    else a :: rest

/-- The elements of a list in order; of those at the same place the last stays. -/
def ofList (before : α → α → Bool) (as : List α) : List α :=
  as.foldl (fun sorted a => insert before a sorted) []

theorem mem_insert {before : α → α → Bool} {a x : α} {as : List α} (h : x ∈ insert before a as) :
    x = a ∨ x ∈ as := by
  induction as with
  | nil => simpa [insert] using h
  | cons b rest ih =>
    simp only [insert] at h
    split at h
    · simpa using h
    · split at h
      · rcases List.mem_cons.1 h with h | h
        · exact .inr (by simp [h])
        · rcases ih h with h | h
          · exact .inl h
          · exact .inr (by simp [h])
      · rcases List.mem_cons.1 h with h | h
        · exact .inl h
        · exact .inr (by simp [h])

/-- Inserting keeps a list in order, if elements that come in neither order are at the same place
for every other one. -/
theorem pairwise_insert {before : α → α → Bool} {a : α} {as : List α}
    (trans : ∀ {x y z}, before x y = true → before y z = true → before x z = true)
    (tie : ∀ {x y z}, before x y = false → before y x = false → before y z = true →
      before x z = true)
    (h : as.Pairwise (before · · = true)) : (insert before a as).Pairwise (before · · = true) := by
  induction as with
  | nil => simp [insert]
  | cons b rest ih =>
    have hrest := (List.pairwise_cons.1 h).2
    have hb := (List.pairwise_cons.1 h).1
    simp only [insert]
    split
    next hab =>
      refine List.pairwise_cons.2 ⟨fun x hx => ?_, h⟩
      rcases List.mem_cons.1 hx with rfl | hx
      · exact hab
      · exact trans hab (hb x hx)
    next hab =>
      split
      next hba =>
        refine List.pairwise_cons.2 ⟨fun x hx => ?_, ih hrest⟩
        rcases mem_insert hx with rfl | hx
        · exact hba
        · exact hb x hx
      next hba =>
        exact List.pairwise_cons.2
          ⟨fun x hx => tie (by simpa using hab) (by simpa using hba) (hb x hx), hrest⟩

end Likeness.Ordered
