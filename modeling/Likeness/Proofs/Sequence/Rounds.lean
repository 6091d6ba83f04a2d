import Mathlib.Data.List.Chain
import Likeness.Proofs.Sequence.Tiling

/-!
# Likeness.Proofs.Sequence.Rounds

The rounds of a greedy tiling come to an end.

`Tiling.Loop` runs rounds without any limit on their number. A round that goes on places the first of
the runs that it found, and leaves no open run of their length (`Tiling.Marked.step`). So the longest
run gets shorter from round to round, and since none is longer than the shorter sequence, this bounds
the number of rounds (`Tiling.loop_terminates`).
-/

namespace Likeness

namespace Tiling

variable {α : Type} [DecidableEq α] {a b : List α} {least : Nat} {t final : Tiling}
  {starts : List Tiling}

/-- Rounds that go on until the longest run is too short: the tilings that they start from, the last
of them being that of the round which stops, and the tiling in the end. -/
inductive Loop (a b : List α) (least : Nat) : Tiling → List Tiling → Tiling → Prop where
  | stop {t : Tiling} (short : (found a b t).length < least) : Loop a b least t [t] t
  | next {t final : Tiling} {starts : List Tiling} (enough : least ≤ (found a b t).length)
      (rest : Loop a b least (afterRound a b t) starts final) : Loop a b least t (t :: starts) final

/-- What a round leaves to the next one: there are more tiles, and the longest run is shorter. -/
structure Step (a b : List α) (t u : Tiling) : Prop where
  shorter : (found a b u).length < (found a b t).length
  placed : ∃ more, more ≠ [] ∧ u.tiles = t.tiles ++ more

/-! ### One round -/

/-- Tiles that are placed come behind those that are there. -/
theorem exists_foldl_place (candidates : List Tile) (t : Tiling) :
    ∃ more, (candidates.foldl place t).tiles = t.tiles ++ more := by
  induction candidates generalizing t with
  | nil => exact ⟨[], by simp⟩
  | cons c candidates ih =>
      obtain ⟨more, hmore⟩ := ih (t.place c)
      rw [List.foldl_cons, hmore]
      by_cases hfree : touches t.sourceMarks c.source c.length ||
          touches t.targetMarks c.target c.length
      · exact ⟨more, by simp [place, hfree]⟩
      · exact ⟨c :: more, by simp [place, hfree]⟩

theorem Marked.step (h : Marked a b t) (hpos : 0 < (found a b t).length) :
    Marked a b (afterRound a b t) ∧ Step a b t (afterRound a b t) := by
  obtain ⟨hmarked, hshort, -⟩ := h.place_found hpos (Nat.le_refl _)
  refine ⟨hmarked, ?_, ?_⟩
  · -- The longest runs of the next round are open after this one.
    rcases Nat.eq_zero_or_pos (found a b (afterRound a b t)).length with hzero | hpos'
    · omega
    · obtain ⟨u, hu⟩ := exists_mem_found hpos'
      obtain ⟨hopen, hlength, -⟩ := hmarked.mem_found.mp hu
      rw [← hlength]
      exact hshort u hopen
  · obtain ⟨more, hmore⟩ := exists_foldl_place (found a b t).tiles t
    refine ⟨more, ?_, hmore⟩
    intro hnone
    -- With nothing placed, the runs that were found would still be open.
    obtain ⟨c, hc⟩ := exists_mem_found hpos
    obtain ⟨hopen, hlength, -⟩ := h.mem_found.mp hc
    have hsame : (afterRound a b t).tiles = t.tiles := by
      rw [hnone, List.append_nil] at hmore
      exact hmore
    have hlt := hshort c (hsame ▸ hopen)
    omega

/-! ### All rounds -/

/-- The loop ends wherever it starts. The longest run gets shorter, so the induction is on its length. -/
theorem Marked.exists_loop (hleast : 0 < least) (h : Marked a b t) :
    ∃ starts final, Loop a b least t starts final := by
  induction hn : (found a b t).length using Nat.strong_induction_on generalizing t with
  | _ n ih =>
      subst hn
      by_cases hless : (found a b t).length < least
      · exact ⟨[t], t, .stop hless⟩
      · have hmore : least ≤ (found a b t).length := Nat.not_lt.mp hless
        obtain ⟨hmarked, hstep⟩ := h.step (hleast.trans_le hmore)
        obtain ⟨starts, final, hrest⟩ := ih _ hstep.shorter hmarked rfl
        exact ⟨t :: starts, final, .next hmore hrest⟩

/-- The loop starts where it starts. -/
theorem Loop.head?_eq (h : Loop a b least t starts final) : starts.head? = some t := by
  cases h <;> rfl

/-- Each round is a step, and there are no more rounds than the longest run of the first one has
positions, besides the round that stops. -/
theorem Loop.steps (hleast : 0 < least) (h : Loop a b least t starts final) (ht : Marked a b t) :
    starts.IsChain (Step a b) ∧ starts.length ≤ (found a b t).length + 1 := by
  induction h with
  | stop short => exact ⟨.singleton _, by simp⟩
  | @next t final starts enough rest ih =>
      obtain ⟨hmarked, hstep⟩ := ht.step (hleast.trans_le enough)
      obtain ⟨hchain, hlength⟩ := ih hmarked
      have hshorter := hstep.shorter
      constructor
      · rw [List.isChain_cons]
        refine ⟨fun u hu => ?_, hchain⟩
        rw [rest.head?_eq, Option.mem_some_iff] at hu
        exact hu ▸ hstep
      · rw [List.length_cons]
        omega

/-- A limit that leaves room for all rounds does not matter. -/
theorem Loop.rounds_eq (h : Loop a b least t starts final) {n : Nat} (hn : starts.length ≤ n) :
    rounds a b least n t = final := by
  induction h generalizing n with
  | stop short =>
      cases n with
      | zero => rfl
      | succ n => rw [rounds_succ, if_pos short]
  | next enough rest ih =>
      rw [List.length_cons] at hn
      obtain ⟨n, rfl⟩ := Nat.exists_eq_add_of_le' (Nat.one_le_of_lt hn)
      rw [rounds_succ, if_neg (Nat.not_lt.mpr enough)]
      exact ih (by omega)

theorem found_blank_le (a b : List α) :
    (found a b (blank a.length b.length)).length ≤ min a.length b.length := by
  rcases Nat.eq_zero_or_pos (found a b (blank a.length b.length)).length with hzero | hpos
  · omega
  · obtain ⟨u, hu⟩ := exists_mem_found hpos
    obtain ⟨hopen, hlength, -⟩ := (marked_blank a b).mem_found.mp hu
    rw [← hlength]
    exact hopen.length_le

/-- **The rounds end.** However short the least run may be, rounds without any limit end with the greedy
tiling. Each round but the last places a tile, or more of them, the longest run is shorter in each round
than in the round before, and there is at most one round more than the shorter sequence has elements. -/
theorem loop_terminates (a b : List α) (least : Nat) :
    ∃ starts, Loop a b (max least 1) (blank a.length b.length) starts (greedy a b least) ∧
      starts.IsChain (fun t u => (found a b u).length < (found a b t).length ∧
        ∃ more, more ≠ [] ∧ u.tiles = t.tiles ++ more) ∧
      starts.length ≤ min a.length b.length + 1 := by
  have hleast : 0 < max least 1 := by omega
  have hbound := found_blank_le a b
  obtain ⟨starts, final, hloop⟩ := (marked_blank a b).exists_loop hleast
  obtain ⟨hchain, hlength⟩ := hloop.steps hleast (marked_blank a b)
  have hfinal : greedy a b least = final := hloop.rounds_eq (by omega)
  refine ⟨starts, hfinal ▸ hloop, ?_, by omega⟩
  exact hchain.imp fun _ _ hstep => ⟨hstep.shorter, hstep.placed⟩

end Tiling

end Likeness
