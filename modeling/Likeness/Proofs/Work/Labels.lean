import Mathlib.Data.List.Nodup
import Likeness.Proofs.Sequence.Window
import Likeness.Proofs.Work.Record

/-!
# Likeness.Proofs.Work.Labels

The labels of a work that is built step by step, and the ids that stand for them in its outline.

A builder keeps its labels in an interner, of which no more is known than that its keys are dense and
follow the order in which labels are first met (`Interner.Dense`). In the end the table of the work is
made from the entries of the interner, which come in any order (`Interner.freeze_entries`). This makes
the same work as numbering the labels in a list (`Interner.steps_draft`). The labels of a work are then the
distinct labels of its nodes, and each node carries the position of its label among them
(`Work.Labelled`). So ids and labels belong together, and they still do when the work is written and
read back (`Work.numbers_of_built`).
-/

namespace Likeness

open Sequence (distinct distinct_append distinct_concat idxOf_distinct mem_distinct nodup_distinct
  toFinset_distinct)

/-- A table that gives labels keys. -/
structure Interner (σ : Type) where
  empty : σ
  /-- The key of a label, and the table that has it. -/
  intern : σ → String → Nat × σ
  /-- The keys and labels of a table, in some order. -/
  entries : σ → List (Nat × String)

namespace Interner

variable {σ : Type}

/-- The table after some labels. -/
def after (I : Interner σ) (labels : List String) : σ :=
  labels.foldl (fun table label => (I.intern table label).2) I.empty

/-- Keys are dense from zero, in the order in which labels are first met. -/
structure Dense (I : Interner σ) : Prop where
  /-- A new label gets the next key. -/
  fresh : ∀ labels label, label ∉ labels →
    (I.intern (I.after labels) label).1 = (distinct labels).length
  /-- A label that was met before has the key that it got then. -/
  again : ∀ before label between,
    (I.intern (I.after (before ++ label :: between)) label).1 = (I.intern (I.after before) label).1
  /-- There is one entry for each label, with its key. -/
  entries : ∀ labels, (I.entries (I.after labels)).Perm
    ((distinct labels).map fun label => ((I.intern (I.after labels) label).1, label))

/-- The labels of some entries in the order of their keys. -/
def freeze (entries : List (Nat × String)) : List String :=
  (entries.mergeSort fun a b => a.1 ≤ b.1).map Prod.snd

/-- Takes a step of building a work whose labels are in an interner. -/
def step (I : Interner σ) : Work × σ → Work.Step → Except Overflow (Work × σ)
  | (w, table), .node depth label =>
    let (key, table) := I.intern table label
    .ok ({ w with outline := w.outline ++ [⟨depth, .ofNat key⟩] }, table)
  | (w, table), s => (w.step s).map fun w => (w, table)

def steps (I : Interner σ) (draft : Work × σ) (ss : List Work.Step) : Except Overflow (Work × σ) :=
  ss.foldlM I.step draft

/-- The finished work has the labels of the interner. -/
def finish (I : Interner σ) (draft : Work × σ) : Except Misnesting Work := do
  draft.1.outline.check
  return { draft.1 with labels := freeze (I.entries draft.2) }

/-! ### Keys -/

theorem after_concat (I : Interner σ) (labels : List String) (label : String) :
    I.after (labels ++ [label]) = (I.intern (I.after labels) label).2 := by
  simp [after]

variable {I : Interner σ}

/-- Keys are positions among the distinct labels. -/
theorem Dense.key_eq (h : I.Dense) (labels : List String) (label : String) :
    (I.intern (I.after labels) label).1 = (distinct labels).idxOf label := by
  by_cases hmem : label ∈ labels
  · obtain ⟨before, between, rfl, hnew⟩ := List.eq_append_cons_of_mem hmem
    rw [h.again, h.fresh before label hnew, idxOf_distinct hnew]
  · rw [h.fresh labels label hmem, List.idxOf_eq_length_iff.mpr (mt mem_distinct.mp hmem)]

/-- **Freezing restores the order.** The entries may come in any order, since no two keys are equal. -/
theorem freeze_eq {entries ordered : List (Nat × String)} (hperm : entries.Perm ordered)
    (hkeys : ordered.Pairwise fun a b => a.1 < b.1) : freeze entries = ordered.map Prod.snd := by
  have hle : (fun a b : Nat × String => decide (a.1 ≤ b.1)) = fun a b => !decide (b.1 < a.1) := by
    funext a b
    rw [← decide_not]
    simp only [Nat.not_lt]
  have hsorted : (entries.mergeSort fun a b => !decide (b.1 < a.1)).Pairwise
      fun a b => decide (a.1 < b.1) = true := by
    refine Ordered.pairwise_mergeSort (by simp; omega) (by simp; omega) ?_
    refine hperm.symm.pairwise (hkeys.imp fun hlt => ?_) Or.symm
    exact .inl (decide_eq_true hlt)
  rw [freeze, hle]
  refine congrArg (List.map Prod.snd) (List.Perm.eq_of_pairwise (fun a b _ _ hab hba => ?_)
    (hsorted.imp of_decide_eq_true) hkeys ((List.mergeSort_perm _ _).trans hperm))
  exact absurd hab (Nat.lt_asymm hba)

/-- The table of a work is made up of its distinct labels. -/
theorem Dense.freeze_entries (h : I.Dense) (labels : List String) :
    freeze (I.entries (I.after labels)) = distinct labels := by
  rw [freeze_eq (h.entries labels), List.map_map]
  · simp [Function.comp_def]
  · rw [List.pairwise_map, List.pairwise_iff_getElem]
    intro i j hi hj hlt
    rw [h.key_eq, h.key_eq, (nodup_distinct labels).idxOf_getElem i hi,
      (nodup_distinct labels).idxOf_getElem j hj]
    exact hlt

end Interner

namespace Work

namespace Step

/-- The label of a step that appends a node. -/
def labelled : Step → List String
  | .node _ label => [label]
  | _ => []

end Step

/-- The labels of a work are the distinct labels of its nodes, and each node has the position of its
label among them. -/
structure Labelled (w : Work) (pushed : List String) : Prop where
  labels : w.labels = distinct pushed
  outline : w.outline.map Entry.label = pushed.map fun l => .ofNat ((distinct pushed).idxOf l)

variable {w w' : Work} {pushed : List String}

/-! ### Steps -/

theorem labelled_blank (path : Path) : (blank path).Labelled [] := ⟨rfl, rfl⟩

/-- A label is numbered by its position, behind all others if it is new. -/
theorem intern_eq (labels : List String) (label : String) : Labels.intern labels label =
    (.ofNat (labels.idxOf label), if label ∈ labels then labels else labels ++ [label]) := by
  unfold Labels.intern
  split
  next i hfound =>
    obtain ⟨hi, hindex⟩ := List.findIdx?_eq_some_iff_findIdx_eq.mp hfound
    have hindex : labels.idxOf label = i := hindex
    rw [hindex, if_pos (List.idxOf_lt_length_iff.mp (hindex ▸ hi))]
  next hnone =>
    have hnew : label ∉ labels := by
      intro hmem
      simpa using List.findIdx?_eq_none_iff.mp hnone label hmem
    rw [List.idxOf_eq_length_iff.mpr hnew, if_neg hnew]

/-- A step that appends no node leaves the outline and the labels alone. -/
theorem frame_of_step {s : Step} (hs : s.labelled = []) (h : w.step s = .ok w') :
    w'.labels = w.labels ∧ w'.outline = w.outline := by
  cases s with
  | node depth label => cases hs
  | count category label n =>
      cases category
      all_goals
        obtain ⟨c, -, h⟩ := Except.bind_eq_ok.mp h
        cases h
        exact ⟨rfl, rfl⟩
  | content _ | digest _ | modified _ | token _ _ | tokens _ | head _ =>
      cases h
      exact ⟨rfl, rfl⟩

theorem Labelled.node (h : w.Labelled pushed) {depth : UInt32} {label : String}
    (hstep : w.step (.node depth label) = .ok w') : w'.Labelled (pushed ++ [label]) := by
  rw [step, intern_eq, h.labels] at hstep
  cases hstep
  have hlabels : (if label ∈ distinct pushed then distinct pushed else distinct pushed ++ [label]) =
      distinct (pushed ++ [label]) := by
    simp only [distinct_concat, mem_distinct]
  obtain ⟨rest, hrest⟩ := distinct_append pushed [label]
  refine ⟨hlabels, ?_⟩
  rw [List.map_append, List.map_append, h.outline]
  refine congr (congrArg _ (List.map_congr_left fun l hl => ?_)) ?_
  · -- The label was met before, so its position stays.
    rw [hrest, List.idxOf_append_of_mem (mem_distinct.mpr hl)]
  · have hindex : (distinct (pushed ++ [label])).idxOf label = (distinct pushed).idxOf label := by
      rw [← hlabels]
      split
      · rfl
      next hnew => rw [List.idxOf_append, if_neg hnew, List.idxOf_eq_length_iff.mpr hnew]; simp
    rw [List.map_singleton, List.map_singleton, hindex]

/-- Steps keep ids and labels together. -/
theorem Labelled.step (h : w.Labelled pushed) {s : Step} (hstep : w.step s = .ok w') :
    w'.Labelled (pushed ++ s.labelled) := by
  cases s with
  | node depth label => exact h.node hstep
  | content _ | digest _ | modified _ | token _ _ | tokens _ | count _ _ _ | head _ =>
      obtain ⟨hlabels, houtline⟩ := frame_of_step rfl hstep
      simp only [Step.labelled, List.append_nil]
      exact ⟨hlabels ▸ h.labels, houtline ▸ h.outline⟩

theorem Labelled.steps {ss : List Step} (h : w.Labelled pushed) (hsteps : w.steps ss = .ok w') :
    w'.Labelled (pushed ++ ss.flatMap Step.labelled) := by
  induction ss generalizing w pushed with
  | nil =>
      cases hsteps
      simpa using h
  | cons s ss ih =>
      rw [Work.steps, List.foldlM_cons] at hsteps
      obtain ⟨w₁, hstep, hrest⟩ := Except.bind_eq_ok.mp hsteps
      rw [List.flatMap_cons, ← List.append_assoc]
      exact ih (h.step hstep) hrest

end Work

/-! ### Steps with an interner -/

namespace Interner

open Work (Step)

variable {σ : Type} {I : Interner σ} {w : Work} {pushed : List String}

/-- A work under construction whose labels are kept in an interner. -/
def draft (I : Interner σ) (w : Work) (pushed : List String) : Work × σ :=
  ({ w with labels := [] }, I.after pushed)

theorem step_draft (hI : I.Dense) (hw : w.Labelled pushed) (s : Step) :
    I.step (I.draft w pushed) s = (w.step s).map fun w' => I.draft w' (pushed ++ s.labelled) := by
  cases s with
  | node depth label =>
      rw [Work.step, Work.intern_eq, hw.labels, ← hI.key_eq pushed label]
      simp only [step, draft, Step.labelled, after_concat, Except.map]
  | count category label n =>
      simp only [Step.labelled, List.append_nil]
      cases category
      all_goals
        simp only [step, draft, Work.step, Except.map_bind]
        rfl
  | content _ | digest _ | modified _ | token _ _ | tokens _ | head _ =>
      simp only [Step.labelled, List.append_nil]
      rfl

/-- **It makes no difference where labels are kept.** Building with an interner takes the steps that
building with a list of labels takes. -/
theorem steps_draft (hI : I.Dense) (hw : w.Labelled pushed) (ss : List Step) :
    I.steps (I.draft w pushed) ss =
      (w.steps ss).map fun w' => I.draft w' (pushed ++ ss.flatMap Step.labelled) := by
  induction ss generalizing w pushed with
  | nil => simp [steps, Work.steps, pure, Except.pure, Except.map]
  | cons s ss ih =>
      rw [steps, List.foldlM_cons, step_draft hI hw, Work.steps, List.foldlM_cons]
      cases hstep : w.step s with
      | error e => rfl
      | ok w₁ =>
          have hrest := ih (hw.step hstep)
          rw [List.append_assoc] at hrest
          exact hrest

theorem finish_draft (hI : I.Dense) (hw : w.Labelled pushed) :
    I.finish (I.draft w pushed) = w.finish := by
  have htable : { w with labels := freeze (I.entries (I.after pushed)) } = w := by
    rw [hI.freeze_entries, ← hw.labels]
  change (w.outline.check >>= fun _ =>
    pure { w with labels := freeze (I.entries (I.after pushed)) }) = _
  rw [htable]
  rfl

end Interner

namespace Work

variable {w : Work} {pushed : List String}

/-! ### Ids and labels -/

/-- What ids and labels have to do with each other in a work whose nodes were given some labels. -/
structure Numbers (w : Work) (pushed : List String) : Prop where
  length_eq : w.outline.length = pushed.length
  /-- The id of a node stands for its label. -/
  resolves : ∀ (k : Nat) (e : Entry) (l : String), w.outline[k]? = some e → pushed[k]? = some l →
    w.label? e.label = some l
  /-- Nodes have the same id just when they have the same label. -/
  same_iff : ∀ (j k : Nat) (d e : Entry) (l m : String), w.outline[j]? = some d →
    w.outline[k]? = some e → pushed[j]? = some l → pushed[k]? = some m →
    (d.label = e.label ↔ l = m)
  /-- A label that is new has the next id. -/
  ordered : ∀ (k : Nat) (e : Entry) (l : String), w.outline[k]? = some e → pushed[k]? = some l →
    l ∉ pushed.take k → e.label.toNat = (pushed.take k).toFinset.card
  /-- There are as many ids as labels. -/
  unknown_iff : ∀ id : UInt32, w.label? id = none ↔ pushed.toFinset.card ≤ id.toNat

theorem Labelled.numbers (h : w.Labelled pushed) (hfew : pushed.toFinset.card < UInt32.size) :
    w.Numbers pushed := by
  have hcard : (distinct pushed).length = pushed.toFinset.card := by
    rw [← toFinset_distinct, List.toFinset_card_of_nodup (nodup_distinct pushed)]
  have hid {k : Nat} {e : Entry} {l : String} (he : w.outline[k]? = some e)
      (hl : pushed[k]? = some l) : e.label.toNat = (distinct pushed).idxOf l := by
    have hlabel : e.label = .ofNat ((distinct pushed).idxOf l) := by
      have hmap := congrArg (·[k]?) h.outline
      simp only [List.getElem?_map, he, hl, Option.map_some, Option.some.injEq] at hmap
      exact hmap
    have hlt := List.idxOf_lt_length_iff.mpr (mem_distinct.mpr (List.mem_of_getElem? hl))
    rw [hlabel, UInt32.toNat_ofNat_of_lt' (by omega)]
  refine ⟨?_, fun k e l he hl => ?_, fun j k d e l m hd he hl hm => ?_,
    fun k e l he hl hnew => ?_, fun id => ?_⟩
  · simpa using congrArg List.length h.outline
  · rw [label?, hid he hl, h.labels]
    exact List.getElem?_idxOf (mem_distinct.mpr (List.mem_of_getElem? hl))
  · rw [← UInt32.toNat_inj, hid hd hl, hid he hm]
    exact List.idxOf_inj (mem_distinct.mpr (List.mem_of_getElem? hl))
  · have hsplit : pushed = pushed.take k ++ l :: pushed.drop (k + 1) := by
      obtain ⟨hk, rfl⟩ := List.getElem?_eq_some_iff.mp hl
      rw [← List.drop_eq_getElem_cons hk, List.take_append_drop]
    have hindex : (distinct pushed).idxOf l = (distinct (pushed.take k)).length := by
      conv_lhs => rw [hsplit]
      exact idxOf_distinct hnew
    rw [hid he hl, hindex, ← toFinset_distinct, List.toFinset_card_of_nodup (nodup_distinct _)]
  · rw [label?, h.labels, List.getElem?_eq_none_iff, hcard]

/-- **Ids and labels belong together.** Let a work be built by any steps, its labels being kept in an
interner whose keys are dense and follow the order in which labels are met. The work is the one that
is built with a list of labels, its ids number the labels of its nodes in the order in which these are
first met, and the table has the label of each id and no other. The same holds of the work that is
read back from its record, if that is accepted. -/
theorem numbers_of_built {σ : Type} {I : Interner σ} (hI : I.Dense) {path : Path} {ss : List Step}
    {draft : Work × σ} (hfew : (ss.flatMap Step.labelled).toFinset.card < 2 ^ 32 - 1)
    (hsteps : I.steps (blank path, I.empty) ss = .ok draft) (hfinish : I.finish draft = .ok w) :
    ((blank path).steps ss = .ok w ∧ w.finish = .ok w) ∧ w.Numbers (ss.flatMap Step.labelled) ∧
      ∀ source w', ofRecord source w.recordText = .ok w' →
        w'.Numbers (ss.flatMap Step.labelled) := by
  have hblank := labelled_blank path
  have hsame : I.steps (blank path, I.empty) ss = _ := Interner.steps_draft hI hblank ss
  obtain ⟨w₁, hbuilt, rfl⟩ := Except.map_eq_ok.mp (hsame.symm.trans hsteps)
  have hlabelled := hblank.steps hbuilt
  rw [List.nil_append] at hfinish hlabelled
  rw [Interner.finish_draft hI hlabelled] at hfinish
  obtain ⟨hnested, rfl⟩ := finish_eq_ok.mp hfinish
  have hnumbers := hlabelled.numbers (hfew.trans (by decide))
  refine ⟨⟨hbuilt, hfinish⟩, hnumbers, fun source w' hread => ?_⟩
  rw [ofRecord_recordText] at hread
  obtain ⟨-, -, rfl⟩ := Except.map_eq_ok.mp hread
  exact hnumbers

end Work

namespace Interner

/-- Labels in a list, whose entries are listed backwards. -/
def listed : Interner (List String) where
  empty := []
  intern labels label :=
    (labels.idxOf label, if label ∈ labels then labels else labels ++ [label])
  entries labels := (labels.map fun label => (labels.idxOf label, label)).reverse

theorem after_listed (labels : List String) : listed.after labels = distinct labels := by
  induction labels using List.reverseRecOn with
  | nil => rfl
  | append_singleton labels label ih =>
      rw [after_concat, ih, distinct_concat]
      simp only [listed, mem_distinct]

theorem dense_listed : listed.Dense where
  fresh labels label hnew := by
    rw [after_listed]
    exact List.idxOf_eq_length_iff.mpr (mt mem_distinct.mp hnew)
  again before label between := by
    rw [after_listed, after_listed]
    change (distinct (before ++ label :: between)).idxOf label = (distinct before).idxOf label
    by_cases hmem : label ∈ before
    · obtain ⟨rest, hrest⟩ := distinct_append before (label :: between)
      rw [hrest, List.idxOf_append_of_mem (mem_distinct.mpr hmem)]
    · rw [idxOf_distinct hmem, List.idxOf_eq_length_iff.mpr (mt mem_distinct.mp hmem)]
  entries labels := by
    rw [after_listed]
    exact List.reverse_perm _

end Interner

namespace Work

/-- Labels that come back, between them a token and a count. -/
def recurringSteps : List Step :=
  [.node 1 "def", .count .keyword "def" 1, .node 2 "if", .node 2 "def", .token 7 none, .node 3 "call",
   .node 2 "if"]

theorem numbers_of_built_recurring : ∃ draft w,
    Interner.listed.steps (blank ⟨"a.py"⟩, Interner.listed.empty) recurringSteps = .ok draft ∧
      Interner.listed.finish draft = .ok w ∧ w.labels = ["def", "if", "call"] ∧
      w.outline.map Entry.label = [0, 1, 0, 2, 1] ∧
      w.Numbers ["def", "if", "def", "call", "if"] := by
  have hsteps : (blank ⟨"a.py"⟩).steps recurringSteps = .ok _ := rfl
  have hlabelled := (labelled_blank ⟨"a.py"⟩).steps hsteps
  have hfinish := Interner.finish_draft Interner.dense_listed hlabelled
  have hdraft : Interner.listed.steps (blank ⟨"a.py"⟩, Interner.listed.empty) recurringSteps = .ok _ := rfl
  have hbuilt := numbers_of_built Interner.dense_listed (by decide) hdraft (hfinish.trans rfl)
  exact ⟨_, _, rfl, hfinish.trans rfl, rfl, rfl, hbuilt.2.1⟩

end Work

end Likeness
