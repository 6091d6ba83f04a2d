import Mathlib.Order.Lattice
import Likeness.Proofs.Ordered
import Likeness.Proofs.Store.Calls

/-!
# Likeness.Proofs.Store.Records

Records in order. A record that is put is found under its key, records that are in order stay so,
and a list that is in order is the list of its records. A store *recalls* if it gives back what is put
into it (`VerdictStore.Recalls`); the one in memory does.
-/

namespace Likeness

namespace Path

theorem keyBefore_iff {k l : PairKey} :
    keyBefore k l = true ↔ k.1 < l.1 ∨ k.1 = l.1 ∧ k.2 < l.2 := by
  simp [keyBefore]

theorem keyBefore_trans {k l m : PairKey} (hkl : keyBefore k l = true)
    (hlm : keyBefore l m = true) : keyBefore k m = true := by
  rw [keyBefore_iff] at *
  rcases hkl with hkl | ⟨hkl, hkl'⟩
  · rcases hlm with hlm | ⟨hlm, -⟩
    · exact .inl (lt_trans hkl hlm)
    · exact .inl (hlm ▸ hkl)
  · rcases hlm with hlm | ⟨hlm, hlm'⟩
    · exact .inl (hkl ▸ hlm)
    · exact .inr ⟨hkl.trans hlm, lt_trans hkl' hlm'⟩

theorem keyBefore_irrefl (k : PairKey) : keyBefore k k = false := by
  simp [keyBefore]

theorem same_refl (p : Path) : p.same p = true := by
  simp [same]

theorem same_symm {p q : Path} (h : p.same q = true) : q.same p = true := by
  simp only [same, beq_iff_eq] at h ⊢
  exact h.symm

end Path

namespace Identity

theorem same_refl (i : Identity) : i.same i = true := by
  simp [same, Path.same_refl]

theorem path_same {i j : Identity} (h : i.same j = true) : i.path.same j.path = true :=
  (Bool.and_eq_true_iff.mp h).1

theorem same_symm {i j : Identity} (h : i.same j = true) : j.same i = true := by
  obtain ⟨hpath, hdigest⟩ := Bool.and_eq_true_iff.mp h
  refine Bool.and_eq_true_iff.mpr ⟨Path.same_symm hpath, ?_⟩
  rw [decide_eq_true_eq] at hdigest ⊢
  exact hdigest.symm

end Identity

namespace StoredVerdict

theorem before_trans {s t u : StoredVerdict} (hst : s.before t = true) (htu : t.before u = true) :
    s.before u = true := Path.keyBefore_trans hst htu

/-- Records that come in neither order have the same key. -/
theorem before_of_tie {s t u : StoredVerdict} (hst : s.before t = false) (hts : t.before s = false)
    (htu : t.before u = true) : s.before u = true := by
  have hkey : s.key = t.key := Path.eq_of_not_keyBefore hst hts
  rwa [before, hkey]

theorem key_ne_of_before {s t : StoredVerdict} (h : s.before t = true) : s.key ≠ t.key := by
  intro hkey
  rw [before, hkey, Path.keyBefore_irrefl] at h
  cases h

theorem before_asymm {s t : StoredVerdict} (h : s.before t = true) : t.before s = false := by
  by_contra hts
  exact key_ne_of_before (before_trans h (by simpa using hts)) rfl

theorem verdict_ofPair (a b : Identity) (v : Verdict) : (ofPair a b v).verdict = v := rfl

/-- A record is for the identities that it was made for. -/
theorem isFor_ofPair (a b : Identity) (v : Verdict) : (ofPair a b v).isFor a b = true := by
  unfold isFor ofPair
  generalize Path.inOrder Identity.path a b = pair
  obtain ⟨first, second⟩ := pair
  simp [Identity.same_refl]

end StoredVerdict

namespace Records

/-- What is put is found under its key. -/
theorem find?_insert_self (rs : Records) (s : StoredVerdict) : (rs.insert s).find? s.key = some s := by
  obtain ⟨records⟩ := rs
  simp only [insert, find?]
  induction records with
  | nil => simp [Ordered.insert]
  | cons t records ih =>
      rw [Ordered.insert]
      split
      next => simp
      next =>
        split
        next hts => rw [List.find?_cons_of_neg (by simp [StoredVerdict.key_ne_of_before hts]), ih]
        next => simp

theorem find?_put_self (rs : Records) (a b : Identity) (v : Verdict) :
    (rs.put a b v).find? (Identity.pairKey a b) = some (.ofPair a b v) := by
  rw [← StoredVerdict.key_ofPair a b v]
  exact find?_insert_self rs _

/-- A verdict on record for two identities is given for them. -/
theorem get?_of_find? {rs : Records} {a b : Identity} {v : Verdict}
    (h : rs.find? (Identity.pairKey a b) = some (.ofPair a b v)) : rs.get? a b = some v := by
  rw [get?_eq, h]
  simp [StoredVerdict.isFor_ofPair, StoredVerdict.verdict_ofPair]

/-- A verdict that is put is given back. -/
theorem get?_put_self (rs : Records) (a b : Identity) (v : Verdict) :
    (rs.put a b v).get? a b = some v := get?_of_find? (rs.find?_put_self a b v)

/-! ### Order -/

/-- The records are in the order of their keys. -/
def Sorted (rs : Records) : Prop := rs.toList.Pairwise (StoredVerdict.before · · = true)

theorem sorted_empty : empty.Sorted := .nil

theorem Sorted.insert {rs : Records} (h : rs.Sorted) (s : StoredVerdict) : (rs.insert s).Sorted :=
  Ordered.pairwise_insert StoredVerdict.before_trans StoredVerdict.before_of_tie h

theorem Sorted.put {rs : Records} (h : rs.Sorted) (a b : Identity) (v : Verdict) :
    (rs.put a b v).Sorted := h.insert _

theorem sorted_ofList (ss : List StoredVerdict) : (ofList ss).Sorted := by
  have hfold (rs : Records) (h : rs.Sorted) : (ss.foldl Records.insert rs).Sorted := by
    induction ss generalizing rs with
    | nil => exact h
    | cons s ss ih => exact ih (rs.insert s) (h.insert s)
  exact hfold empty sorted_empty

/-- Records in order are made again from their list. -/
theorem Sorted.ofList_toList {rs : Records} (h : rs.Sorted) : ofList rs.toList = rs := by
  have hlist : (ofList rs.toList).toList = Ordered.ofList StoredVerdict.before rs.toList :=
    (List.foldl_hom toList fun _ _ => rfl).symm
  rw [Ordered.ofList_eq_self StoredVerdict.before_asymm h] at hlist
  exact congrArg Records.mk hlist

/-! ### Members -/

/-- A verdict that is given for two identities in order is that of a record that was made for them. -/
theorem exists_of_get? {rs : Records} {a b : Identity} {v : Verdict}
    (hbefore : a.path.before b.path = true) (h : rs.get? a b = some v) :
    ∃ x ∈ rs.toList, x.verdict = v ∧ a.same x.first = true ∧ b.same x.second = true := by
  rw [get?_eq, Option.map_eq_some_iff] at h
  obtain ⟨x, hx, rfl⟩ := h
  obtain ⟨hfind, hfor⟩ := Option.filter_eq_some_iff.mp hx
  rw [StoredVerdict.isFor, Path.inOrder_of_before hbefore] at hfor
  obtain ⟨hfirst, hsecond⟩ := Bool.and_eq_true_iff.mp hfor
  exact ⟨x, List.mem_of_find?_eq_some hfind, rfl, Identity.same_symm hfirst,
    Identity.same_symm hsecond⟩

theorem mem_put {rs : Records} {a b : Identity} {v : Verdict} {s : StoredVerdict}
    (h : s ∈ (rs.put a b v).toList) : s.verdict = v ∨ s ∈ rs.toList := by
  rcases Ordered.mem_insert h with rfl | h
  · exact .inl rfl
  · exact .inr h

theorem mem_foldl_insert {ss : List StoredVerdict} {rs : Records} {s : StoredVerdict}
    (h : s ∈ (ss.foldl insert rs).toList) : s ∈ rs.toList ∨ s ∈ ss := by
  induction ss generalizing rs with
  | nil => exact .inl h
  | cons t ss ih =>
      rcases ih h with h | h
      · rcases Ordered.mem_insert h with rfl | h
        · exact .inr (by simp)
        · exact .inl h
      · exact .inr (by simp [h])

theorem mem_ofList {ss : List StoredVerdict} {s : StoredVerdict} (h : s ∈ (ofList ss).toList) :
    s ∈ ss := by
  rcases mem_foldl_insert h with h | h
  · cases h
  · exact h

end Records

/-! ### Stores that recall -/

/-- A separate store that gives back what is put into it, whether or not it could be saved. -/
structure VerdictStore.Recalls {σ : Type} (store : VerdictStore (StateM σ)) : Prop
    extends store.Separate where
  recalled : ∀ s a b v, store.peek ((store.put a b v).run s).2 a b = some v
  flush : ∀ s x y, store.peek (store.flush.run s).2 x y = store.peek s x y

/-- A store that answers from records and changes them by what is put into it only. -/
structure VerdictStore.Holds {σ : Type} (store : VerdictStore (StateM σ)) (records : σ → Records) :
    Prop where
  peek : ∀ s a b, store.peek s a b = (records s).get? a b
  get : ∀ s a b, records ((store.get a b).run s).2 = records s
  put : ∀ s a b v, records ((store.put a b v).run s).2 = (records s).put a b v
  flush : ∀ s, records (store.flush.run s).2 = records s

/-- A store that holds records recalls what is put into it. -/
theorem VerdictStore.Holds.recalls {σ : Type} {store : VerdictStore (StateM σ)}
    {records : σ → Records} (h : store.Holds records) : store.Recalls where
  get s a b x y := by
    rw [h.peek, h.peek, h.get]
  put s a b v x y hne := by
    rw [h.peek, h.peek, h.put, Records.get?_put_of_ne v hne]
  recalled s a b v := by
    rw [h.peek, h.put, Records.get?_put_self]
  flush s x y := by
    rw [h.peek, h.peek, h.flush]

theorem VerdictStore.holds_memory : VerdictStore.memory.Holds id where
  peek _ _ _ := rfl
  get _ _ _ := rfl
  put _ _ _ _ := rfl
  flush _ := rfl

theorem VerdictStore.recalls_memory : VerdictStore.memory.Recalls := holds_memory.recalls

end Likeness
