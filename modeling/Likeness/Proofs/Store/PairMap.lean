import Likeness.Proofs.Store.Requests

/-!
# Likeness.Proofs.Store.PairMap

A store of verdicts as a map of unordered pairs of paths (`PairMap`). For a pair it has the digests of
both works and the verdict of what was put there last. Records in order stand for such a map
(`PairMap.ofRecords`), and the store in memory answers as that map does, as long as it is asked about
different paths (`PairMap.answers_memory`).
-/

namespace Likeness

namespace Identity

/-- What tells works apart: the components of the path and the digest. -/
def stamp (i : Identity) : List (List Nat) × String := (i.path.key, i.digest)

/-- The paths of two identities in no order. -/
def pair (a b : Identity) : Sym2 (List (List Nat)) := Path.pair a.path b.path

/-- The paths of two identities in no order, each with its digest. -/
def stamps (a b : Identity) : Sym2 (List (List Nat) × String) := s(a.stamp, b.stamp)

theorem same_iff {a b : Identity} : a.same b = true ↔ a.stamp = b.stamp := by
  simp [same, Path.same, stamp, Prod.ext_iff]

theorem key_eq_of_stamp {a b : Identity} (h : a.stamp = b.stamp) : a.path.key = b.path.key :=
  congrArg Prod.fst h

theorem pair_comm (a b : Identity) : pair a b = pair b a := Sym2.eq_swap

end Identity

/-! ### Records in order -/

namespace StoredVerdict

/-- The paths of a record in no order. -/
def pair (x : StoredVerdict) : Sym2 (List (List Nat)) := Identity.pair x.first x.second

/-- The path of the second work does not come before that of the first. -/
def InOrder (x : StoredVerdict) : Prop := ¬ x.second.path.before x.first.path = true

theorem inOrder_ofPair (a b : Identity) (v : Verdict) : (ofPair a b v).InOrder :=
  Path.not_before_inOrder Identity.path a b

theorem pair_ofPair (a b : Identity) (v : Verdict) : (ofPair a b v).pair = Identity.pair a b :=
  Path.pair_inOrder Identity.path a b

/-- A record in order is made again from its parts. -/
theorem InOrder.ofPair_eq {x : StoredVerdict} (h : x.InOrder) :
    ofPair x.first x.second x.verdict = x := by
  unfold ofPair Path.inOrder
  rw [if_neg h]

/-- Records in order have the same key if they are for the same pair. -/
theorem InOrder.key_eq_iff {x y : StoredVerdict} (hx : x.InOrder) (hy : y.InOrder) :
    x.key = y.key ↔ x.pair = y.pair := by
  constructor
  · intro h
    exact congrArg (fun k : Path.PairKey => s(k.1, k.2)) h
  · intro h
    refine Path.eq_of_mk_eq ?_ ?_ h
    · simpa [InOrder, Path.before, key, Path.pairKey] using hx
    · simpa [InOrder, Path.before, key, Path.pairKey] using hy

/-- A record is for two identities with different paths if these are the ones it was made for, in any
order. -/
theorem isFor_ofPair_iff {a b x y : Identity} (v : Verdict) (hne : ¬ x.path.same y.path = true) :
    (ofPair a b v).isFor x y = true ↔ Identity.stamps a b = Identity.stamps x y := by
  have hfor : (ofPair a b v).isFor x y = true ↔
      (Path.inOrder Identity.path a b).1.stamp = (Path.inOrder Identity.path x y).1.stamp ∧
        (Path.inOrder Identity.path a b).2.stamp = (Path.inOrder Identity.path x y).2.stamp := by
    rw [← Identity.same_iff, ← Identity.same_iff, ← Bool.and_eq_true]
    rfl
  have hab := Path.mk_inOrder Identity.path Identity.stamp a b
  have hxy := Path.mk_inOrder Identity.path Identity.stamp x y
  rw [hfor, Identity.stamps, Identity.stamps, ← hab, ← hxy, Sym2.eq_iff]
  refine (or_iff_left ?_).symm
  intro hcrossed
  -- Were they exchanged, the later path of the record would be the earlier one of the two.
  have hfirst := Identity.key_eq_of_stamp hcrossed.1
  have hsecond := Identity.key_eq_of_stamp hcrossed.2
  have hlater := Path.not_before_inOrder Identity.path a b
  have hearlier := Path.before_inOrder hne
  rw [Path.before, ← hfirst, ← hsecond] at hearlier
  exact hlater hearlier

/-- Pairs of paths have the same key if they are the same. -/
theorem pairKey_eq_iff {a b x y : Identity} :
    Identity.pairKey x y = Identity.pairKey a b ↔ Identity.pair x y = Identity.pair a b := by
  -- The verdict of a record does not count, so any will do.
  have v : Verdict := .quick ⟨.one, .one, .one, .one, .one⟩
  rw [← key_ofPair x y v, ← key_ofPair a b v, ← pair_ofPair x y v, ← pair_ofPair a b v]
  exact (inOrder_ofPair x y v).key_eq_iff (inOrder_ofPair a b v)

end StoredVerdict

/-! ### The map -/

/-- What a map has for a pair of paths. -/
structure PairEntry where
  /-- The digest of each of the two works, by its path. -/
  digest : List (List Nat) → String
  verdict : Verdict

namespace PairEntry

def ofPair (a b : Identity) (v : Verdict) : PairEntry :=
  ⟨fun key => if key = a.path.key then a.digest else b.digest, v⟩

theorem verdict_ofPair (a b : Identity) (v : Verdict) : (ofPair a b v).verdict = v := rfl

/-- Whether two works with these paths have these digests. -/
def isFor (a b : Identity) (e : PairEntry) : Bool :=
  e.digest a.path.key = a.digest && e.digest b.path.key = b.digest

theorem isFor_comm (a b : Identity) (e : PairEntry) : e.isFor a b = e.isFor b a := by
  simp only [isFor, Bool.and_comm]

/-- For two different paths, the digests are those of the identities that the entry was made for if the
identities are the same, in any order. -/
theorem isFor_ofPair_iff {a b x y : Identity} (v : Verdict) (hne : ¬ x.path.same y.path = true)
    (hpair : Identity.pair x y = Identity.pair a b) :
    (ofPair a b v).isFor x y = true ↔ Identity.stamps a b = Identity.stamps x y := by
  simp only [Path.same, beq_iff_eq] at hne
  simp only [isFor, ofPair, Identity.stamps, Identity.stamp, Bool.and_eq_true, Sym2.eq_iff,
    Prod.mk.injEq]
  rcases Sym2.eq_iff.mp hpair with ⟨hx, hy⟩ | ⟨hx, hy⟩
  · rw [hx, hy] at hne ⊢
    simp [hne, Ne.symm hne]
  · rw [hx, hy] at hne ⊢
    simp [hne, Ne.symm hne, and_comm]

end PairEntry

/-- A map of unordered pairs of paths. -/
structure PairMap where
  entry? : Sym2 (List (List Nat)) → Option PairEntry

namespace PairMap

def empty : PairMap := ⟨fun _ => none⟩

/-- The verdict for two identities, if what the map has for their paths has their digests. -/
def get? (m : PairMap) (a b : Identity) : Option Verdict :=
  ((m.entry? (Identity.pair a b)).filter (·.isFor a b)).map (·.verdict)

/-- Puts digests and verdict in the place of those that the map has for the pair. -/
def put (m : PairMap) (a b : Identity) (v : Verdict) : PairMap :=
  ⟨fun pair => if pair = Identity.pair a b then some (.ofPair a b v) else m.entry? pair⟩

/-- The map with what some records hold. -/
def ofRecords (rs : Records) : PairMap :=
  rs.toList.foldl (fun m x => m.put x.first x.second x.verdict) empty

/-- The order of two identities does not count. -/
theorem get?_comm (m : PairMap) (a b : Identity) : m.get? a b = m.get? b a := by
  simp only [get?, Identity.pair_comm a b, PairEntry.isFor_comm a b]

theorem get?_put_of_ne {m : PairMap} {a b x y : Identity} (v : Verdict)
    (h : Identity.pair x y ≠ Identity.pair a b) : (m.put a b v).get? x y = m.get? x y := by
  simp only [get?, put, if_neg h]

theorem get?_put_of_eq {m : PairMap} {a b x y : Identity} (v : Verdict)
    (h : Identity.pair x y = Identity.pair a b) : (m.put a b v).get? x y =
      if (PairEntry.ofPair a b v).isFor x y then some v else none := by
  simp only [get?, put, h, if_true]
  cases hfor : (PairEntry.ofPair a b v).isFor x y with
  | true => simp [hfor, PairEntry.verdict_ofPair]
  | false => simp [hfor]

end PairMap

/-- The store that is a map of unordered pairs. -/
def VerdictStore.pairMap : VerdictStore (StateM PairMap) where
  get a b := modifyGet fun m => (m.get? a b, m)
  put a b v := modifyGet fun m => (.ok (), m.put a b v)
  flush := pure (.ok ())

/-! ### Records as a map -/

namespace Records

/-- What is found for a pair after something was put for it. -/
theorem get?_put_of_eq {rs : Records} {a b x y : Identity} (v : Verdict)
    (h : Identity.pairKey x y = Identity.pairKey a b) : (rs.put a b v).get? x y =
      if (StoredVerdict.ofPair a b v).isFor x y then some v else none := by
  rw [get?_eq, h, find?_put_self]
  cases hfor : (StoredVerdict.ofPair a b v).isFor x y with
  | true => simp [hfor, StoredVerdict.verdict_ofPair]
  | false => simp [hfor]

/-- Asked about different paths, the records answer as the map. -/
def Denote (rs : Records) (m : PairMap) : Prop :=
  ∀ a b : Identity, ¬ a.path.same b.path = true → rs.get? a b = m.get? a b

theorem denote_empty : empty.Denote .empty := fun _ _ _ => rfl

theorem Denote.put {rs : Records} {m : PairMap} (h : rs.Denote m) (a b : Identity) (v : Verdict) :
    (rs.put a b v).Denote (m.put a b v) := by
  intro x y hne
  by_cases hpair : Identity.pair x y = Identity.pair a b
  · rw [get?_put_of_eq v (StoredVerdict.pairKey_eq_iff.mpr hpair), PairMap.get?_put_of_eq v hpair]
    simp only [StoredVerdict.isFor_ofPair_iff v hne, PairEntry.isFor_ofPair_iff v hne hpair]
  · rw [get?_put_of_ne v fun hkey => hpair (StoredVerdict.pairKey_eq_iff.mp hkey),
      PairMap.get?_put_of_ne v hpair]
    exact h x y hne

/-- All records are in order, and so is each one by itself. -/
structure Tidy (rs : Records) : Prop where
  sorted : rs.Sorted
  inOrder : ∀ x ∈ rs.toList, x.InOrder

theorem tidy_empty : empty.Tidy := ⟨sorted_empty, List.forall_mem_nil _⟩

theorem Tidy.put {rs : Records} (h : rs.Tidy) (a b : Identity) (v : Verdict) :
    (rs.put a b v).Tidy := by
  refine ⟨h.sorted.put a b v, ?_⟩
  intro x hx
  rcases Ordered.mem_insert hx with rfl | hx
  · exact StoredVerdict.inOrder_ofPair a b v
  · exact h.inOrder x hx

theorem Tidy.after {rs : Records} (h : rs.Tidy) (requests : List Request) :
    (rs.after requests).Tidy := by
  induction requests generalizing rs with
  | nil => exact h
  | cons request requests ih =>
      refine ih ?_
      cases request with
      | get a b => exact h
      | put a b v => exact h.put a b v
      | flush => exact h

/-- **Records in order answer as the map with what they hold.** -/
theorem Tidy.denote {rs : Records} (h : rs.Tidy) : rs.Denote (.ofRecords rs) := by
  have hfold (ss : List StoredVerdict) (hss : ∀ x ∈ ss, x.InOrder) (before : Records) (m : PairMap)
      (hbefore : before.Denote m) : (ss.foldl insert before).Denote
        (ss.foldl (fun m x => m.put x.first x.second x.verdict) m) := by
    induction ss generalizing before m with
    | nil => exact hbefore
    | cons x ss ih =>
        obtain ⟨hx, hss⟩ := List.forall_mem_cons.mp hss
        have hput := hbefore.put x.first x.second x.verdict
        rw [Records.put, hx.ofPair_eq] at hput
        exact ih hss _ _ hput
  have hdenote := hfold rs.toList h.inOrder .empty .empty denote_empty
  change (ofList rs.toList).Denote _ at hdenote
  rw [h.sorted.ofList_toList] at hdenote
  exact hdenote

end Records

/-! ### Answers -/

namespace VerdictStore

/-- **The store in memory answers as the map**, as long as it is asked about different paths. -/
theorem answers_memory {rs : Records} {m : PairMap} (h : rs.Denote m) {requests : List Request}
    (hrequests : ∀ request ∈ requests, request.isDistinct = true) :
    ((memory.answers requests).run rs).1 = ((pairMap.answers requests).run m).1 := by
  induction requests generalizing rs m with
  | nil => rfl
  | cons request requests ih =>
      obtain ⟨hfirst, hrest⟩ := List.forall_mem_cons.mp hrequests
      rw [run_answers_cons, run_answers_cons]
      cases request with
      | get a b =>
          have hanswer : memory.peek rs a b = pairMap.peek m a b :=
            h a b (by simpa [Request.isDistinct] using hfirst)
          rw [run_ask_get, run_ask_get, hanswer]
          exact congrArg (_ :: ·) (ih h hrest)
      | put a b v => exact ih (h.put a b v) hrest
      | flush => exact ih h hrest

end VerdictStore

end Likeness
