import Likeness.Store.Basic
import Likeness.Proofs.Store.Pairs

/-!
# Likeness.Proofs.Store.Calls

Stores of verdicts by what they answer.

A store is *separate* when what it has for a pair of paths is only changed by putting a verdict for
that pair (`VerdictStore.Separate`). The calls that change a store are followed by running against
a copy of it that writes them down (`VerdictStore.logged`).
-/

namespace Likeness

namespace VerdictStore

variable {σ : Type}

/-- What a store would answer. -/
def peek (store : VerdictStore (StateM σ)) (s : σ) (a b : Identity) : Option Verdict :=
  ((store.get a b).run s).1

/-- What a store has for a pair of paths is only changed by putting a verdict for that pair. -/
structure Separate (store : VerdictStore (StateM σ)) : Prop where
  get : ∀ s a b x y, store.peek ((store.get a b).run s).2 x y = store.peek s x y
  put : ∀ s a b v x y, Identity.pairKey x y ≠ Identity.pairKey a b →
    store.peek ((store.put a b v).run s).2 x y = store.peek s x y

/-- A call that may change a store, with its answer. -/
inductive Call where
  | put (first second : Identity) (verdict : Verdict) (answer : Except StoreFault Unit)
  | flush (answer : Except StoreFault Unit)

namespace Call

def answer : Call → Except StoreFault Unit
  | .put _ _ _ answer => answer
  | .flush answer => answer

/-- What is put into the store. -/
def put? : Call → Option (Identity × Identity × Verdict)
  | .put first second verdict _ => some (first, second, verdict)
  | .flush _ => Option.none

def isFlush : Call → Bool
  | .put .. => false
  | .flush _ => true

end Call

/-- A store that writes down the calls that may change it. -/
def logged (store : VerdictStore (StateM σ)) : VerdictStore (StateM (σ × List Call)) where
  get a b := fun (s, calls) =>
    let (found, s') := (store.get a b).run s
    (found, s', calls)
  put a b v := fun (s, calls) =>
    let (answer, s') := (store.put a b v).run s
    (answer, s', calls ++ [.put a b v answer])
  flush := fun (s, calls) =>
    let (answer, s') := store.flush.run s
    (answer, s', calls ++ [.flush answer])

variable {store : VerdictStore (StateM σ)} {s : σ} {calls : List Call}

theorem run_get_logged (a b : Identity) : (store.logged.get a b).run (s, calls) =
    (fun x => (x.1, x.2, calls)) ((store.get a b).run s) := rfl

theorem run_put_logged (a b : Identity) (v : Verdict) : (store.logged.put a b v).run (s, calls) =
    (fun x => (x.1, x.2, calls ++ [.put a b v x.1])) ((store.put a b v).run s) := rfl

theorem run_flush_logged : store.logged.flush.run (s, calls) =
    (fun x => (x.1, x.2, calls ++ [.flush x.1])) (store.flush.run s) := rfl

end VerdictStore

/-! ### The store in memory -/

theorem StoredVerdict.key_ofPair (a b : Identity) (v : Verdict) :
    (StoredVerdict.ofPair a b v).key = Identity.pairKey a b := by
  unfold StoredVerdict.ofPair Identity.pairKey
  generalize Path.inOrder Identity.path a b = pair
  obtain ⟨first, second⟩ := pair
  rfl

namespace Records

theorem get?_eq (rs : Records) (a b : Identity) : rs.get? a b =
    ((rs.find? (Identity.pairKey a b)).filter (·.isFor a b)).map (·.verdict) := by
  unfold Records.get? Identity.pairKey
  generalize Path.inOrder Identity.path a b = pair
  obtain ⟨first, second⟩ := pair
  rfl

/-- Records under other keys stay. -/
theorem find?_insert_of_ne {rs : Records} {s : StoredVerdict} {key : Path.PairKey}
    (hkey : key ≠ s.key) : (rs.insert s).find? key = rs.find? key := by
  obtain ⟨records⟩ := rs
  have hs : (s.key == key) = false := beq_false_of_ne hkey.symm
  simp only [Records.insert, find?]
  induction records with
  | nil => simp [Ordered.insert, hs]
  | cons t records ih =>
      rw [Ordered.insert]
      split
      next => rw [List.find?_cons_of_neg (by simp [hs])]
      next hst =>
        split
        next => rw [List.find?_cons, List.find?_cons, ih]
        next hts =>
          have hsame : s.key = t.key := Path.eq_of_not_keyBefore
            (Bool.eq_false_of_not_eq_true hst) (Bool.eq_false_of_not_eq_true hts)
          rw [List.find?_cons_of_neg (by simp [hs]),
            List.find?_cons_of_neg (by simp [← hsame, hs])]

theorem find?_put_of_ne {rs : Records} {a b : Identity} (v : Verdict) {key : Path.PairKey}
    (h : key ≠ Identity.pairKey a b) : (rs.put a b v).find? key = rs.find? key :=
  find?_insert_of_ne (by rwa [StoredVerdict.key_ofPair])

/-- Verdicts for other pairs of paths stay. -/
theorem get?_put_of_ne {rs : Records} {a b x y : Identity} (v : Verdict)
    (h : Identity.pairKey x y ≠ Identity.pairKey a b) : (rs.put a b v).get? x y = rs.get? x y := by
  rw [get?_eq, get?_eq, find?_put_of_ne v h]

end Records

theorem VerdictStore.separate_memory : VerdictStore.memory.Separate where
  get _ _ _ _ _ := rfl
  put _ _ _ v _ _ hne := Records.get?_put_of_ne v hne

theorem VerdictStore.separate_none {σ : Type} :
    (VerdictStore.none : VerdictStore (StateM σ)).Separate where
  get _ _ _ _ _ := rfl
  put _ _ _ _ _ _ _ := rfl

end Likeness
