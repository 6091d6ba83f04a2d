import Likeness.Proofs.Store.File

/-!
# Likeness.Proofs.Store.Requests

Sequences of requests to a store of verdicts.

The store in memory and the one in a file hold records (`VerdictStore.Holds`), whenever the latter
saves and whether or not it can. So both give the same answers and come to hold the same records
(`VerdictStore.Holds.run_answers`).
-/

namespace Likeness

/-- What a store of verdicts can be asked to do. -/
inductive Request where
  | get (first second : Identity)
  | put (first second : Identity) (verdict : Verdict)
  | flush
deriving DecidableEq

/-- What a request puts into a store. -/
def Request.record? : Request → Option StoredVerdict
  | .put a b v => some (.ofPair a b v)
  | .get _ _ => none
  | .flush => none

/-- Whether a request, if it asks for a verdict, is about different paths. -/
def Request.isDistinct : Request → Bool
  | .get a b => !a.path.same b.path
  | .put _ _ _ => true
  | .flush => true

/-- The records after a request. -/
def Records.serve (rs : Records) : Request → Records
  | .put a b v => rs.put a b v
  | .get _ _ => rs
  | .flush => rs

/-- The records after some requests. -/
def Records.after (rs : Records) (requests : List Request) : Records := requests.foldl serve rs

/-- Records are there from the start or were put there. -/
theorem Records.mem_after {rs : Records} {requests : List Request} {x : StoredVerdict}
    (h : x ∈ (rs.after requests).toList) :
    x ∈ rs.toList ∨ ∃ a b v, .put a b v ∈ requests ∧ x = .ofPair a b v := by
  induction requests generalizing rs with
  | nil => exact .inl h
  | cons request requests ih =>
      rcases ih h with hserved | ⟨a, b, v, hmem, hx⟩
      · cases request with
        | get a b => exact .inl hserved
        | put a b v =>
            rcases Ordered.mem_insert hserved with hx | hx
            · exact .inr ⟨a, b, v, List.mem_cons_self, hx⟩
            · exact .inl hx
        | flush => exact .inl hserved
      · exact .inr ⟨a, b, v, List.mem_cons_of_mem _ hmem, hx⟩

namespace VerdictStore

section

variable {m : Type → Type} [Monad m]

/-- Serves a request; the result is the answer to a request for a verdict. Whether a put or a flush
could save is passed over. -/
def ask (store : VerdictStore m) : Request → m (List (Option Verdict))
  | .get a b => return [← store.get a b]
  | .put a b v => do
    let _ ← store.put a b v
    return []
  | .flush => do
    let _ ← store.flush
    return []

/-- Serves some requests; the results are the answers to those for a verdict. -/
def answers (store : VerdictStore m) : List Request → m (List (Option Verdict))
  | [] => return []
  | request :: requests => return (← store.ask request) ++ (← store.answers requests)

end

variable {σ : Type} {store : VerdictStore (StateM σ)}

theorem run_ask_get (a b : Identity) (s : σ) : (store.ask (.get a b)).run s =
    ([store.peek s a b], ((store.get a b).run s).2) := rfl

theorem run_ask_put (a b : Identity) (v : Verdict) (s : σ) :
    (store.ask (.put a b v)).run s = ([], ((store.put a b v).run s).2) := rfl

theorem run_ask_flush (s : σ) : (store.ask .flush).run s = ([], (store.flush.run s).2) := rfl

theorem run_answers_cons (request : Request) (requests : List Request) (s : σ) :
    (store.answers (request :: requests)).run s =
      (((store.ask request).run s).1 ++
          ((store.answers requests).run ((store.ask request).run s).2).1,
        ((store.answers requests).run ((store.ask request).run s).2).2) := rfl

theorem run_answers_append (before after : List Request) (s : σ) :
    ((store.answers (before ++ after)).run s).2 =
      ((store.answers after).run ((store.answers before).run s).2).2 := by
  induction before generalizing s with
  | nil => rfl
  | cons request before ih =>
      rw [List.cons_append, run_answers_cons, run_answers_cons]
      exact ih _

/-- What every single request keeps, all of them keep. -/
theorem kept_answers {P : σ → Prop} {requests : List Request}
    (h : ∀ request ∈ requests, ∀ s, P s → P ((store.ask request).run s).2) {s : σ} (hs : P s) :
    P ((store.answers requests).run s).2 := by
  induction requests generalizing s with
  | nil => exact hs
  | cons request requests ih =>
      rw [run_answers_cons]
      obtain ⟨hfirst, hrest⟩ := List.forall_mem_cons.mp h
      exact ih hrest (hfirst s hs)

/-! ### Stores that hold records -/

namespace Holds

variable {records : σ → Records}

theorem run_ask (h : store.Holds records) (request : Request) (s : σ) :
    ((store.ask request).run s).1 = ((memory.ask request).run (records s)).1 ∧
      records ((store.ask request).run s).2 = (records s).serve request := by
  cases request with
  | get a b =>
      rw [run_ask_get, run_ask_get, h.peek]
      exact ⟨rfl, h.get s a b⟩
  | put a b v => exact ⟨rfl, h.put s a b v⟩
  | flush => exact ⟨rfl, h.flush s⟩

/-- **A store answers as its records in memory would**, and holds what was put into them. -/
theorem run_answers (h : store.Holds records) (requests : List Request) (s : σ) :
    ((store.answers requests).run s).1 = ((memory.answers requests).run (records s)).1 ∧
      records ((store.answers requests).run s).2 = (records s).after requests := by
  induction requests generalizing s with
  | nil => exact ⟨rfl, rfl⟩
  | cons request requests ih =>
      obtain ⟨hanswer, hrecords⟩ := h.run_ask request s
      have hmemory : ((memory.ask request).run (records s)).2 = (records s).serve request :=
        (holds_memory.run_ask request (records s)).2
      obtain ⟨hanswers, hafter⟩ := ih ((store.ask request).run s).2
      rw [run_answers_cons, run_answers_cons]
      refine ⟨?_, ?_⟩
      · rw [hanswer, hanswers, hrecords, ← hmemory]
      · rw [hafter, hrecords]
        rfl

end Holds

end VerdictStore

end Likeness
