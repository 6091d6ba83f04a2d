import Likeness.Compare.Verdict
import Likeness.Ordered

/-!
# Likeness.Store.Basic

Stores of verdicts. A verdict is kept for the pair of paths of its works, in order, together with
the identities it was made for, and it is given back only while both identities are the same.
-/

namespace Likeness

/-- What a batch needs of a store. -/
structure VerdictStore (m : Type → Type) where
  get : Identity → Identity → m (Option Verdict)
  put : Identity → Identity → Verdict → m (Except StoreFault Unit)
  /-- Saves what is not saved yet. -/
  flush : m (Except StoreFault Unit)

/-- A store that keeps nothing. -/
def VerdictStore.none {m : Type → Type} [Pure m] : VerdictStore m where
  get _ _ := pure Option.none
  put _ _ _ := pure (.ok ())
  flush := pure (.ok ())

/-- A verdict with the identities that it was made for. -/
structure StoredVerdict where
  first : Identity
  second : Identity
  verdict : Verdict
deriving DecidableEq

namespace StoredVerdict

/-- The record of a pair, with the smaller path first. -/
def ofPair (a b : Identity) (v : Verdict) : StoredVerdict :=
  let (first, second) := Path.inOrder Identity.path a b
  ⟨first, second, v⟩

/-- The key of a record: the paths of its works as they stand. -/
def key (s : StoredVerdict) : Path.PairKey := Path.pairKey s.first.path s.second.path

/-- Whether a record was made for two identities, given in any order. -/
def isFor (a b : Identity) (s : StoredVerdict) : Bool :=
  let (first, second) := Path.inOrder Identity.path a b
  s.first.same first && s.second.same second

/-- The order in which records are kept. -/
def before (s t : StoredVerdict) : Bool := Path.keyBefore s.key t.key

end StoredVerdict

/-! ### Records -/

/-- Records in order, one for each pair of paths. -/
structure Records where
  toList : List StoredVerdict
deriving DecidableEq

namespace Records

/-- No records. -/
def empty : Records := ⟨[]⟩

instance : Inhabited Records := ⟨empty⟩

/-- How many records there are. -/
def size (rs : Records) : Nat := rs.toList.length

/-- Puts a record in the place of the one with its key. -/
def insert (rs : Records) (s : StoredVerdict) : Records :=
  ⟨Ordered.insert StoredVerdict.before s rs.toList⟩

/-- Records from a list; the last record of a key stands. -/
def ofList (ss : List StoredVerdict) : Records := ss.foldl insert empty

/-- The record under a key. -/
def find? (rs : Records) (key : Path.PairKey) : Option StoredVerdict :=
  rs.toList.find? (·.key == key)

/-- The verdict for two identities, given in any order. -/
def get? (rs : Records) (a b : Identity) : Option Verdict :=
  let (first, second) := Path.inOrder Identity.path a b
  ((rs.find? (Path.pairKey first.path second.path)).filter (·.isFor a b)).map (·.verdict)

/-- Keeps the verdict for two identities, given in any order. -/
def put (rs : Records) (a b : Identity) (v : Verdict) : Records := rs.insert (.ofPair a b v)

end Records

/-- A store that keeps its records in memory. -/
def VerdictStore.memory : VerdictStore (StateM Records) where
  get a b := modifyGet fun rs => (rs.get? a b, rs)
  put a b v := modifyGet fun rs => (.ok (), rs.put a b v)
  flush := pure (.ok ())

end Likeness
