import Likeness.Digest.Sha256
import Likeness.Failure
import Likeness.Work.Counts

/-!
# Likeness.Work.Basic

Works and their features. A work is known by its path: two works with the same path are taken to be
the same work, whatever else differs, and works are ordered by path.
-/

namespace Likeness

/-- The path of a work and the digest of its content, empty if that is not known. -/
structure Identity where
  path : Path
  digest : String
deriving DecidableEq, Inhabited

namespace Identity

/-- The identity of some content at a path. -/
def ofContent (path : Path) (content : ByteArray) : Identity := ⟨path, Sha256.hash content⟩

/-- Equality of identities: the same place and the same digest. -/
def same (a b : Identity) : Bool := a.path.same b.path && a.digest = b.digest

/-- By path, then by digest. -/
protected def compare (a b : Identity) : Ordering :=
  match a.path.compare b.path with
  | .eq => if a.digest < b.digest then .lt else if b.digest < a.digest then .gt else .eq
  | o => o

end Identity

/-- A position in a source. -/
structure Place where
  line : UInt32
  column : UInt32
deriving DecidableEq

/-- A source as it is compared: its tokens, its counts and its outline. -/
structure Work where
  identity : Identity
  /-- When the source was last changed, as text. -/
  modified : Option String
  tokens : List UInt32
  /-- Where the tokens stand; empty when that is not known. -/
  places : List Place
  operators : Counts
  keywords : Counts
  literals : Counts
  outline : Outline
  /-- Labels of the top-level declarations. -/
  heads : List String
  /-- Label ids of the outline stand for positions in this list. -/
  labels : List String
deriving DecidableEq

namespace Work

/-- The path of the source. -/
def path (w : Work) : Path := w.identity.path

/-- The label of an id, if the work knows it. -/
def label? (w : Work) (id : UInt32) : Option String := w.labels[id.toNat]?

/-- Two works in the order of their paths. -/
def inOrder (a b : Work) : Work × Work := Path.inOrder path a b

/-- What a record must meet to be a work: its outline is well nested, and its tokens have all their
places or none. -/
def check (w : Work) : Except String Unit := do
  w.outline.check.mapError Misnesting.message
  if w.places ≠ [] ∧ w.places.length ≠ w.tokens.length then
    throw (toString w.places.length ++ " token positions for " ++ toString w.tokens.length ++
      " tokens")

end Work

end Likeness
