import Likeness.Digest.Xxh3
import Likeness.Files.Text
import Likeness.Number.Decimal
import Likeness.Work.Record

/-!
# Likeness.Store.FeatureCache

A directory of work records, so that a source need not be read as a work again. The record of a
work is found under a digest of its path. It counts only if it is a record of the identity that is
asked for, so a digest that two paths share does no harm.
-/

namespace Likeness

/-- The cache in a directory. -/
structure FeatureCache where
  root : Path

namespace FeatureCache

/-- The file that holds the record of a path. -/
def entry (c : FeatureCache) (p : Path) : Path :=
  c.root.join (hexadecimal 16 (Xxh3.hash p.text.toUTF8).toNat ++ ".json")

variable {m : Type → Type} [Monad m] [Host m]

/-- Uses a directory, which is made if it is not there. -/
def open? (root : Path) : m (Except StoreFault FeatureCache) := do
  return ((← Host.makeDirectories root).mapError fun f => .writeFailed root f).map fun _ => ⟨root⟩

/-- Writes the record of a work, over any that is there. -/
def save (c : FeatureCache) (w : Work) : m (Except StoreFault Unit) := do
  let p := c.entry w.path
  return (← Host.writeText p w.recordText).mapError fun f => .writeFailed p f

/-- The work of an identity, if its record is there. -/
def get? (c : FeatureCache) (i : Identity) : m (Option Work) := do
  match ← Host.readText (c.entry i.path) with
  | .error _ => return none
  | .ok text =>
    match Work.ofRecord i.path text with
    | .error _ => return none
    | .ok w => return if w.identity.same i then some w else none

end FeatureCache

end Likeness
