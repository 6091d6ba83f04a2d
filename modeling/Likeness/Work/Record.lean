import Likeness.Json.Decode
import Likeness.Work.Basic

/-!
# Likeness.Work.Record

Works as JSON records. All fields but the identity may be left out of a record.
-/

namespace Likeness

open Json (Decoder Decode.slot Decode.required Decode.record)

/-! ### Writing -/

namespace Path

/-- A path is written as its text. -/
def toJson (p : Path) : Json := .string p.text

/-- Reads a path from any text. -/
def decoder : Decoder Path := fun o r => return ⟨← Json.Decode.stringAs "path string" o r⟩

end Path

namespace Identity

/-- The record of an identity. -/
def toJson (i : Identity) : Json :=
  .object [("path", i.path.toJson), ("sha256", .string i.digest)]

/-- The fields of an identity as they are found. -/
structure Draft where
  path : Option Path := none
  digest : Option String := none

/-- Reads an identity. A digest that is left out is empty. -/
def decoder : Decoder Identity :=
  Decode.record "struct WorkIdentity"
    [Decode.slot "path" Draft.path (fun d v => { d with path := v }) Path.decoder false,
     Decode.slot "sha256" Draft.digest (fun d v => { d with digest := v }) Json.Decode.string true]
    {} fun d => do
      return ⟨← Decode.required "path" d.path, d.digest.getD ""⟩

end Identity

namespace Place

/-- The record of a place. -/
def toJson (p : Place) : Json :=
  .object [("lineno", .nat p.line.toNat), ("col_offset", .nat p.column.toNat)]

/-- What was read of a place so far. -/
structure Draft where
  line : Option UInt32 := none
  column : Option UInt32 := none

/-- Reads a place, both members of which are required. -/
def decoder : Decoder Place :=
  Decode.record "struct NodeCodePlace"
    [Decode.slot "lineno" Draft.line (fun d v => { d with line := v }) Json.Decode.uint32 false,
     Decode.slot "col_offset" Draft.column (fun d v => { d with column := v })
       Json.Decode.uint32 false]
    {} fun d => do
      return ⟨← Decode.required "lineno" d.line, ← Decode.required "col_offset" d.column⟩

end Place

namespace Entry

/-- The record of an outline entry. -/
def toJson (e : Entry) : Json :=
  .object [("depth", .nat e.depth.toNat), ("uid", .nat e.label.toNat)]

/-- What was read of an outline entry so far. -/
structure Draft where
  depth : Option UInt32 := none
  label : Option UInt32 := none

/-- Reads an outline entry, both members of which are required. -/
def decoder : Decoder Entry :=
  Decode.record "struct NodeStructurePlace"
    [Decode.slot "depth" Draft.depth (fun d v => { d with depth := v }) Json.Decode.uint32 false,
     Decode.slot "uid" Draft.label (fun d v => { d with label := v }) Json.Decode.uint32 false]
    {} fun d => do
      return ⟨← Decode.required "depth" d.depth, ← Decode.required "uid" d.label⟩

end Entry

namespace Counts

/-- Counts are written as an object, with a member for each label. -/
def toJson (c : Counts) : Json :=
  .object (c.entries.map fun (label, count) => (label, .nat count.toNat))

/-- Reads counts. Of a label that is repeated the last count stands. -/
def decoder : Decoder Counts := fun o r =>
  return ofList (← Json.Decode.dictionary Json.Decode.uint64 o r)

end Counts

namespace Work

/-- The record of a work. -/
def toJson (w : Work) : Json :=
  .object <|
    [("identity", w.identity.toJson),
     ("modify_date", .option .string w.modified),
     ("tokens", .list (fun t : UInt32 => .nat t.toNat) w.tokens),
     ("tokens_pos", .list Place.toJson w.places),
     ("operators", w.operators.toJson),
     ("keywords", w.keywords.toJson),
     ("literals", w.literals.toJson),
     ("structure", .list Entry.toJson w.outline),
     ("head_nodes", .list .string w.heads)] ++
    if w.labels = [] then [] else [("labels", .list .string w.labels)]

/-- The record of a work. -/
def recordText (w : Work) : String := w.toJson.text

/-! ### Reading -/

/-- The fields of a work as they are found. -/
structure Draft where
  identity : Option Identity := none
  modified : Option (Option String) := none
  tokens : Option (List UInt32) := none
  places : Option (List Place) := none
  operators : Option Counts := none
  keywords : Option Counts := none
  literals : Option Counts := none
  outline : Option Outline := none
  heads : Option (List String) := none
  labels : Option (List String) := none

namespace Draft

/-- The fields of a record of a work, all but the identity of which can be left out. -/
def slots : List (Json.Decode.Slot Draft) :=
  [Decode.slot "identity" identity (fun d v => { d with identity := v }) Identity.decoder false,
   Decode.slot "modify_date" modified (fun d v => { d with modified := v })
     (Json.Decode.optional Json.Decode.string) true,
   Decode.slot "tokens" tokens (fun d v => { d with tokens := v })
     (Json.Decode.many Json.Decode.uint32) true,
   Decode.slot "tokens_pos" places (fun d v => { d with places := v })
     (Json.Decode.many Place.decoder) true,
   Decode.slot "operators" operators (fun d v => { d with operators := v }) Counts.decoder true,
   Decode.slot "keywords" keywords (fun d v => { d with keywords := v }) Counts.decoder true,
   Decode.slot "literals" literals (fun d v => { d with literals := v }) Counts.decoder true,
   Decode.slot "structure" outline (fun d v => { d with outline := v })
     (Json.Decode.many Entry.decoder) true,
   Decode.slot "head_nodes" heads (fun d v => { d with heads := v })
     (Json.Decode.many Json.Decode.string) true,
   Decode.slot "labels" labels (fun d v => { d with labels := v })
     (Json.Decode.many Json.Decode.string) true]

/-- The work of a draft; what was not found is empty. -/
def complete (d : Draft) : Except Json.Mismatch Work := do
  return {
    identity := ← Decode.required "identity" d.identity
    modified := d.modified.getD none
    tokens := d.tokens.getD []
    places := d.places.getD []
    operators := d.operators.getD .empty
    keywords := d.keywords.getD .empty
    literals := d.literals.getD .empty
    outline := d.outline.getD []
    heads := d.heads.getD []
    labels := d.labels.getD [] }

end Draft

/-- Reads a work, without looking at what its fields must meet together. -/
def decoder : Decoder Work := Decode.record "struct FeatureModel" Draft.slots {} Draft.complete

/-- Reads a record without checking what it must meet. -/
def ofRecordUnchecked (path : Path) (text : String) : Except LoadFault Work :=
  (Json.decode decoder text).mapError fun m => .invalidRecord path m.message

/-- Reads a record; `path` is where it comes from. -/
def ofRecord (path : Path) (text : String) : Except LoadFault Work := do
  let w ← ofRecordUnchecked path text
  w.check.mapError (.invalidRecord path)
  return w

end Work

end Likeness
