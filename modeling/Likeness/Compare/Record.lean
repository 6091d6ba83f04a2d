import Likeness.Compare.Verdict
import Likeness.Work.Record

/-!
# Likeness.Compare.Record

Verdicts as JSON records.
-/

namespace Likeness

open Json (Decoder Mismatch Decode.slot Decode.required Decode.record Decode.many Decode.pair
  Decode.tagged Decode.binary64 Decode.int64 Decode.string Decode.optional)

/-! ### Parts -/

namespace Moment

/-- A moment is written as a date with a time and an offset. -/
def toJson (t : Moment) : Json := .string t.text

/-- Reads a moment and tells what is wrong with its text. -/
def decoder : Decoder Moment := fun o r => do
  let text ← Json.Decode.stringAs "an RFC 3339 formatted date and time string" o r
  (Moment.parse text).mapError fun f => .text f.message

end Moment

namespace Fraction

/-- A fraction is written as the list of its two numbers. -/
def toJson (f : Fraction) : Json :=
  .array [.int f.numerator.toInt, .int f.denominator.toInt]

/-- Reads two numbers, which may be any, a denominator of zero included. -/
def decoder : Decoder Fraction := fun o r => do
  let (n, d) ← Decode.pair Decode.int64 Decode.int64 o r
  return ⟨n, d⟩

end Fraction

namespace Matrix

/-- A matrix is written row by row. -/
def toJson (m : Matrix) : Json := .list (.list Fraction.toJson) m.cells

/-- Reads rows, which need not be of one length. -/
def decoder : Decoder Matrix := fun o r => return ⟨← Decode.many (Decode.many Fraction.decoder) o r⟩

end Matrix

namespace OutlineLikeness

/-- The likeness of two outlines, with the scores of their children. -/
def toJson (l : OutlineLikeness) : Json :=
  .object [("similarity", .real l.similarity), ("compliance_matrix", l.matrix.toJson)]

/-- What was read of the likeness of two outlines so far. -/
structure Draft where
  similarity : Option Binary64 := none
  matrix : Option Matrix := none

/-- Reads the likeness of two outlines, both members of which are required. -/
def decoder : Decoder OutlineLikeness :=
  Decode.record "struct StructureMetrics"
    [Decode.slot "similarity" Draft.similarity (fun d v => { d with similarity := v })
       Decode.binary64 false,
     Decode.slot "compliance_matrix" Draft.matrix (fun d v => { d with matrix := v })
       Matrix.decoder false]
    {} fun d => do
      return ⟨← Decode.required "similarity" d.similarity,
        ← Decode.required "compliance_matrix" d.matrix⟩

end OutlineLikeness

namespace QuickLikeness

/-- The members of the quick measures, which a verdict shares with them. -/
def members (q : QuickLikeness) : List (String × Json) :=
  [("jakkar", .real q.tokens), ("operators", .real q.operators), ("keywords", .real q.keywords),
   ("literals", .real q.literals), ("weighted_average", .real q.average)]

/-- The record of the quick measures. -/
def toJson (q : QuickLikeness) : Json := .object q.members

/-- What was read of the quick measures so far. -/
structure Draft where
  tokens : Option Binary64 := none
  operators : Option Binary64 := none
  keywords : Option Binary64 := none
  literals : Option Binary64 := none
  average : Option Binary64 := none

/-- Reads the quick measures, all of which are required. -/
def decoder : Decoder QuickLikeness :=
  Decode.record "struct FastMetrics"
    [Decode.slot "jakkar" Draft.tokens (fun d v => { d with tokens := v }) Decode.binary64 false,
     Decode.slot "operators" Draft.operators (fun d v => { d with operators := v })
       Decode.binary64 false,
     Decode.slot "keywords" Draft.keywords (fun d v => { d with keywords := v })
       Decode.binary64 false,
     Decode.slot "literals" Draft.literals (fun d v => { d with literals := v })
       Decode.binary64 false,
     Decode.slot "weighted_average" Draft.average (fun d v => { d with average := v })
       Decode.binary64 false]
    {} fun d => do
      return ⟨← Decode.required "jakkar" d.tokens, ← Decode.required "operators" d.operators,
        ← Decode.required "keywords" d.keywords, ← Decode.required "literals" d.literals,
        ← Decode.required "weighted_average" d.average⟩

end QuickLikeness

namespace Summary

/-- The record of a summary. A date that is not known is written as null. -/
def toJson (s : Summary) : Json :=
  .object [("identity", s.identity.toJson), ("modify_date", .option .string s.modified),
    ("head_nodes", .list .string s.heads)]

/-- What was read of a summary so far. -/
structure Draft where
  identity : Option Identity := none
  modified : Option (Option String) := none
  heads : Option (List String) := none

/-- The date may be left out of an object. -/
def decoder : Decoder Summary :=
  Decode.record "struct WorkSummary"
    [Decode.slot "identity" Draft.identity (fun d v => { d with identity := v })
       Identity.decoder false,
     Decode.slot "modify_date" Draft.modified (fun d v => { d with modified := v })
       (Decode.optional Decode.string) false,
     Decode.slot "head_nodes" Draft.heads (fun d v => { d with heads := v })
       (Decode.many Decode.string) false]
    {} fun d => do
      return ⟨← Decode.required "identity" d.identity, d.modified.getD none,
        ← Decode.required "head_nodes" d.heads⟩

end Summary

namespace FullVerdict

/-- The members of a full verdict, which come behind its `kind`. -/
def members (f : FullVerdict) : List (String × Json) :=
  [("date", f.date.toJson), ("first", f.first.toJson), ("second", f.second.toJson),
   ("fast", f.quick.toJson), ("structure", f.outline.toJson)]

/-- What was read of a full verdict so far. -/
structure Draft where
  date : Option Moment := none
  first : Option Summary := none
  second : Option Summary := none
  quick : Option QuickLikeness := none
  outline : Option OutlineLikeness := none

/-- Reads a full verdict, all of whose members are required. -/
def decoder : Decoder FullVerdict :=
  Decode.record "struct FullCompareInfo"
    [Decode.slot "date" Draft.date (fun d v => { d with date := v }) Moment.decoder false,
     Decode.slot "first" Draft.first (fun d v => { d with first := v }) Summary.decoder false,
     Decode.slot "second" Draft.second (fun d v => { d with second := v }) Summary.decoder false,
     Decode.slot "fast" Draft.quick (fun d v => { d with quick := v }) QuickLikeness.decoder false,
     Decode.slot "structure" Draft.outline (fun d v => { d with outline := v })
       OutlineLikeness.decoder false]
    {} fun d => do
      return ⟨← Decode.required "date" d.date, ← Decode.required "first" d.first,
        ← Decode.required "second" d.second, ← Decode.required "fast" d.quick,
        ← Decode.required "structure" d.outline⟩

end FullVerdict

/-! ### Verdicts -/

namespace Verdict

/-- The variant comes first, under `kind`. -/
def toJson : Verdict → Json
  | .quick q => .object (("kind", .string "fast") :: q.members)
  | .full f => .object (("kind", .string "full") :: f.members)

/-- Reads a verdict in the way that its `kind` tells. -/
def decoder : Decoder Verdict :=
  Decode.tagged "internally tagged enum CompareResult" "kind" ["fast", "full"] fun i o r =>
    if i = 0 then return .quick (← QuickLikeness.decoder o r)
    else return .full (← FullVerdict.decoder o r)

end Verdict

end Likeness
