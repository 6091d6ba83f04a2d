import Likeness.Compare.Record
import Likeness.Store.Basic

/-!
# Likeness.Store.Record

Stored verdicts, and the document that holds them, as JSON records.
-/

namespace Likeness

open Json (Decoder Decode.slot Decode.required Decode.record Decode.many Decode.uint32)

namespace StoredVerdict

/-- The record of a stored verdict. -/
def toJson (s : StoredVerdict) : Json :=
  .object [("first", s.first.toJson), ("second", s.second.toJson), ("result", s.verdict.toJson)]

/-- What was read of a stored verdict so far. -/
structure Draft where
  first : Option Identity := none
  second : Option Identity := none
  verdict : Option Verdict := none

/-- Reads a stored verdict, as it stands: its works need not be in order. -/
def decoder : Decoder StoredVerdict :=
  Decode.record "struct StoredResult"
    [Decode.slot "first" Draft.first (fun d v => { d with first := v }) Identity.decoder false,
     Decode.slot "second" Draft.second (fun d v => { d with second := v }) Identity.decoder false,
     Decode.slot "result" Draft.verdict (fun d v => { d with verdict := v }) Verdict.decoder false]
    {} fun d => do
      return ⟨← Decode.required "first" d.first, ← Decode.required "second" d.second,
        ← Decode.required "result" d.verdict⟩

end StoredVerdict

/-- The document in which records are kept. -/
structure StoreDocument where
  version : UInt32
  records : List StoredVerdict

namespace StoreDocument

/-- The version that is written and read. -/
def currentVersion : UInt32 := 1

/-- The record of a document, with its version in front. -/
def toJson (d : StoreDocument) : Json :=
  .object [("version", .nat d.version.toNat), ("records", .list StoredVerdict.toJson d.records)]

/-- What was read of a document so far. -/
structure Draft where
  version : Option UInt32 := none
  records : Option (List StoredVerdict) := none

/-- Reads a document of any version. -/
def decoder : Decoder StoreDocument :=
  Decode.record "struct ReportDocument"
    [Decode.slot "version" Draft.version (fun d v => { d with version := v }) Decode.uint32 false,
     Decode.slot "records" Draft.records (fun d v => { d with records := v })
       (Decode.many StoredVerdict.decoder) false]
    {} fun d => do
      return ⟨← Decode.required "version" d.version, ← Decode.required "records" d.records⟩

/-- Records as the text of a document. -/
def ofRecords (rs : Records) : String := (StoreDocument.mk currentVersion rs.toList).toJson.indented

end StoreDocument

end Likeness
