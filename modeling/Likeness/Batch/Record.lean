import Likeness.Batch.Outcome
import Likeness.Compare.Record

/-!
# Likeness.Batch.Record

Outcomes and reports as JSON records.
-/

namespace Likeness.Batch

open Json (Decoder Decode.slot Decode.required Decode.record Decode.choice Decode.tagged
  Decode.string)

namespace PairFaultKind

/-- The names of all kinds of faults in records. -/
def names : List String := ["invalid_structure", "comparison_panic", "cancelled"]

/-- The name of a kind in records, which `decoder` reads back. -/
def name : PairFaultKind → String
  | .invalidStructure => "invalid_structure"
  | .comparisonPanic => "comparison_panic"
  | .cancelled => "cancelled"

/-- The kind at a position of `names`. -/
def ofIndex : Nat → PairFaultKind
  | 0 => .invalidStructure
  | 1 => .comparisonPanic
  | _ => .cancelled

/-- Reads a kind by its name. -/
def decoder : Decoder PairFaultKind := fun o r => return ofIndex (← Decode.choice names o r)

end PairFaultKind

namespace PairFault

/-- The record of a fault, with its kind by name. -/
def toJson (f : PairFault) : Json :=
  .object [("first", f.first.toJson), ("second", f.second.toJson), ("kind", .string f.kind.name),
    ("message", .string f.message)]

/-- What was read of the record of a fault so far. -/
structure Draft where
  first : Option Path := none
  second : Option Path := none
  kind : Option PairFaultKind := none
  message : Option String := none

/-- Reads a fault, all of whose members are required. -/
def decoder : Decoder PairFault :=
  Decode.record "struct PairError"
    [Decode.slot "first" Draft.first (fun d v => { d with first := v }) Path.decoder false,
     Decode.slot "second" Draft.second (fun d v => { d with second := v }) Path.decoder false,
     Decode.slot "kind" Draft.kind (fun d v => { d with kind := v }) PairFaultKind.decoder false,
     Decode.slot "message" Draft.message (fun d v => { d with message := v }) Decode.string false]
    {} fun d => do
      return ⟨← Decode.required "first" d.first, ← Decode.required "second" d.second,
        ← Decode.required "kind" d.kind, ← Decode.required "message" d.message⟩

end PairFault

namespace Outcome

/-- The members of an outcome with a verdict. -/
def pairMembers (first second : Identity) (v : Verdict) : List (String × Json) :=
  [("first", first.toJson), ("second", second.toJson), ("result", v.toJson)]

/-- The way a job ended comes first, under `status`. -/
def toJson : Outcome → Json
  | .cached a b v => .object (("status", .string "cached") :: pairMembers a b v)
  | .computed a b v => .object (("status", .string "computed") :: pairMembers a b v)
  | .failed f => .object [("status", .string "failed"), ("error", f.toJson)]

/-- What was read of an outcome with a verdict so far. -/
structure PairDraft where
  first : Option Identity := none
  second : Option Identity := none
  verdict : Option Verdict := none

/-- An outcome with a verdict. -/
def pairDecoder (variant : String) (make : Identity → Identity → Verdict → Outcome) :
    Decoder Outcome :=
  Decode.record ("struct variant PairOutcome::" ++ variant)
    [Decode.slot "first" PairDraft.first (fun d v => { d with first := v })
       Identity.decoder false,
     Decode.slot "second" PairDraft.second (fun d v => { d with second := v })
       Identity.decoder false,
     Decode.slot "result" PairDraft.verdict (fun d v => { d with verdict := v })
       Verdict.decoder false]
    {} fun d => do
      return make (← Decode.required "first" d.first) (← Decode.required "second" d.second)
        (← Decode.required "result" d.verdict)

/-- What was read of a failed outcome so far. -/
structure FaultDraft where
  fault : Option PairFault := none

/-- Reads a failed outcome. -/
def faultDecoder : Decoder Outcome :=
  Decode.record "struct variant PairOutcome::Failed"
    [Decode.slot "error" FaultDraft.fault (fun d v => { d with fault := v })
       PairFault.decoder false]
    {} fun d => return .failed (← Decode.required "error" d.fault)

/-- Reads an outcome in the way that its `status` tells. -/
def decoder : Decoder Outcome :=
  Decode.tagged "internally tagged enum PairOutcome" "status" ["cached", "computed", "failed"]
    fun
    | 0 => pairDecoder "Cached" .cached
    | 1 => pairDecoder "Computed" .computed
    | _ => faultDecoder

end Outcome

namespace Report

/-- The record of a report. The status is written as its bits. -/
def toJson (r : Report) : Json :=
  .object [("outcomes", .list Outcome.toJson r.outcomes), ("threshold", .nat r.threshold.toNat),
    ("cache_hits", .nat r.cacheHits), ("computed", .nat r.computed),
    ("failures", .list PairFault.toJson r.failures),
    ("store_warnings", .list .string r.storeWarnings),
    ("diagnostics", .list .string r.diagnostics),
    ("elapsed", .object [("secs", .nat r.elapsed.seconds), ("nanos", .nat r.elapsed.nanoseconds)]),
    ("status", .nat r.status.bits.toNat)]

end Report

end Likeness.Batch
