import Likeness.Settings.Basic
import Likeness.Work.Record

/-!
# Likeness.Settings.Record

Settings as JSON records. What a record leaves out has its default, but weights are given all or
not at all.
-/

namespace Likeness

open Json (Decoder Decode.slot Decode.required Decode.record Decode.choice Decode.binary64
  Decode.boolean Decode.size Decode.uint8 Decode.uint32 Decode.uint64 Decode.optional)

namespace Weights

/-- The record of the weights. -/
def toJson (w : Weights) : Json :=
  .object [("jakkar", .real w.tokens), ("operators", .real w.operators),
    ("keywords", .real w.keywords), ("literals", .real w.literals)]

/-- What was read of the weights so far. -/
structure Draft where
  tokens : Option Binary64 := none
  operators : Option Binary64 := none
  keywords : Option Binary64 := none
  literals : Option Binary64 := none

/-- Reads the weights, all of which are required. -/
def decoder : Decoder Weights :=
  Decode.record "struct FastWeights"
    [Decode.slot "jakkar" Draft.tokens (fun d v => { d with tokens := v }) Decode.binary64 false,
     Decode.slot "operators" Draft.operators (fun d v => { d with operators := v })
       Decode.binary64 false,
     Decode.slot "keywords" Draft.keywords (fun d v => { d with keywords := v })
       Decode.binary64 false,
     Decode.slot "literals" Draft.literals (fun d v => { d with literals := v })
       Decode.binary64 false]
    {} fun d => do
      return ⟨← Decode.required "jakkar" d.tokens, ← Decode.required "operators" d.operators,
        ← Decode.required "keywords" d.keywords, ← Decode.required "literals" d.literals⟩

end Weights

namespace CompareSettings

/-- The record of the section on comparisons. -/
def toJson (s : CompareSettings) : Json :=
  .object [("ngrams_length", .nat s.windowLength.toNat), ("weights", s.weights.toJson),
    ("threshold", .nat s.threshold.toNat), ("ignore_threshold", .bool s.ignoreThreshold),
    ("max_depth", .option (fun d : UInt32 => .nat d.toNat) s.maxDepth)]

/-- What was read of the section so far. A depth may be read as not limited. -/
structure Draft where
  windowLength : Option UInt64 := none
  weights : Option Weights := none
  threshold : Option UInt8 := none
  ignoreThreshold : Option Bool := none
  maxDepth : Option (Option UInt32) := none

namespace Draft

/-- The settings of a draft, with defaults for what was not found. -/
def complete (d : Draft) : CompareSettings :=
  let s := CompareSettings.default
  { windowLength := d.windowLength.getD s.windowLength
    weights := d.weights.getD s.weights
    threshold := d.threshold.getD s.threshold
    ignoreThreshold := d.ignoreThreshold.getD s.ignoreThreshold
    maxDepth := d.maxDepth.getD s.maxDepth }

end Draft

/-- Reads the section on comparisons. -/
def decoder : Decoder CompareSettings :=
  Decode.record "struct CompareConfig"
    [Decode.slot "ngrams_length" Draft.windowLength (fun d v => { d with windowLength := v })
       Decode.size true,
     Decode.slot "weights" Draft.weights (fun d v => { d with weights := v }) Weights.decoder true,
     Decode.slot "threshold" Draft.threshold (fun d v => { d with threshold := v })
       Decode.uint8 true,
     Decode.slot "ignore_threshold" Draft.ignoreThreshold
       (fun d v => { d with ignoreThreshold := v }) Decode.boolean true,
     Decode.slot "max_depth" Draft.maxDepth (fun d v => { d with maxDepth := v })
       (Decode.optional Decode.uint32) true]
    {} fun d => return d.complete

end CompareSettings

namespace WorkerSettings

/-- The record of the section on workers. -/
def toJson (s : WorkerSettings) : Json :=
  .object [("workers", .option (fun n : UInt64 => .nat n.toNat) s.count),
    ("queue_depth_per_worker", .nat s.queueDepth.toNat)]

/-- What was read of the section so far. A count may be read as not set. -/
structure Draft where
  count : Option (Option UInt64) := none
  queueDepth : Option UInt64 := none

namespace Draft

/-- The settings of a draft, with defaults for what was not found. -/
def complete (d : Draft) : WorkerSettings :=
  let s := WorkerSettings.default
  ⟨d.count.getD s.count, d.queueDepth.getD s.queueDepth⟩

end Draft

/-- Reads the section on workers. -/
def decoder : Decoder WorkerSettings :=
  Decode.record "struct PerformanceConfig"
    [Decode.slot "workers" Draft.count (fun d v => { d with count := v })
       (Decode.optional Decode.size) true,
     Decode.slot "queue_depth_per_worker" Draft.queueDepth (fun d v => { d with queueDepth := v })
       Decode.size true]
    {} fun d => return d.complete

end WorkerSettings

namespace FileSettings

/-- The record of the section on files. -/
def toJson (s : FileSettings) : Json :=
  .object [("reports", .option Path.toJson s.reports),
    ("features_cache", .option Path.toJson s.featureCache),
    ("save_interval_seconds", .nat s.saveInterval.toNat), ("show_progress", .bool s.showProgress)]

/-- What was read of the section so far. -/
structure Draft where
  reports : Option (Option Path) := none
  featureCache : Option (Option Path) := none
  saveInterval : Option UInt64 := none
  showProgress : Option Bool := none

namespace Draft

/-- The settings of a draft, with defaults for what was not found. -/
def complete (d : Draft) : FileSettings :=
  let s := FileSettings.default
  { reports := d.reports.getD s.reports
    featureCache := d.featureCache.getD s.featureCache
    saveInterval := d.saveInterval.getD s.saveInterval
    showProgress := d.showProgress.getD s.showProgress }

end Draft

/-- Reads the section on files. -/
def decoder : Decoder FileSettings :=
  Decode.record "struct IoConfig"
    [Decode.slot "reports" Draft.reports (fun d v => { d with reports := v })
       (Decode.optional Path.decoder) true,
     Decode.slot "features_cache" Draft.featureCache (fun d v => { d with featureCache := v })
       (Decode.optional Path.decoder) true,
     Decode.slot "save_interval_seconds" Draft.saveInterval (fun d v => { d with saveInterval := v })
       Decode.uint64 true,
     Decode.slot "show_progress" Draft.showProgress (fun d v => { d with showProgress := v })
       Decode.boolean true]
    {} fun d => return d.complete

end FileSettings

namespace Pairing

/-- The names of both pairings. -/
def names : List String := ["many_to_many", "one_to_one"]

/-- The name of a pairing in settings. -/
def name : Pairing → String
  | .manyToMany => "many_to_many"
  | .oneToOne => "one_to_one"

/-- The pairing at a position of `names`. -/
def ofIndex (i : Nat) : Pairing := if i = 0 then .manyToMany else .oneToOne

/-- What was read of the section that holds the pairing. -/
structure Draft where
  mode : Option Pairing := none

/-- The section that holds the pairing. -/
def sectionDecoder : Decoder Pairing :=
  Decode.record "struct BatchConfig"
    [Decode.slot "mode" Draft.mode (fun d v => { d with mode := v })
       (fun o r => return ofIndex (← Decode.choice names o r)) true]
    {} fun d => return d.mode.getD .manyToMany

end Pairing

namespace Settings

/-- The record of all settings. -/
def toJson (s : Settings) : Json :=
  .object [("compare", s.compare.toJson), ("performance", s.workers.toJson),
    ("io", s.files.toJson), ("batch", .object [("mode", .string s.pairing.name)])]

/-- The sections that were read so far. -/
structure Draft where
  compare : Option CompareSettings := none
  workers : Option WorkerSettings := none
  files : Option FileSettings := none
  pairing : Option Pairing := none

namespace Draft

/-- The settings of a draft, with the defaults of the sections that were not found. -/
def complete (d : Draft) : Settings :=
  let s := Settings.default
  ⟨d.compare.getD s.compare, d.workers.getD s.workers, d.files.getD s.files,
    d.pairing.getD s.pairing⟩

end Draft

/-- Reads all settings. -/
def decoder : Decoder Settings :=
  Decode.record "struct PlagiaryConfig"
    [Decode.slot "compare" Draft.compare (fun d v => { d with compare := v })
       CompareSettings.decoder true,
     Decode.slot "performance" Draft.workers (fun d v => { d with workers := v })
       WorkerSettings.decoder true,
     Decode.slot "io" Draft.files (fun d v => { d with files := v }) FileSettings.decoder true,
     Decode.slot "batch" Draft.pairing (fun d v => { d with pairing := v })
       Pairing.sectionDecoder true]
    {} fun d => return d.complete

end Settings

end Likeness
