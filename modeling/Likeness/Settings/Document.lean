import Likeness.Files.Text
import Likeness.Settings.Record
import Likeness.Yaml.Reading
import Likeness.Yaml.Writing

/-!
# Likeness.Settings.Document

Settings as a YAML document, and the file that holds it. A document gives any of the settings; what
it leaves out has its default, but weights are given all or not at all. A section with nothing
behind its name is as good as one that is left out.
-/

namespace Likeness

/-! ### Reading -/

namespace Yaml

/-- The fields of a section. -/
def fields? : Yaml → Option (List (String × Yaml))
  | .mapping entries => entries.mapM fun
    | (.scalar _ name, value) => some (name, value)
    | _ => none
  | .scalar true "" => some []
  | _ => none

/-- The value of a field, if it is there; it may be there once only. -/
def field (fields : List (String × Yaml)) (name : String) (read : Yaml → Option α) :
    Option (Option α) :=
  match fields.filter (·.1 = name) with
  | [] => some none
  | [(_, value)] => (read value).map some
  | _ => none

/-- Reads a natural below a limit. As a quoted scalar it would be a text. -/
def readNatural (limit : Nat) : Yaml → Option Nat
  | .scalar true text => natural? limit text
  | _ => none

/-- Reads a truth value, which is not quoted. -/
def readBoolean : Yaml → Option Bool
  | .scalar true text => boolean? text
  | _ => none

/-- Reads a number, which is not quoted. -/
def readReal : Yaml → Option Binary64
  | .scalar true text => real? text
  | _ => none

/-- Reads any scalar as a text, quoted or not. -/
def readText : Yaml → Option String
  | .scalar _ text => some text
  | _ => none

/-- Reads a value, or nothing at all where there is none or a word for none. -/
def readOptional (read : Yaml → Option α) (y : Yaml) : Option (Option α) :=
  match y with
  | .scalar true text => if text = "" ∨ isNullWord text then some none else (read y).map some
  | _ => (read y).map some

/-- Reads a text as a path. -/
def readPath (y : Yaml) : Option Path := (readText y).map Path.mk

/-- Reads a natural that fits 32 bits. -/
def readWord32 (y : Yaml) : Option UInt32 := (readNatural 0x100000000 y).map .ofNat

/-- Reads a natural that fits 64 bits. -/
def readWord64 (y : Yaml) : Option UInt64 := (readNatural 0x10000000000000000 y).map .ofNat

end Yaml

open Yaml (field fields? readReal readBoolean readOptional readPath readWord32 readWord64)

namespace Weights

/-- Reads the weights, all of which must be there. -/
def ofYaml? (y : Yaml) : Option Weights := do
  let fs ← fields? y
  return ⟨← (← field fs "jakkar" readReal), ← (← field fs "operators" readReal),
    ← (← field fs "keywords" readReal), ← (← field fs "literals" readReal)⟩

end Weights

namespace CompareSettings

/-- Reads the section on comparisons. -/
def ofYaml? (y : Yaml) : Option CompareSettings := do
  let fs ← fields? y
  let draft : Draft := {
    windowLength := ← field fs "ngrams_length" readWord64
    weights := ← field fs "weights" Weights.ofYaml?
    threshold := ← field fs "threshold" fun v => (Yaml.readNatural 0x100 v).map .ofNat
    ignoreThreshold := ← field fs "ignore_threshold" readBoolean
    maxDepth := ← field fs "max_depth" (readOptional readWord32) }
  return draft.complete

end CompareSettings

namespace WorkerSettings

/-- Reads the section on workers. -/
def ofYaml? (y : Yaml) : Option WorkerSettings := do
  let fs ← fields? y
  let draft : Draft := {
    count := ← field fs "workers" (readOptional readWord64)
    queueDepth := ← field fs "queue_depth_per_worker" readWord64 }
  return draft.complete

end WorkerSettings

namespace FileSettings

/-- Reads the section on files. -/
def ofYaml? (y : Yaml) : Option FileSettings := do
  let fs ← fields? y
  let draft : Draft := {
    reports := ← field fs "reports" (readOptional readPath)
    featureCache := ← field fs "features_cache" (readOptional readPath)
    saveInterval := ← field fs "save_interval_seconds" readWord64
    showProgress := ← field fs "show_progress" readBoolean }
  return draft.complete

end FileSettings

namespace Pairing

/-- The pairing of a name. -/
def ofName? (name : String) : Option Pairing := (names.findIdx? (· = name)).map ofIndex

/-- Reads the section that holds the pairing. -/
def ofYaml? (y : Yaml) : Option Pairing := do
  let fs ← fields? y
  return (← field fs "mode" fun v => (Yaml.readText v).bind ofName?).getD .manyToMany

end Pairing

namespace Settings

/-- Reads all sections. Fields with other names are passed over. -/
def ofYaml? (y : Yaml) : Option Settings := do
  let fs ← fields? y
  let draft : Draft := {
    compare := ← field fs "compare" CompareSettings.ofYaml?
    workers := ← field fs "performance" WorkerSettings.ofYaml?
    files := ← field fs "io" FileSettings.ofYaml?
    pairing := ← field fs "batch" Pairing.ofYaml? }
  return draft.complete

/-- The settings that a document gives. -/
def ofDocument (text : String) : Except Failure Settings :=
  match Yaml.parse text with
  | .error f => .error (.serialization [] .yaml f.message)
  | .ok y =>
    match ofYaml? y with
    | none => .error (.serialization [] .yaml "no settings can be read from the document")
    | some s => .ok s

/-! ### Writing -/

open Yaml.Tree (branch ofNat ofBool ofReal ofText ofOption)

/-- All settings, each in its place. -/
def toDocument (s : Settings) : String :=
  let c := s.compare
  let weights := branch [("jakkar", ofReal c.weights.tokens), ("operators", ofReal c.weights.operators),
    ("keywords", ofReal c.weights.keywords), ("literals", ofReal c.weights.literals)]
  let path (p : Path) := ofText p.text
  Yaml.Tree.document [
    ("compare", branch [
      ("ngrams_length", ofNat c.windowLength.toNat),
      ("weights", weights),
      ("threshold", ofNat c.threshold.toNat),
      ("ignore_threshold", ofBool c.ignoreThreshold),
      ("max_depth", ofOption (fun d : UInt32 => ofNat d.toNat) c.maxDepth)]),
    ("performance", branch [
      ("workers", ofOption (fun n : UInt64 => ofNat n.toNat) s.workers.count),
      ("queue_depth_per_worker", ofNat s.workers.queueDepth.toNat)]),
    ("io", branch [
      ("reports", ofOption path s.files.reports),
      ("features_cache", ofOption path s.files.featureCache),
      ("save_interval_seconds", ofNat s.files.saveInterval.toNat),
      ("show_progress", ofBool s.files.showProgress)]),
    ("batch", branch [("mode", ofText s.pairing.name)])]

/-! ### Files -/

variable {m : Type → Type} [Monad m] [Host m]

/-- The settings in a file. -/
def load (p : Path) : m (Except Failure Settings) := do
  match ← Host.readText p with
  | .error f => return .error (.files ("Failed to read config file: " ++ p.text) f)
  | .ok text => return ofDocument text

/-- Writes all settings to a file. -/
def save (s : Settings) (p : Path) : m (Except Failure Unit) := do
  return (← Host.writeText p s.toDocument).mapError fun f =>
    .files ("Failed to write config file: " ++ p.text) f

end Settings

/-- The file of the result store; in a directory it has the standard name. -/
def FileSettings.reportsFile [Monad m] [Host m] (s : FileSettings) : m (Option Path) :=
  match s.reports with
  | none => return none
  | some p => return some (if ← Host.isDirectory p then p.join FileSettings.reportName else p)

/-! ### Sameness -/

namespace Settings

/-- Whether two paths that may not be set are the same place, or both not set. -/
def samePath (p q : Option Path) : Bool :=
  match p, q with
  | none, none => true
  | some p, some q => p.same q
  | _, _ => false

/-- Whether settings mean the same: numbers are compared as numbers, and paths as places. -/
def same (s t : Settings) : Bool :=
  let numbers (w v : Weights) := (w.toList.zip v.toList).all fun (x, y) => x.equals y
  numbers s.compare.weights t.compare.weights &&
    { s.compare with weights := .default } == { t.compare with weights := .default } &&
    s.workers == t.workers && samePath s.files.reports t.files.reports &&
    samePath s.files.featureCache t.files.featureCache &&
    s.files.saveInterval == t.files.saveInterval && s.files.showProgress == t.files.showProgress &&
    s.pairing == t.pairing

end Settings

end Likeness
