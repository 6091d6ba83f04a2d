import Likeness.Batch.Record
import Likeness.Batch.Run
import Likeness.Command.Display
import Likeness.Command.Reply
import Likeness.Command.Request
import Likeness.Files.Loader
import Likeness.Settings.Document
import Likeness.Store.File

/-!
# Likeness.Command.Check

The check of a batch: works are loaded from files and directories, all pairs of them are compared,
and what was found is reported. What the command line says goes before what the settings say.
-/

namespace Likeness.Command

section

variable {m : Type → Type} [Monad m] [Host m]

/-- The settings in a file, or the default ones if no file is given. -/
def loadSettings : Option Path → m (Except Failure Settings)
  | none => return .ok .default
  | some p => Settings.load p

/-- The settings in a file, for a command that needs them to be sound. -/
def soundSettings (file : Option Path) (adapt : Settings → Settings) :
    m (Except CommandFault Settings) := do
  match ← loadSettings file with
  | .error f => return .error (.failure f)
  | .ok s => return ((adapt s).check.mapError .invalidSettings).map fun _ => adapt s

end

namespace CheckRequest

/-- Puts what was asked for over the settings of a file. -/
def adapt (r : CheckRequest) (s : Settings) : Settings where
  compare := { s.compare with
    threshold := r.threshold.getD s.compare.threshold
    ignoreThreshold := r.ignoreThreshold || s.compare.ignoreThreshold
    maxDepth := r.maxDepth <|> s.compare.maxDepth }
  workers := { s.workers with count := r.workers <|> s.workers.count }
  files := { s.files with
    reports := r.reports <|> s.files.reports
    featureCache := r.featureCache <|> s.files.featureCache
    showProgress := s.files.showProgress && !r.hideProgress }
  pairing := r.pairing.getD s.pairing

section

variable {m : Type → Type} [Monad m] [Host m]

/-- The loader for a check: it leaves out what is excluded, and uses the cache of the settings. -/
def loader (r : CheckRequest) (s : Settings) : m (Except Failure Loader) :=
  match Loader.excluding r.exclude with
  | .error f => return .error f
  | .ok exclude => do
    let l := { Loader.default with exclude := exclude }
    match s.files.featureCache with
    | none => return .ok l
    | some root =>
      return ((← FeatureCache.open? root).mapError .store).map fun c => { l with cache := some c }

end

end CheckRequest

section

variable {m : Type → Type} [Monad m] [Host m]

/-- Runs a batch with the result store of the settings. A store that cannot be opened is done
without, and the trouble is told. -/
def runStored (s : Settings) (groups : List Batch.Group) :
    m (Except Batch.RunFault Batch.Run × List String) := do
  let processors ← Host.processors
  let compare := Batch.compareJob s.compare (← Host.now)
  let quiet := fun _ => false
  match ← s.files.reportsFile with
  | none => return (← Batch.runGroups s processors .none compare quiet groups, [])
  | some p =>
    match ← FileStore.open? p s.files.saveInterval.toNat with
    | .error f => return (← Batch.runGroups s processors .none compare quiet groups, [f.message])
    | .ok store =>
      let (run, store) ← (Batch.runGroups s processors .file compare quiet groups).run store
      store.close
      return (run, [])

/-- The span between two readings of the clock. -/
def spanOf (first last : Nat) : Batch.Elapsed :=
  ⟨(last - first) / 1000000000, (last - first) % 1000000000⟩

/-- Compares what was loaded, and adds what could not be. -/
def checkLoaded (s : Settings) (loaded : Loaded) : m (Except CommandFault Batch.Report) := do
  let first ← Host.ticks
  let (run, warnings) ← runStored s loaded.groups
  let last ← Host.ticks
  match run with
  | .error f => return .error (.failure f.failure)
  | .ok run =>
    let report := { run.report s.compare.threshold with elapsed := spanOf first last }
    let report := report.addDiagnostics (loaded.diagnostics.map LoadFault.message)
    return .ok { report with storeWarnings := report.storeWarnings ++ warnings }

/-- The report of a check. -/
def checkReport (r : CheckRequest) : m (Except CommandFault Batch.Report) := do
  if r.files = [] ∧ r.directories = [] then return .error .nothingToCheck
  match ← soundSettings r.settings r.adapt with
  | .error f => return .error f
  | .ok s =>
    match ← r.loader s with
    | .error f => return .error (.failure f)
    | .ok l => checkLoaded s (← l.load r.files r.directories)

/-- Carries out a check; the exit code is the status of the batch. -/
def check (r : CheckRequest) : m Reply := do
  match ← checkReport r with
  | .error f => return f.reply ""
  | .ok report =>
    let output := match r.format with
      | .json => line report.toJson.indented
      | .text => reportText report
    return ⟨report.status.code, output, ""⟩

end

end Likeness.Command
