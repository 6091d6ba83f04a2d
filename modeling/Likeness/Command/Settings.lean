import Likeness.Command.Check

/-!
# Likeness.Command.Settings

The commands about settings: showing the default ones, writing them to a file, and checking those in
a file.
-/

namespace Likeness.Command

open Text (coloured dimmed heading)

/-- The default settings as a document, under a few remarks. -/
def showDefaults : Reply :=
  ⟨0, String.join (["# Default plagiary configuration",
      "# Save this to a file and customize as needed",
      "# Usage: plagiary check --config your-config.yml --directories <dirs>"].map
        fun remark => line (dimmed remark)) ++
    line "" ++ line Settings.default.toDocument, ""⟩

/-! ### Writing -/

/-- Settings that are worth a look. -/
def hints : List (List String) := [
  ["setting", "description"],
  ["compare.threshold", "Similarity percent reported as suspicious, 50-99 (default: 65)"],
  ["compare.ignore_threshold", "Align every pair regardless of fast metrics (default: false)"],
  ["compare.weights", "Weights of the fast metrics (default: 1.0/0.4/0.4/0.4)"],
  ["performance.workers", "Comparison workers (default: available CPUs)"],
  ["io.reports", "Result store reused across runs (default: none)"],
  ["batch.mode", "many_to_many or one_to_one (default: many_to_many)"]]

/-- What can be done with a file that was written. -/
def nextSteps (p : Path) : String :=
  line (heading .brightGreen "✅ Configuration saved to:" ++ " " ++ coloured .cyan p.text) ++
  line "" ++
  line (heading .brightBlue "📝 Next steps:") ++
  line "   1. Edit the configuration file to tune the comparison" ++
  line ("   2. Run a check with: " ++
    coloured .cyan ("plagiary check --config " ++ p.text ++ " --directories <dirs>")) ++
  line "" ++
  line (heading .brightBlue "🔧 Key settings you can customize:") ++
  tableText hints

section

variable {m : Type → Type} [Monad m] [Host m]

/-- Writes the default settings to a file, unless one is there that may not be written over. -/
def writeDefaults (output : Path) (force : Bool) : m Reply := do
  if (← Host.exists? output) && !force then
    return CommandFault.reply "" (.fileExists output)
  match ← Settings.default.save output with
  | .error f => return CommandFault.reply "" (.failure f)
  | .ok _ => return ⟨0, nextSteps output, ""⟩

end

/-! ### Checking -/

/-- What is said before settings are checked. -/
def validationTitle (p : Path) : String :=
  line (heading .brightBlue "🔍 Validating configuration:" ++ " " ++ coloured .cyan p.text) ++
  line ""

/-- What is said of settings that will do, with the workers they come to on this machine. -/
def acceptance (s : Settings) (processors : Nat) : String :=
  line (heading .brightGreen "✅ Configuration file is valid!") ++
  line "" ++
  line ("  threshold: " ++ toString s.compare.threshold.toNat ++ "%" ++
    (if s.compare.ignoreThreshold then " (gate disabled)" else "")) ++
  line ("  workers: " ++ toString (s.workers.effectiveCount processors)) ++
  line ("  batch mode: " ++ (match s.pairing with
    | .manyToMany => "ManyToMany"
    | .oneToOne => "OneToOne"))

/-- Where to look when settings are rejected. -/
def advice : String :=
  line "" ++
  line (heading .brightBlue "🔧 Common issues:") ++
  line "   • Check YAML syntax (indentation, colons, quotes)" ++
  line "   • Keep compare.threshold between 50 and 99" ++
  line "   • Use non-negative weights with a positive sum" ++
  line "" ++
  line (dimmed "💡 Tip: Use 'plagiary print-default-config' to see valid format")

/-- The answer to settings that are rejected. -/
def rejection (p : Path) (f : Failure) : Reply :=
  let fault := CommandFault.rejectedSettings f
  ⟨fault.exit, validationTitle p ++ advice,
    line (coloured .red "❌ Configuration validation failed:" ++ " " ++ f.message) ++ fault.text⟩

section

variable {m : Type → Type} [Monad m] [Host m]

/-- Checks the settings in a file. -/
def validate (p : Path) : m Reply := do
  match (← Settings.load p).bind fun s => s.check.map fun _ => s with
  | .error f => return rejection p f
  | .ok s => return ⟨0, validationTitle p ++ acceptance s (← Host.processors), ""⟩

end

end Likeness.Command
