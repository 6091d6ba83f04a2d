import Likeness.Command.Request
import Likeness.Command.Words

/-!
# Likeness.Command.Options

The options of each command, and the values they take.
-/

namespace Likeness.Command

/-! ### Values -/

/-- The value of digits, of which there is at least one. -/
def digits? (cs : List Char) : Option Nat :=
  if cs = [] then none
  else cs.foldlM (fun n c => if '0' ≤ c ∧ c ≤ '9' then some (10 * n + (c.toNat - 48)) else none) 0

/-- Reads a count that fits a word; a plus sign may stand in front of it. -/
def readCount (text : String) : Option UInt64 := do
  let n ← match text.toList with
    | '+' :: cs => digits? cs
    | cs => digits? cs
  if n < 0x10000000000000000 then some (.ofNat n) else none

/-- Reads a number between bounds; a sign may stand in front of it. -/
def readBetween (low high : Nat) (text : String) : Option Nat := do
  let i : Int ← match text.toList with
    | '-' :: cs => (digits? cs).map fun n => -(n : Int)
    | '+' :: cs => (digits? cs).map fun n => (n : Int)
    | cs => (digits? cs).map fun n => (n : Int)
  if (low : Int) ≤ i ∧ i ≤ high then some i.toNat else none

/-- A path of no characters leads nowhere. -/
def readPath (text : String) : Option Path := if text = "" then none else some ⟨text⟩

/-- A policy has two spellings. -/
def readPairing (text : String) : Option Pairing :=
  if ["many-to-many", "many_to_many"].contains text then some .manyToMany
  else if ["one-to-one", "one_to_one"].contains text then some .oneToOne
  else none

/-- Reads a format by its name. -/
def readFormat (text : String) : Option OutputFormat :=
  if text = "text" then some .text else if text = "json" then some .json else none

/-! ### Options of all commands -/

/-- The option that asks for help. -/
def helpInfo : OptionInfo := .flag "help" (some 'h') "Print help"

/-- The option that asks for the version. -/
def versionInfo : OptionInfo := .flag "version" (some 'V') "Print version"

section

variable {σ : Type}

/-- Asks for help on a command, or on the program. -/
def helpSwitch (command : Option String) : Switch σ := .halting helpInfo (.help command)

/-- No logs are kept, so nothing comes of the options about them. -/
def logSwitches : List (Switch σ) :=
  [.flag (.flag "verbose" (some 'v') "Enable verbose logging for debugging") id,
   .flag (.flag "log-json" none "Emit logs as JSON lines") id]

end

/-- The variable that may name the file with the settings. -/
def settingsVariable : String := "PLAGIARY_CONFIG"

/-- The option that names the file with the settings. -/
def settingsInfo : OptionInfo := .valued "config" (some 'c') "CONFIG" "Configuration file"

/-- The option that says how results are shown. -/
def formatInfo : OptionInfo := .valued "format" none "FORMAT" "Output format"

/-! ### Check -/

namespace CheckRequest

/-- The options of `check`. Files, directories and globs add to those given before. -/
def switches : List (Switch CheckRequest) := [
  .setting (.several "files" (some 'f') "FILE" "Feature record files to compare")
    readPath fun r ps => { r with files := r.files ++ ps },
  .setting (.several "directories" (some 'd') "DIR"
      "Directories to search for feature records; each one is a group")
    readPath fun r ps => { r with directories := r.directories ++ ps },
  .setting (.valued "mode" (some 'm') "MODE" "Pairing policy")
    readPairing fun r vs => { r with pairing := vs.head? },
  .setting (.valued "threshold" (some 't') "THRESHOLD" "Similarity threshold in percent (50-99)")
    (fun v => (readBetween 50 99 v).map UInt8.ofNat) fun r vs => { r with threshold := vs.head? },
  .flag (.flag "ignore-threshold" none "Run the structural comparison for every pair")
    fun r => { r with ignoreThreshold := true },
  .setting (.valued "max-depth" none "MAX_DEPTH" "Ignore syntax tree nodes deeper than this")
    (fun v => (readBetween 0 0xffffffff v).map UInt32.ofNat)
    fun r vs => { r with maxDepth := vs.head? },
  .setting (.valued "workers" (some 'w') "WORKERS" "Number of comparison workers")
    readCount fun r vs => { r with workers := vs.head? },
  .setting (.valued "reports" (some 'r') "PATH" "Result store file or directory")
    readPath fun r vs => { r with reports := vs.head? },
  .setting (.valued "features-cache" none "DIR" "Directory caching loaded feature records")
    readPath fun r vs => { r with featureCache := vs.head? },
  .setting { OptionInfo.valued "exclude" none "GLOB" "Glob patterns of paths to skip" with
      repeats := true }
    some fun r vs => { r with exclude := r.exclude ++ vs },
  .setting settingsInfo readPath fun r vs => { r with settings := vs.head? },
  .flag (.flag "no-progress" none "Hide the progress bar")
    fun r => { r with hideProgress := true },
  .setting formatInfo readFormat fun r vs => { r with format := vs.headD .text }]

end CheckRequest

/-! ### Compare -/

namespace CompareRequest

/-- What is known before the works are. -/
structure Draft where
  settings : Option Path := none
  leastTile : Nat := 5
  format : OutputFormat := .text

/-- The options of `compare`. -/
def switches : List (Switch Draft) := [
  .setting settingsInfo readPath fun r vs => { r with settings := vs.head? },
  .setting (.valued "min-match" none "MIN_MATCH" "Minimum tile length of the token diagnostics")
    (fun v => (readCount v).map UInt64.toNat) fun r vs => { r with leastTile := vs.headD 5 },
  .setting formatInfo readFormat fun r vs => { r with format := vs.headD .text }]

end CompareRequest

/-! ### Settings -/

/-- A file for the default settings, and whether it may be written over. -/
structure DefaultsDraft where
  output : Path := ⟨"plagiary.yml"⟩
  force : Bool := false

namespace DefaultsDraft

/-- The options of `init-config`. -/
def switches : List (Switch DefaultsDraft) := [
  .setting (.valued "output" (some 'o') "OUTPUT" "Output configuration file name")
    readPath fun r vs => { r with output := vs.headD r.output },
  .flag (.flag "force" (some 'f') "Overwrite existing configuration file")
    fun r => { r with force := true }]

end DefaultsDraft

/-- The option that names the file to be checked. -/
def validateSwitches : List (Switch (Option Path)) := [
  .setting (.valued "config" (some 'c') "CONFIG" "Path to configuration file to validate")
    readPath fun _ vs => vs.head?]

end Likeness.Command
