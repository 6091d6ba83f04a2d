import Likeness.Command.Options

/-!
# Likeness.Command.Help

Help on the program and on its commands: how they are used, and what can be given to them.
-/

namespace Likeness.Command

/-- The commands, and what they are for. -/
def commands : List (String × String) := [
  ("check", "Compare all candidate pairs of a batch of works"),
  ("compare", "Compare two works and show token level diagnostics"),
  ("print-default-config", "Print default configuration in YAML format"),
  ("init-config", "Initialize a configuration file with defaults"),
  ("validate-config", "Validate a plagiary configuration file"),
  ("help", "Print this message or the help of the given subcommand(s)")]

/-- The version of the program. -/
def programVersion : String := "plagiary 0.3.0"

namespace OptionInfo

/-- How an option is written. -/
def spelling (o : OptionInfo) : String :=
  (match o.letter with
    | some c => "-" ++ String.singleton c ++ ", "
    | none => "    ") ++ "--" ++ o.long ++
  (match o.arity with
    | .none => ""
    | .one => " <" ++ o.value ++ ">"
    | .some => " <" ++ o.value ++ ">...")

end OptionInfo

/-- What there is to say about some options. -/
def infos {σ : Type} (switches : List (Switch σ)) : List OptionInfo := switches.map (·.info)

/-- What stands behind a command besides its options, and the options themselves. -/
def operandsAndOptions (command : String) : String × List OptionInfo :=
  match command with
  | "check" => ("", infos CheckRequest.switches)
  | "compare" => (" <FIRST> <SECOND>", infos CompareRequest.switches)
  | "init-config" => ("", infos DefaultsDraft.switches)
  | "validate-config" => (" --config <CONFIG>", infos validateSwitches)
  | _ => ("", [])

/-- Names and what they mean, in two columns under a title. -/
def columns (title : String) (entries : List (String × String)) : String :=
  let widest := (entries.map (·.1.length)).foldl max 0
  title ++ ":\n" ++ String.join (entries.map fun (name, about) =>
    "  " ++ name ++ String.ofList (List.replicate (widest + 2 - name.length) ' ') ++ about ++ "\n")

/-- The options of a command, each with what it is for. -/
def optionsText (options : List OptionInfo) : String :=
  columns "Options" (options.map fun o => (o.spelling, o.about))

/-- Help on a command, or on the program. -/
def helpText (command : Option String) : String :=
  let common := infos (logSwitches : List (Switch Unit)) ++ [helpInfo]
  match command with
  | none =>
    "Plagiary - structural similarity checks for source code\n\n" ++
    "Usage: plagiary [OPTIONS] <COMMAND>\n\n" ++ columns "Commands" commands ++ "\n" ++
    optionsText (common ++ [versionInfo])
  | some c =>
    let (operands, options) := operandsAndOptions c
    (commands.lookup c).getD "" ++ "\n\n" ++
    "Usage: plagiary " ++ c ++ " [OPTIONS]" ++ operands ++ "\n\n" ++ optionsText (options ++ common)

end Likeness.Command
