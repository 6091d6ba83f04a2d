import Likeness.Command.Help

/-!
# Likeness.Command.Reading

Reads a request from the words of a command line. Options of the program stand in front of the
command, and those of the command behind it.
-/

namespace Likeness.Command

/-- Fails for a use that was not meant. -/
def misuse {α : Type} (f : UsageFault) : Except Halt α := .error (.usage f)

/-- The file with the settings: if no option names it, the environment may. -/
def settingsFile (environment : Option String) (given : Option Path) :
    Except Halt (Option Path) :=
  match given, environment with
  | some p, _ => .ok (some p)
  | none, none => .ok none
  | none, some v =>
    match readPath v with
    | some p => .ok (some p)
    | none => misuse (.missingValue settingsInfo.long)

/-- Reads the words behind a command: its options, and its operands. -/
def behind {σ : Type} (command : String) (switches : List (Switch σ)) (room : Nat) (value : σ)
    (words : List String) : Except Halt (σ × List String) := do
  let w ← Words.read (switches ++ logSwitches ++ [helpSwitch (some command)]) room value words
  return (w.value, w.operands)

namespace CheckRequest

/-- Reads a check, which takes no operands. -/
def ofWords (environment : Option String) (words : List String) : Except Halt CheckRequest := do
  let (r, _) ← behind "check" switches 0 {} words
  return { r with settings := ← settingsFile environment r.settings }

end CheckRequest

namespace CompareRequest

/-- Reads a comparison, whose two works are operands. -/
def ofWords (environment : Option String) (words : List String) :
    Except Halt CompareRequest := do
  let (d, operands) ← behind "compare" switches 2 {} words
  match operands.mapM readPath with
  | some [first, second] =>
    return ⟨first, second, ← settingsFile environment d.settings, d.leastTile, d.format⟩
  | some [_] => misuse (.missing "<SECOND>")
  | some _ => misuse (.missing "<FIRST> <SECOND>")
  | none => misuse (.invalidValue "" operands)

end CompareRequest

/-- The command that help is asked for on. -/
def helpOn (words : List String) : Except Halt Request :=
  match words with
  | [] => .error (.help none)
  | [command] =>
    if (commands.lookup command).isSome then .error (.help (some command))
    else misuse (.unknownCommand command)
  | _ :: command :: _ => misuse (.unknownCommand command)

/-- Reads a command and the words behind it. -/
def ofCommand (environment : Option String) (command : String) (words : List String) :
    Except Halt Request :=
  match command with
  | "check" => (CheckRequest.ofWords environment words).map .check
  | "compare" => (CompareRequest.ofWords environment words).map .compare
  | "print-default-config" => (behind command ([] : List (Switch Unit)) 0 () words).map fun _ =>
      .showDefaults
  | "init-config" => (behind command DefaultsDraft.switches 0 {} words).map fun (d, _) =>
      .writeDefaults d.output d.force
  | "validate-config" => do
    let (file, _) ← behind command validateSwitches 0 none words
    match file with
    | some p => return .validate p
    | none => misuse (.missing "--config <CONFIG>")
  | "help" => helpOn words
  | _ => misuse (.unknownCommand command)

/-- Whether a word stands for options of the program. -/
def isDashed (word : String) : Bool := word.startsWith "-" && word ≠ "-"

/-- Reads all words. -/
def Request.ofWords (environment : Option String) (words : List String) :
    Except Halt Request := do
  let switches := logSwitches ++ [helpSwitch none, .halting versionInfo .version]
  let w ← Words.read switches 0 () (words.takeWhile isDashed)
  match words.dropWhile isDashed with
  | [] => misuse .missingCommand
  | command :: rest =>
    if w.closed then misuse (.unexpectedWord command) else ofCommand environment command rest

end Likeness.Command
