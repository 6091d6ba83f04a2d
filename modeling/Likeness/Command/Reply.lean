import Likeness.Failure
import Likeness.Number.Checked

/-!
# Likeness.Command.Reply

What the program answers: an exit code and two texts. A command that cannot be carried out is
answered with an error, which is followed by the causes that are known.
-/

namespace Likeness.Command

/-- An answer: the exit code, what goes to the output and what goes to the errors. -/
structure Reply where
  exit : Nat
  output : String
  errors : String
deriving DecidableEq

/-- Why a command was not carried out. -/
inductive CommandFault where
  | nothingToCheck
  | failure (f : Failure)
  /-- The settings were read but will not do. -/
  | invalidSettings (f : Failure)
  /-- The settings that were to be checked cannot be read or will not do. -/
  | rejectedSettings (f : Failure)
  | fileExists (p : Path)
  | incomparable (first second : Path) (m : Misnesting)
  /-- A sum did not fit a word. -/
  | overflow (o : Overflow)
deriving DecidableEq

namespace CommandFault

/-- What is said about a fault, without its causes. -/
def message : CommandFault → String
  | nothingToCheck => "Nothing to check: pass --files or --directories"
  | failure f => f.message
  | invalidSettings _ => "Invalid configuration"
  | rejectedSettings f => "Configuration validation failed: " ++ f.message
  | fileExists p =>
    "Configuration file already exists: " ++ p.text ++
      ". Use --force to overwrite or choose a different name with --output"
  | incomparable p q _ => "Failed to compare " ++ p.text ++ " and " ++ q.text
  | overflow o => o.message

/-- What lies below a fault, the nearest first. -/
def causes : CommandFault → List String
  | failure f => f.cause.toList
  | invalidSettings f => f.message :: f.cause.toList
  | incomparable _ _ m => [m.message]
  | nothingToCheck | rejectedSettings _ | fileExists _ | overflow _ => []

/-- A text with a margin to the left of each line but the first. -/
def indented (margin : Nat) (text : String) : String :=
  ("\n" ++ String.ofList (List.replicate margin ' ')).intercalate (text.splitOn "\n")

/-- The causes on lines of their own, numbered if there are several. -/
def causesText : List String → String
  | [] => ""
  | [c] => "\n\nCaused by:\n    " ++ indented 4 c
  | cs => "\n\nCaused by:" ++ String.join (cs.zipIdx.map fun (c, i) =>
      let number := toString i
      "\n" ++ String.ofList (List.replicate (5 - number.length) ' ') ++ number ++ ": " ++
        indented 7 c)

/-- The fault as it is shown, with its causes. -/
def text (f : CommandFault) : String := "Error: " ++ f.message ++ causesText f.causes ++ "\n"

/-- A fault of the program itself has an exit code of its own. -/
def exit : CommandFault → Nat
  | overflow _ => 101
  | _ => 1

/-- The answer when a command breaks off, after some output. -/
def reply (output : String) (f : CommandFault) : Reply := ⟨f.exit, output, f.text⟩

end CommandFault

end Likeness.Command
