import Likeness.Command.Compare
import Likeness.Command.Reading
import Likeness.Command.Settings

/-!
# Likeness.Command.Run

The program: it reads its command line and carries out what it is asked for.
-/

namespace Likeness.Command

variable {m : Type → Type} [Monad m] [Host m]

/-- Carries out a request. -/
def Request.run : Request → m Reply
  | check r => Command.check r
  | compare r => Command.compare r
  | showDefaults => return Command.showDefaults
  | writeDefaults output force => Command.writeDefaults output force
  | validate p => Command.validate p

/-- The answer when there is no request to carry out. -/
def Halt.reply : Halt → Reply
  | .usage f => ⟨2, "", "error: " ++ f.message ++ "\n\nFor more information, try '--help'.\n"⟩
  | .help command => ⟨0, helpText command, ""⟩
  | .version => ⟨0, line programVersion, ""⟩

/-- Runs the program on the words of a command line; `environment` is the value of the variable
that may name the file with the settings. -/
def run (environment : Option String) (words : List String) : m Reply :=
  match Request.ofWords environment words with
  | .error h => return h.reply
  | .ok r => r.run

end Likeness.Command
