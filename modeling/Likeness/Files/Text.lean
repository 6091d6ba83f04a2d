import Likeness.Files.Host
import Likeness.Text.Utf8

/-!
# Likeness.Files.Text

Files that hold text.
-/

namespace Likeness.Host

variable {m : Type → Type} [Monad m] [Host m]

/-- Reads a file as text. -/
def readText (p : Path) : m (Except FileFault String) := do
  match ← read p with
  | .error f => return .error f
  | .ok bytes =>
    return (Text.Utf8.decode bytes).mapError fun _ =>
      .other "stream did not contain valid UTF-8"

/-- Writes a file that holds a text. -/
def writeText (p : Path) (text : String) : m (Except FileFault Unit) := write p text.toUTF8

end Likeness.Host
