import Likeness.Calendar
import Likeness.Failure

/-!
# Likeness.Files.Host

What a program asks of the machine that it runs on: its files, the time and its processors. All
that touches files is written against this interface, so that it can be run on real files or on a
file tree that is a value.
-/

namespace Likeness

/-- What a path leads to. -/
inductive FileKind where
  | file
  | directory
deriving DecidableEq

/-- What a machine answers, and what it does when asked. -/
class Host (m : Type → Type) where
  /-- What is at a path, if anything. -/
  kind? : Path → m (Option FileKind)
  read : Path → m (Except FileFault ByteArray)
  /-- Puts a file in the place of whatever file is there. -/
  write : Path → ByteArray → m (Except FileFault Unit)
  /-- Makes a directory, and those above it that are not there. -/
  makeDirectories : Path → m (Except FileFault Unit)
  /-- When a file was last written. -/
  modified? : Path → m (Option Moment)
  /-- The files below a directory, each by the names that lead to it. -/
  filesBelow : Path → m (List (List String))
  now : m Moment
  /-- Nanoseconds since some fixed moment. -/
  ticks : m Nat
  processors : m Nat

namespace Host

variable {m : Type → Type} [Monad m] [Host m]

/-- Whether anything is at a path. -/
def exists? (p : Path) : m Bool := return (← kind? p).isSome

/-- Whether a path leads to a directory. -/
def isDirectory (p : Path) : m Bool := return (← kind? p) = some .directory

end Host

end Likeness
