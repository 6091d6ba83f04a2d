import Likeness.Outline.Basic
import Likeness.Path

/-!
# Likeness.Failure

What can go wrong, by cause. Each kind has its message in one place; a failure can be given context
and may have a cause of its own below it.
-/

namespace Likeness

/-- A fault reported by the file system. -/
inductive FileFault where
  /-- One of the numbered faults of the system. -/
  | code (number : Nat)
  | other (text : String)
deriving DecidableEq

namespace FileFault

def notFound : FileFault := .code 2
def alreadyExists : FileFault := .code 17
def notDirectory : FileFault := .code 20
def isDirectory : FileFault := .code 21
def nameTooLong : FileFault := .code 36
def zeroInName : FileFault := .other "file name contained an unexpected NUL byte"

/-- The system's words for its numbered faults. -/
def codeText : Nat → String
  | 1 => "Operation not permitted"
  | 2 => "No such file or directory"
  | 3 => "No such process"
  | 4 => "Interrupted system call"
  | 5 => "Input/output error"
  | 6 => "No such device or address"
  | 7 => "Argument list too long"
  | 8 => "Exec format error"
  | 9 => "Bad file descriptor"
  | 10 => "No child processes"
  | 11 => "Resource temporarily unavailable"
  | 12 => "Cannot allocate memory"
  | 13 => "Permission denied"
  | 14 => "Bad address"
  | 16 => "Device or resource busy"
  | 17 => "File exists"
  | 18 => "Invalid cross-device link"
  | 19 => "No such device"
  | 20 => "Not a directory"
  | 21 => "Is a directory"
  | 22 => "Invalid argument"
  | 23 => "Too many open files in system"
  | 24 => "Too many open files"
  | 26 => "Text file busy"
  | 27 => "File too large"
  | 28 => "No space left on device"
  | 29 => "Illegal seek"
  | 30 => "Read-only file system"
  | 31 => "Too many links"
  | 32 => "Broken pipe"
  | 36 => "File name too long"
  | 39 => "Directory not empty"
  | 40 => "Too many levels of symbolic links"
  | n => "Unknown error " ++ toString n

/-- The system's words with the number behind them, or the text of a fault without a number. -/
def message : FileFault → String
  | .code n => codeText n ++ " (os error " ++ toString n ++ ")"
  | .other text => text

end FileFault

/-- Why a source did not become a work. -/
inductive LoadFault where
  | unreadable (path : Path) (source : FileFault)
  | rejected (path : Path) (reason : String)
  | invalidRecord (path : Path) (reason : String)
  | unsupported (path : Path)
deriving DecidableEq

namespace LoadFault

/-- The path of the source. -/
def path : LoadFault → Path
  | .unreadable p _ => p
  | .rejected p _ => p
  | .invalidRecord p _ => p
  | .unsupported p => p

/-- What is said about a source that did not become a work. -/
def message : LoadFault → String
  | .unreadable p source => "cannot read '" ++ p.text ++ "': " ++ source.message
  | .rejected p reason => "failed to parse '" ++ p.text ++ "': " ++ reason
  | .invalidRecord p reason => "invalid feature record '" ++ p.text ++ "': " ++ reason
  | .unsupported p => "no extractor for '" ++ p.text ++ "'"

end LoadFault

/-- Why a result store could not serve. -/
inductive StoreFault where
  | unavailable (reason : String)
  | writeFailed (path : Path) (source : FileFault)
  | corrupt (reason : String)
deriving DecidableEq

namespace StoreFault

/-- What is said about a store that could not serve. -/
def message : StoreFault → String
  | .unavailable reason => "result store unavailable: " ++ reason
  | .writeFailed p source =>
    "failed to write result store '" ++ p.text ++ "': " ++ source.message
  | .corrupt reason => "corrupt result store record: " ++ reason

end StoreFault

/-- Formats of stored text. -/
inductive Format where
  | json
  | yaml
deriving DecidableEq

namespace Format

/-- What a format is called in messages. -/
def name : Format → String
  | .json => "JSON"
  | .yaml => "YAML"

end Format

/-- Any failure of an operation. The texts of `context` were put in front of the message, the
latest first. -/
inductive Failure where
  | files (reason : String) (source : FileFault)
  | config (reason : String) (field : Option String)
  | load (fault : LoadFault)
  | store (fault : StoreFault)
  | outline (fault : Misnesting)
  | pipeline (stage reason : String)
  | serialization (context : List String) (format : Format) (fault : String)
  | validation (reason : String) (field : Option String)
  | internal (reason : String) (context : Option String)
deriving DecidableEq

namespace Failure

/-- A fault of the file system that nothing more is known about. -/
def ofFileFault (source : FileFault) : Failure := .files "I/O operation failed" source

/-- What a failed conversion says, with its context in front. -/
def serializationReason (context : List String) (format : Format) (fault : String) : String :=
  String.join (context.map (· ++ ": ")) ++ format.name ++ " serialization failed: " ++ fault

/-- What is said about a failure, without what lies below it. -/
def message : Failure → String
  | .files reason _ => "I/O error: " ++ reason
  | .config reason _ => "Configuration error: " ++ reason
  | .load fault => fault.message
  | .store fault => fault.message
  | .outline fault => fault.message
  | .pipeline stage reason => "Pipeline error at stage '" ++ stage ++ "': " ++ reason
  | .serialization context format fault =>
    "Serialization error: " ++ serializationReason context format fault
  | .validation reason _ => "Validation error: " ++ reason
  | .internal reason _ => "Internal error: " ++ reason

/-- Puts context in front of the message. Failures of loading, of stores and of outlines speak for
themselves and keep their message, and internal failures keep the context apart. -/
def withContext (context : String) : Failure → Failure
  | .files reason source => .files (context ++ ": " ++ reason) source
  | .config reason field => .config (context ++ ": " ++ reason) field
  | .load fault => .load fault
  | .store fault => .store fault
  | .outline fault => .outline fault
  | .pipeline stage reason => .pipeline stage (context ++ ": " ++ reason)
  | .serialization outer format fault => .serialization (context :: outer) format fault
  | .validation reason field => .validation (context ++ ": " ++ reason) field
  | .internal reason _ => .internal reason (some context)

/-- The message of what lies below a failure. -/
def cause : Failure → Option String
  | .files _ source => some source.message
  | .load (.unreadable _ source) => some source.message
  | .store (.writeFailed _ source) => some source.message
  | .serialization _ _ fault => some fault
  | _ => none

end Failure

end Likeness
