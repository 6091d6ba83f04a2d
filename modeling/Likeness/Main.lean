import Likeness.Command.Run
import Std.Time.DateTime.Timestamp

/-!
# Likeness.Main

The program on a real machine. All decisions are made elsewhere; this module hands over files, the
time, the command line and the answer.
-/

namespace Likeness

/-- The number of a system fault, or what is said of it. -/
def faultOf (e : IO.Error) : FileFault :=
  match e with
  | .alreadyExists _ n _ | .otherError n _ | .resourceBusy n _ | .resourceVanished n _
  | .unsupportedOperation n _ | .hardwareFault n _ | .unsatisfiedConstraints n _
  | .illegalOperation n _ | .protocolError n _ | .timeExpired n _ | .interrupted _ n _
  | .noFileOrDirectory _ n _ | .invalidArgument _ n _ | .permissionDenied _ n _
  | .resourceExhausted _ n _ | .inappropriateType _ n _ | .noSuchThing _ n _ => .code n.toNat
  | .unexpectedEof => .other "unexpected end of file"
  | .userError text => .other text

/-- Tells a fault apart from a result. -/
def attempt {α : Type} (act : IO α) : IO (Except FileFault α) := do
  return (← act.toBaseIO).mapError faultOf

/-- What the machine knows about the file at a path. -/
def metadata? (p : Path) : IO (Option IO.FS.Metadata) := do
  return (← attempt do (← IO.FS.realPath p.text).metadata).toOption

/-- The names that lead from a directory to the files below it. Links are not followed. -/
partial def filesFrom (directory : String) : IO (List (List String)) := do
  let entries ← (← IO.FS.realPath directory).readDir
  let found ← entries.toList.mapM fun e => do
    match (← e.path.symlinkMetadata).type with
    | .file => return [[e.fileName]]
    | .dir =>
      match ← attempt (filesFrom (directory ++ "/" ++ e.fileName)) with
      | .ok below => return below.map (e.fileName :: ·)
      | .error _ => return []
    | _ => return []
  return found.flatten

instance : Host IO where
  kind? p := do
    return (← metadata? p).map fun m => match m.type with
      | .dir => .directory
      | _ => .file
  read p := attempt (IO.FS.readBinFile p.text)
  write p content := attempt (IO.FS.writeBinFile p.text content)
  makeDirectories p := attempt (IO.FS.createDirAll p.text)
  modified? p := do
    return (← metadata? p).map fun m => ⟨m.modified.sec, m.modified.nsec.toNat⟩
  filesBelow p := do return (← attempt (filesFrom p.text)).toOption.getD []
  now := do
    let t := (← Std.Time.Timestamp.now).toNanosecondsSinceUnixEpoch.val
    return ⟨t.fdiv 1000000000, (t.fmod 1000000000).toNat⟩
  ticks := IO.monoNanosNow
  processors := do
    match ← attempt (IO.FS.readFile "/proc/cpuinfo") with
    | .ok text => return max 1 ((text.splitOn "\n").countP (·.startsWith "processor"))
    | .error _ => return 1

end Likeness

open Likeness

def main (words : List String) : IO UInt32 := do
  let environment ← IO.getEnv Command.settingsVariable
  let reply ← Command.run environment words
  (← IO.getStdout).putStr reply.output
  (← IO.getStderr).putStr reply.errors
  return .ofNat reply.exit
