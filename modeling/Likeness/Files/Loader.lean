import Likeness.Batch.Plan
import Likeness.Files.Glob
import Likeness.Store.FeatureCache

/-!
# Likeness.Files.Loader

Loads works from files and directories.

Files are read by extractors, each of which serves some extensions. A work is known by the path it
was found at and the digest of its content, whatever its record says. What cannot be loaded is
reported and left out.
-/

namespace Likeness

/-- Turns the text of a source into a work of a given identity. -/
structure Extractor where
  language : String
  /-- Extensions that are served, without the dot. -/
  extensions : List String
  extract : String → Identity → Except LoadFault Work

/-- Reads sources that are work records themselves. -/
def Extractor.records : Extractor where
  language := "feature-record"
  extensions := ["json"]
  extract text identity :=
    (Work.ofRecord identity.path text).map fun w => { w with identity := identity }

/-- What was loaded. -/
structure Loaded where
  groups : List Batch.Group
  diagnostics : List LoadFault

/-- How works are loaded: who reads which files, which files are left out, and where works that were
loaded before are kept. -/
structure Loader where
  /-- Extensions and who serves them; the latest of an extension counts. -/
  extractors : List (String × Extractor)
  /-- Files that are not looked for in directories. -/
  exclude : Path → Bool
  cache : Option FeatureCache

namespace Loader

/-- A loader that reads nothing. -/
def empty : Loader := ⟨[], fun _ => false, none⟩

/-- Lets an extractor serve its extensions, in place of any before it. -/
def register (l : Loader) (e : Extractor) : Loader :=
  { l with extractors := e.extensions.map (·, e) ++ l.extractors }

/-- A loader that reads work records. -/
def default : Loader := empty.register .records

/-- The patterns of globs; blank ones are passed over. -/
def patterns (globs : List String) : Except Failure (List Pattern) :=
  let trimmed := globs.map fun g => String.ofList (Text.trim g.toList)
  (trimmed.filter (· ≠ "")).mapM fun g =>
    (Glob.pattern g).mapError fun f =>
      .config ("Invalid glob pattern '" ++ g ++ "': " ++ Glob.faultText g f) (some "exclude")

/-- What some globs exclude: the paths that match one of them. -/
def excluding (globs : List String) : Except Failure (Path → Bool) :=
  (patterns globs).map fun ps p => ps.any fun g => Glob.isMatch g p

/-- The extractor that serves the extension of a path. -/
def extractor? (l : Loader) (p : Path) : Option Extractor :=
  p.extension?.bind fun e => l.extractors.lookup e

/-- Whether some extractor serves the extension of a path. -/
def supports (l : Loader) (p : Path) : Bool := (l.extractor? p).isSome

/-- The group of files that were asked for by name. -/
def filesGroup : String := "files"

variable {m : Type → Type} [Monad m] [Host m]

/-- Extracts a work whose content was read; without a date of its own it has that of the file. -/
def extract (p : Path) (e : Extractor) (content : ByteArray) : m (Except LoadFault Work) := do
  match Text.Utf8.decode content with
  | .error f => return .error (.rejected p ("source is not valid UTF-8: " ++ f.message))
  | .ok text =>
    match e.extract text (.ofContent p content) with
    | .error f => return .error f
    | .ok w =>
      if w.modified.isSome then return .ok w
      else return .ok { w with modified := (← Host.modified? p).map Moment.textWithOffset }

/-- Loads a file that an extractor serves, from the cache if it has the work. -/
def loadWith (l : Loader) (p : Path) (e : Extractor) : m (Except LoadFault Work) := do
  match ← Host.read p with
  | .error f => return .error (.unreadable p f)
  | .ok content =>
    match l.cache with
    | none => extract p e content
    | some cache =>
      match ← cache.get? (.ofContent p content) with
      | some w => return .ok w
      | none =>
        let r ← extract p e content
        if let .ok w := r then
          -- A work that cannot be kept is still a work.
          let _ ← cache.save w
        return r

/-- Loads a file, if any extractor serves it. -/
def loadFile (l : Loader) (p : Path) : m (Except LoadFault Work) :=
  match l.extractor? p with
  | none => return .error (.unsupported p)
  | some e => l.loadWith p e

/-- The path of a file below a directory. -/
def below (directory : Path) (names : List String) : Path := names.foldl Path.join directory

/-- The files below a directory that are to be loaded, in the order of their paths. -/
def discover (l : Loader) (directory : Path) : m (Except LoadFault (List Path)) := do
  if ← Host.isDirectory directory then
    let paths := (← Host.filesBelow directory).map (below directory)
    let wanted := paths.filter fun p => l.supports p && !l.exclude p
    return .ok (wanted.mergeSort fun a b => !(b.before a))
  else return .error (.unreadable directory (.other "not a directory"))

/-- Loads files one after another: the works, and what went wrong. -/
def loadMany (l : Loader) : List Path → m (List Work × List LoadFault)
  | [] => return ([], [])
  | p :: ps => do
    let r ← l.loadFile p
    let (works, faults) ← loadMany l ps
    return match r with
      | .ok w => (w :: works, faults)
      | .error f => (works, f :: faults)

/-- Loads directories one after another, each into a group named after it. One that cannot be
searched makes no group. -/
def loadDirectories (l : Loader) : List Path → m Loaded
  | [] => return ⟨[], []⟩
  | d :: ds => do
    match ← l.discover d with
    | .error f =>
      let rest ← loadDirectories l ds
      return { rest with diagnostics := f :: rest.diagnostics }
    | .ok paths =>
      let (works, faults) ← l.loadMany paths
      let rest ← loadDirectories l ds
      return ⟨⟨d.text, works⟩ :: rest.groups, faults ++ rest.diagnostics⟩

/-- Loads single files into a group of their own, and every directory into one of its own. -/
def load (l : Loader) (files directories : List Path) : m Loaded := do
  if files = [] then l.loadDirectories directories
  else
    let (works, faults) ← l.loadMany files
    let rest ← l.loadDirectories directories
    return ⟨⟨filesGroup, works⟩ :: rest.groups, faults ++ rest.diagnostics⟩

end Loader

end Likeness
