import Likeness.Files.Host

/-!
# Likeness.Files.Tree

A file tree as a value. Files and directories are known by the names that lead to them from the root,
which is also the directory that the program runs in. A path is followed name by name, so `..` leads
back from a directory that is there, and stays at the root; what lies below something that is not a
directory is a fault of its own.
-/

namespace Likeness

/-- What stands at a place of a tree. -/
inductive FileEntry where
  | file (content : ByteArray) (modified : Moment)
  | directory

namespace FileEntry

/-- The first second that can be kept with a file. -/
def earliest : Int := -0x80000000

/-- The last second that can be kept with a file. -/
def latest : Int := 0x37fffffff

/-- The time that is kept with a file for a moment. The ends of the range have no fraction. -/
def timeOf (t : Moment) : Moment :=
  if t.seconds ≤ earliest then ⟨earliest, 0⟩
  else if latest ≤ t.seconds then ⟨latest, 0⟩
  else t

/-- A file written at a moment. -/
def written (content : ByteArray) (t : Moment) : FileEntry := .file content (timeOf t)

end FileEntry

/-- A file tree at some moment. -/
structure FileTree where
  /-- The names that lead to each entry below the root. -/
  entries : List (List String × FileEntry)
  /-- The time, which is given to files that are written. -/
  time : Moment

namespace FileTree

/-- The tree in which nothing lies below the root. -/
def empty : FileTree := ⟨[], ⟨0, 0⟩⟩

/-- What stands at a place; the root is a directory. -/
def find? (t : FileTree) (place : List String) : Option FileEntry :=
  if place = [] then some .directory else t.entries.lookup place

/-- Puts an entry in place of what is there. -/
def insert (t : FileTree) (place : List String) (e : FileEntry) : FileTree :=
  { t with entries := (place, e) :: t.entries.filter (·.1 ≠ place) }

/-- Takes away what is at a place and below it. -/
def erase (t : FileTree) (place : List String) : FileTree :=
  { t with entries := t.entries.filter fun (p, _) => !place.isPrefixOf p }

/-! ### Following paths -/

/-- The longest name that a directory can hold, in bytes. -/
def longestName : Nat := 255

/-- A place, and whether the path calls it a directory. -/
structure Target where
  place : List String
  asDirectory : Bool

/-- Follows the pieces of a path from a directory. The last name need not be there. -/
def follow (t : FileTree) (place : List String) : List String → Except FileFault Target
  | [] => .ok ⟨place, true⟩
  | piece :: rest =>
    if piece = "" ∨ piece = "." then follow t place rest
    else if piece = ".." then follow t place.dropLast rest
    else if longestName < piece.utf8ByteSize then .error .nameTooLong
    else if rest.all (· = "") then .ok ⟨place ++ [piece], !rest.isEmpty⟩
    else match t.find? (place ++ [piece]) with
      | some .directory => follow t (place ++ [piece]) rest
      | some (.file ..) => .error .notDirectory
      | none => .error .notFound

/-- Makes the directories that the pieces of a path name, from a directory. -/
def makeAlong (t : FileTree) (place : List String) : List String → Except FileFault FileTree
  | [] => .ok t
  | piece :: rest =>
    if piece = "" ∨ piece = "." then makeAlong t place rest
    else if piece = ".." then makeAlong t place.dropLast rest
    else if longestName < piece.utf8ByteSize then .error .nameTooLong
    else
      let here := place ++ [piece]
      match t.find? here with
      | some .directory => makeAlong t here rest
      | some (.file ..) =>
        .error (if rest.all (· = "") then .alreadyExists else .notDirectory)
      | none => makeAlong (t.insert here .directory) here rest

/-- The pieces of a path. A slash at its front makes no difference, since all paths are followed from
the root. -/
def piecesOf (p : Path) : Except FileFault (List String) :=
  let chars := p.text.toList
  if chars.contains '\x00' then .error .zeroInName
  else .ok ((Path.pieces chars).map String.ofList)

/-- Where a path leads. -/
def target (t : FileTree) (p : Path) : Except FileFault Target := do
  if p.text = "" then throw .notFound
  t.follow [] (← piecesOf p)

/-! ### Operations -/

/-- What a path leads to. A file is not found under a path that calls it a directory. -/
def kind? (t : FileTree) (p : Path) : Option FileKind :=
  match t.target p with
  | .error _ => none
  | .ok g =>
    match t.find? g.place with
    | some .directory => some .directory
    | some (.file ..) => if g.asDirectory then none else some .file
    | none => none

/-- The content of a file. -/
def read (t : FileTree) (p : Path) : Except FileFault ByteArray := do
  let g ← t.target p
  match t.find? g.place with
  | none => throw .notFound
  | some .directory => throw .isDirectory
  | some (.file content _) => if g.asDirectory then throw .notDirectory else return content

/-- The tree after a file was written, with the time of the tree. -/
def write (t : FileTree) (p : Path) (content : ByteArray) : Except FileFault FileTree := do
  let g ← t.target p
  match t.find? g.place with
  | some .directory => throw .isDirectory
  | some (.file ..) =>
    if g.asDirectory then throw .notDirectory
    else return t.insert g.place (.written content t.time)
  | none =>
    if g.asDirectory then throw .isDirectory
    else return t.insert g.place (.written content t.time)

/-- The tree after directories were made. -/
def makeDirectories (t : FileTree) (p : Path) : Except FileFault FileTree := do
  t.makeAlong [] (← piecesOf p)

/-- When a file was last written. -/
def modified? (t : FileTree) (p : Path) : Option Moment :=
  match t.target p with
  | .error _ => none
  | .ok g =>
    match t.find? g.place with
    | some (.file _ time) => if g.asDirectory then none else some time
    | some .directory => some t.time
    | none => none

/-- The names that lead from a place to each file below it. -/
def filesFrom (t : FileTree) (place : List String) : List (List String) :=
  t.entries.filterMap fun
  | (p, .file ..) => if place.isPrefixOf p then some (p.drop place.length) else none
  | (_, .directory) => none

/-- The files below a path, each by the names that lead to it. -/
def filesBelow (t : FileTree) (p : Path) : List (List String) :=
  match t.target p with
  | .error _ => []
  | .ok g => t.filesFrom g.place

/-- The names in a directory, in no particular order. -/
def names? (t : FileTree) (p : Path) : Option (List String) :=
  match t.target p with
  | .error _ => none
  | .ok g =>
    match t.find? g.place with
    | some .directory => some (t.entries.filterMap fun (q, _) =>
        if q.dropLast = g.place then q.getLast? else none)
    | _ => none

/-- Takes away the file or directory that a path leads to. -/
def remove (t : FileTree) (p : Path) : FileTree :=
  match t.target p with
  | .error _ => t
  | .ok g => t.erase g.place

/-- Runs an operation that changes the tree if it succeeds. -/
def change (f : FileTree → Except FileFault FileTree) : StateM FileTree (Except FileFault Unit) :=
  modifyGet fun t =>
    match f t with
    | .ok t' => (.ok (), t')
    | .error e => (.error e, t)

/-- In a tree that is a value, no time passes by itself. -/
instance : Host (StateM FileTree) where
  kind? p := modifyGet fun t => (t.kind? p, t)
  read p := modifyGet fun t => (t.read p, t)
  write p content := change fun t => t.write p content
  makeDirectories p := change fun t => t.makeDirectories p
  modified? p := modifyGet fun t => (t.modified? p, t)
  filesBelow p := modifyGet fun t => (t.filesBelow p, t)
  now := modifyGet fun t => (t.time, t)
  ticks := pure 0
  processors := pure 1

end FileTree

end Likeness
