import Likeness.Files.Text
import Likeness.Store.Record
import Likeness.Text.Blank

/-!
# Likeness.Store.File

A store of verdicts kept in a file. The records are held in memory; they are saved when something
is put and the last save lies far enough back, when the store is flushed, and when it is closed. A
store that nothing was put into since its last save writes nothing.
-/

namespace Likeness

/-- A store of a file while it is open. -/
structure FileStore where
  path : Path
  records : Records
  /-- Seconds that have to pass between saves. -/
  interval : Nat
  /-- When the store was opened or last saved. -/
  savedAt : Nat
  /-- Whether the file may differ from the records. -/
  dirty : Bool

namespace FileStore

/-- The records that the text of a file holds; a blank text holds none. -/
def recordsOf (p : Path) (text : String) : Except StoreFault Records :=
  if Text.trim text.toList = [] then .ok .empty
  else
    match Json.decode StoreDocument.decoder text with
    | .error e => .error (.corrupt (p.text ++ ": " ++ e.message))
    | .ok d =>
      if d.version ≠ StoreDocument.currentVersion then
        .error (.corrupt (p.text ++ ": unsupported format version " ++ toString d.version.toNat))
      else .ok (.ofList d.records)

/-- Whether enough time has passed for a save. -/
def isDue (s : FileStore) (ticks : Nat) : Bool := s.interval * 1000000000 ≤ ticks - s.savedAt

/-- The store after a record was put, before any save. -/
def withRecord (s : FileStore) (a b : Identity) (v : Verdict) : FileStore :=
  { s with records := s.records.put a b v, dirty := true }

/-- The store after a save. -/
def saved (s : FileStore) (ticks : Nat) : FileStore := { s with savedAt := ticks, dirty := false }

variable {m : Type → Type} [Monad m] [Host m]

/-- Makes the directory that a file is to lie in. -/
def makeRoom (p : Path) : m (Except FileFault Unit) :=
  match p.parent? with
  | none => return .ok ()
  | some d => if d.text = "" then return .ok () else Host.makeDirectories d

/-- Writes the records to the file. -/
def save (s : FileStore) : m (Except StoreFault Unit × FileStore) := do
  match ← makeRoom s.path with
  | .error f => return (.error (.writeFailed s.path f), s)
  | .ok _ =>
    match ← Host.writeText s.path (StoreDocument.ofRecords s.records) with
    | .error f => return (.error (.writeFailed s.path f), s)
    | .ok _ => return (.ok (), s.saved (← Host.ticks))

/-- Opens the store in a file; if the file is not there yet, it is made. -/
def open? (p : Path) (interval : Nat) : m (Except StoreFault FileStore) := do
  let blank : FileStore := ⟨p, .empty, interval, ← Host.ticks, false⟩
  if ← Host.exists? p then
    match ← Host.readText p with
    | .error f => return .error (.unavailable ("cannot read " ++ p.text ++ ": " ++ f.message))
    | .ok text => return (recordsOf p text).map fun rs => { blank with records := rs }
  else
    let (written, s) ← blank.save
    return written.map fun _ => s

/-- Keeps a verdict, and saves if that is due. -/
def put (s : FileStore) (a b : Identity) (v : Verdict) :
    m (Except StoreFault Unit × FileStore) := do
  let s := s.withRecord a b v
  if s.isDue (← Host.ticks) then s.save else return (.ok (), s)

/-- Saves the store if the file may differ from it. -/
def flush (s : FileStore) : m (Except StoreFault Unit × FileStore) :=
  if s.dirty then s.save else return (.ok (), s)

/-- Saves what is not saved yet; if that fails, it is lost. -/
def close (s : FileStore) : m Unit := do
  let _ ← s.flush

end FileStore

/-- The store in a file, as a batch uses it. -/
def VerdictStore.file {m : Type → Type} [Monad m] [Host m] :
    VerdictStore (StateT FileStore m) where
  get a b := fun s => pure (s.records.get? a b, s)
  put a b v := fun s => s.put a b v
  flush := fun s => s.flush

end Likeness
