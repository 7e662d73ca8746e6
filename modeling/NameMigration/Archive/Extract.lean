import NameMigration.Archive.Directory
import NameMigration.Sources.Unit

/-!
Fetching an archive and extracting it below a directory. An entry whose name leads out of that
directory ends the extraction.
-/

namespace NameMigration

namespace Archive

def depthAfter? (depth : Nat) : Path.Component → Option Nat
  | .root => none
  | .current => some depth
  | .parent => if depth = 0 then none else some (depth - 1)
  | .name _ => some (depth + 1)

def isEnclosed (path : Path) : Bool :=
  !path.contains '\x00' && (path.components.foldlM depthAfter? 0).isSome

end Archive

def FileTree.contentAt (tree : FileTree) (location : Location) : Bytes :=
  match tree.get? location with
  | some (.file content) => content
  | _ => []

/-- Fetches the archive at an address. Nothing can be fetched from here, so all that happens is that
the directories around the destination are created. -/
def fetchArchive (address : Text) (destination : Path) : FileAction Fault Unit := do
  createParent destination
  throw (.download address)

def extractEntry (archive : Path) (location : Location) (destination : Path) (index : Nat)
    (entry : Archive.Entry) : FileAction Fault Nat := do
  let some start := entry.contentStart? ((← get).contentAt location)
    | throw (.unreadableEntry index archive)
  if !Archive.isEnclosed entry.name then throw (.escapingEntry entry.name destination)
  let target := destination.join entry.name
  if entry.isDirectory then
    (FileAction.createDirectories target).within (.file .creating target)
    return 0
  createParent target
  let write := fun content =>
    (FileAction.changing (·.writeFile target content)).within (.file .creating target)
  write []
  let (content, isIntact) := entry.unpack (((← get).contentAt location).drop start)
  write content
  if isIntact then return 1 else throw (.corruptEntry target)

def extractEntries (archive : Path) (location : Location) (destination : Path)
    (entries : List Archive.Entry) : FileAction Fault Nat := do
  let counts ← entries.zipIdx.mapM fun (entry, index) =>
    extractEntry archive location destination index entry
  return counts.foldl (· + ·) 0

def extractArchive (archive destination : Path) : FileAction Fault Nat := do
  match (← get).locate archive with
  | .error fault => throw (.file .opening archive fault)
  | .ok (location, entry) =>
      match entry.content.toOption.bind Archive.entries? with
      | none => throw (.notArchive archive)
      | some entries => extractEntries archive location destination entries

end NameMigration
