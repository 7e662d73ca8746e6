import NameMigration.Command.Perform
import Std.Time.DateTime.PlainDateTime
import Std.Time.DateTime.Timestamp

/-!
The program: it reads the working directory, and whatever else its command line and its settings name,
into a tree of files, carries out its command line on that tree, and makes the changes that the tree has
seen.
-/

namespace NameMigration

namespace Program

def pathOf (location : Location) : String :=
  String.ofList ('/' :: Text.joinWith ['/'] location)

def locationOf (path : String) : Location :=
  (path.toList.splitOn '/').filter (· ≠ [])

/-! ### Reading -/

def placeOf (location : Location) :=
  (·.join (pathOf location)) <$> IO.currentDir

mutual

/-- Reads what is at a location, but for what is inside a directory. The target of a link is read as
well. -/
partial def readEntry (location : Location) (tree : FileTree) : IO FileTree := do
  if (tree.get? location).isSome then return tree
  let place ← placeOf location
  try
    match (← place.symlinkMetadata).type with
    | .dir => return tree.put location .directory
    | .file => return tree.put location (.file (← IO.FS.readBinFile place).toList)
    | .symlink =>
        let target := (← IO.FS.realPath place).toString.toList
        readNamed target (tree.put location (.link target))
    | .other => return tree
  catch _ => return tree

partial def readInside (location : Location) (tree : FileTree) : IO FileTree := do
  let mut tree := tree
  if tree.get? location = some .directory then
    for entry in ← (← placeOf location).readDir do
      let inner := location ++ [entry.fileName.toList]
      tree ← readInside inner (← readEntry inner tree)
  return tree

/-- Reads what is on the way of a path, and what is inside the directory that it leads to. -/
partial def readNamed (path : Path) (tree : FileTree) : IO FileTree := do
  let mut tree := tree
  let mut location := path.start tree.home
  for name in path.steps.filter (!Path.Parts.isSilent ·) do
    if name = ['.', '.'] then location := location.dropLast
    else
      tree ← readEntry (location ++ [name]) tree
      location := match tree.get? (location ++ [name]) with
        | some (.link target) => locationOf (String.ofList target)
        | _ => location ++ [name]
  if tree.home.isPrefixOf location then return tree else readInside location tree

end

def named (settings : Settings) : Command → List Path
  | .migrate _ _ mapping? source? output? =>
      let settings := settings.withGiven false mapping? source? output?
      [settings.mapping, settings.archivePath, settings.sourceDir, settings.outputDir] ++
        settings.prune.map settings.sourceDir.join
  | .print file mapping? | .inspect file mapping? => [file, (settings.withMapping mapping?).mapping]
  | .mapping _ mapping? => [(settings.withMapping mapping?).mapping]
  | .status => []

def readTree (request : Request) : IO FileTree := do
  let home := locationOf (← IO.FS.realPath (← IO.currentDir)).toString
  let tree ← readInside home (.ofHome home)
  let tree ← request.config?.toList.foldlM (fun tree path => readNamed path tree) tree
  match Settings.load tree request.config? with
  | .error _ => return tree
  | .ok settings =>
      (named settings request.command).foldlM (fun tree path => readNamed path tree) tree

/-! ### Writing -/

def writeTree (before after : FileTree) : IO Unit := do
  for (location, entry) in before.entries.reverse do
    if (after.get? location).isNone then
      match entry with
      | .directory => IO.FS.removeDir (pathOf location)
      | _ => IO.FS.removeFile (pathOf location)
  for (location, entry) in after.entries do
    if before.get? location ≠ some entry then
      match entry with
      | .directory => IO.FS.createDirAll (pathOf location)
      | .file content => IO.FS.writeBinFile (pathOf location) ⟨content.toArray⟩
      | .link _ => pure ()

def now : IO Moment := do
  let stamp ← Std.Time.Timestamp.now
  let moment := Std.Time.PlainDateTime.ofWallTime (.ofDuration stamp.toDurationSinceUnixEpoch)
  return {
    year := moment.date.year.toInt
    month := moment.date.month.toNat
    day := moment.date.day.toNat
    hour := moment.time.hour.toNat
    minute := moment.time.minute.toNat
    second := moment.time.second.toNat }

def finish (outcome : Outcome) : IO UInt32 := do
  IO.print (String.ofList outcome.output)
  IO.eprint (String.ofList outcome.errors)
  return outcome.exitCode.toUInt32

end Program

end NameMigration

open NameMigration in
def main (arguments : List String) : IO UInt32 := do
  let arguments := arguments.map String.toList
  let startedAt ← Program.now
  let start ← IO.monoMsNow
  let tree ← match Request.ofArguments arguments with
    | .error _ => pure (.ofHome [])
    | .ok request => Program.readTree request
  let (outcome, changed) ← IO.lazyPure fun _ => carryOut arguments tree
  let elapsed := (← IO.monoMsNow) - start
  Program.writeTree tree changed
  Program.finish (outcome ⟨startedAt, elapsed⟩)
