import NameMigration.Archive.Extract
import NameMigration.Run.Report
import NameMigration.Settings.Document
import NameMigration.Sources.Collect
import NameMigration.Sources.Prune
import NameMigration.Sources.Unit
import NameMigration.Unit.Migration

/-!
A run: the sources are fetched and pruned if asked for, every source unit is read and migrated, and
only then is anything written, each unit at its place below the output root.
-/

namespace NameMigration

def Mapping.load (tree : FileTree) (path : Path) : Except Fault Mapping :=
  match tree.find path with
  | .error fault => .error (.file .openingMapping path fault)
  | .ok entry =>
      match entry.text with
      | .error fault => .error (.file .readingMapping path fault)
      | .ok text => .ok (Mapping.ofLines text.lines)

namespace Settings

def defaultFile : Path := "srg-remap.yml".toList

def ofText (text : Text) : Except Fault Settings :=
  match Settings.ofYaml? text with
  | none => .error .notSettings
  | some settings =>
      match settings.fault? with
      | some fault => .error (.settings fault)
      | none => .ok settings

def ofFile (tree : FileTree) (path : Path) : Except Fault Settings :=
  match tree.readText path with
  | .error fault => .error (.file .readingSettings path fault)
  | .ok text => (ofText text).mapError (.inSettings path)

def load (tree : FileTree) (path? : Option Path) : Except Fault Settings :=
  match path? with
  | some path => ofFile tree path
  | none => if tree.leads defaultFile then ofFile tree defaultFile else .ok Settings.default

end Settings

structure RunOptions where
  fetch : Bool := false
  prepare : Bool := false
  dryRun : Bool := false
  deriving DecidableEq, Repr

structure MigratedUnit where
  path : Path
  lines : List Text
  counts : Counts
  deriving DecidableEq, Repr

def Migration.migrate (migration : Migration) (unit : SourceUnit) : MigratedUnit :=
  let (lines, counts) := migration.migrateLines unit.lines
  { path := unit.path, lines, counts }

def Migration.migrateFiles (migration : Migration) (tree : FileTree) (paths : List Path) :
    Except Fault (List MigratedUnit) :=
  paths.mapM fun path => return migration.migrate (← SourceUnit.read tree path)

structure Plan where
  mapping : Mapping
  units : List MigratedUnit

namespace Plan

def make (settings : Settings) (tree : FileTree) : Except Fault Plan := do
  let mapping ← Mapping.load tree settings.mapping
  let paths ← tree.sourceFiles settings settings.sourceDir
  return { mapping, units := ← Migration.migrateFiles ⟨mapping, settings.rules⟩ tree paths }

end Plan

def writeUnit (settings : Settings) (unit : MigratedUnit) : FileAction Fault Unit := do
  match settings.sourceDir.placedUnder? settings.outputDir unit.path with
  | none => throw (.outside unit.path settings.sourceDir)
  | some target => (writeLines target unit.lines).within (.unit unit.path)

def writeUnits (settings : Settings) (units : List MigratedUnit) : FileAction Fault Unit :=
  units.forM (writeUnit settings)

def fetchSources (settings : Settings) : FileAction Fault Unit := do
  fetchArchive settings.archiveUrl settings.archivePath
  discard <| extractArchive settings.archivePath settings.sourceDir

def run (settings : Settings) (options : RunOptions) : FileAction Fault Summary := do
  if let some fault := settings.fault? then throw (.settings fault)
  if options.fetch then fetchSources settings
  if options.prepare then discard <| prune settings
  let plan ← FileAction.looking (Plan.make settings)
  if !options.dryRun then writeUnits settings plan.units
  return {
    sourceDir := settings.sourceDir
    outputDir := settings.outputDir
    flatMappings := plan.mapping.flat.length
    nestedMappings := plan.mapping.nested.length
    malformedLines := plan.mapping.malformed
    units := plan.units.length
    filesWritten := if options.dryRun then 0 else plan.units.length
    dryRun := options.dryRun
    counts := Counts.total (plan.units.map (·.counts)) }

end NameMigration
