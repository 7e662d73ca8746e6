import NameMigration.Command.Answer

/-!
Carrying out a command on a tree of files.
-/

namespace NameMigration

namespace Settings

def withMapping (settings : Settings) (mapping? : Option Path) : Settings :=
  { settings with mapping := mapping?.getD settings.mapping }

def withGiven (settings : Settings) (sequential : Bool)
    (mapping? source? output? : Option Path) : Settings :=
  { settings.withMapping mapping? with
    sourceDir := source?.getD settings.sourceDir
    outputDir := output?.getD settings.outputDir
    parallel := settings.parallel && !sequential }

end Settings

def Mapping.lookUp? (mapping : Mapping) (name : Text) : Option Rename :=
  (mapping.find? name).or (mapping.findImported? name)

namespace Command

def loadUnit (settings : Settings) (file : Path) (tree : FileTree) :
    Except Fault (Migration × SourceUnit) := do
  let mapping ← Mapping.load tree settings.mapping
  return (⟨mapping, settings.rules⟩, ← SourceUnit.read tree file)

def perform (settings : Settings) (config? : Option Path) : Command → FileAction Fault Answer
  | .migrate options sequential mapping? source? output? =>
      .migrated <$> run (settings.withGiven sequential mapping? source? output?) options
  | .print file mapping? => do
      let (migration, unit) ← FileAction.looking (loadUnit (settings.withMapping mapping?) file)
      return .printed (migration.migrate unit)
  | .inspect file mapping? => do
      let (migration, unit) ← FileAction.looking (loadUnit (settings.withMapping mapping?) file)
      return .inspected file (migration.context unit.lines)
  | .mapping lookup? mapping? => do
      let settings := settings.withMapping mapping?
      let mapping ← FileAction.looking (Mapping.load · settings.mapping)
      return .lookedUp settings.mapping mapping
        (lookup?.map fun name => (name, mapping.lookUp? name))
  | .status => return .status settings config?

end Command

namespace Request

def perform (request : Request) : FileAction Fault Answer := do
  let settings ← FileAction.looking (Settings.load · request.config?)
  request.command.perform settings request.config?

end Request

/-- What a command line leaves on the output and in the tree. The outcome is told with the clock, which
is read when everything is done. -/
def carryOut (arguments : List Text) (tree : FileTree) : (Clock → Outcome) × FileTree :=
  match Request.ofArguments arguments with
  | .error refusal => (fun _ => .ofRefusal refusal, tree)
  | .ok request =>
      match request.perform tree with
      | .ok answer changed => (fun clock => .ofAnswer request.json clock answer, changed)
      | .error fault changed => (fun _ => .ofFault request.json fault, changed)

end NameMigration
