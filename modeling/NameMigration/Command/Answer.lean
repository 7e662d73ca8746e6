import NameMigration.Command.Basic

/-!
Answers to commands, as text for readers and as JSON, and what a command leaves on the output, on the
error output and as its exit code.
-/

namespace NameMigration

inductive Answer where
  | migrated (summary : Summary)
  | printed (unit : MigratedUnit)
  | inspected (file : Path) (context : UnitContext)
  | lookedUp (file : Path) (mapping : Mapping) (lookup? : Option (Text × Option Rename))
  | status (settings : Settings) (file? : Option Path)

def version : Text := "0.3.0".toList

def Rename.text (rename : Rename) : Text :=
  rename.legacy.qualified ++ " -> ".toList ++ rename.target.qualified

def Rename.json (rename : Rename) : JsonValue :=
  .ofFields [
    ("double", .bool rename.isNested),
    ("legacy", .text rename.legacy.qualified),
    ("new", .text rename.target.qualified)]

def QualifierStyle.title : QualifierStyle → Text
  | .legacy => "Legacy".toList
  | .mapped => "Mapped".toList

def QualifierStyle.name : QualifierStyle → Text
  | .legacy => "legacy".toList
  | .mapped => "mapped".toList

def Settings.json (settings : Settings) : JsonValue :=
  let patch := fun (patch : Patch) =>
    JsonValue.ofFields [("from", .text patch.search), ("to", .text patch.replacement)]
  .ofFields [
    ("archive_path", .text settings.archivePath),
    ("archive_url", .text settings.archiveUrl),
    ("extensions", .ofTexts settings.extensions),
    ("extra_patches", .array (settings.extraPatches.map patch)),
    ("legacy_namespace", .text settings.legacyNamespace),
    ("mapping", .text settings.mapping),
    ("output_dir", .text settings.outputDir),
    ("parallel", .bool settings.parallel),
    ("protected_roots", .ofTexts settings.protectedRoots),
    ("prune", .ofTexts settings.prune),
    ("prune_top_level_files", .bool settings.pruneTopLevelFiles),
    ("qualifier", .text settings.style.name),
    ("source_dir", .text settings.sourceDir)]

namespace Answer

open Report (numeral rule)

def contextLines (file : Path) (context : UnitContext) : List Text :=
  let renames := fun (title : String) (renames : List Rename) =>
    (title.toList ++ " (".toList ++ numeral renames.length ++ "):".toList)
      :: renames.map ("  ".toList ++ ·.text)
  ["🔬 ".toList ++ file, rule] ++ renames "Explicit imports" context.explicit ++
    renames "Implicitly used" context.implicit ++
    ["Foreign simple names (".toList ++ numeral context.foreign.length ++ "): ".toList ++
      Text.joinWith ", ".toList context.foreign]

def mappingLines (file : Path) (mapping : Mapping) (lookup? : Option (Text × Option Rename)) :
    List Text :=
  ["📋 ".toList ++ file,
    "Flat: ".toList ++ numeral mapping.flat.length ++ " | Double: ".toList ++
      numeral mapping.nested.length ++ " | Skipped lines: ".toList ++
      numeral mapping.malformed] ++
    match lookup? with
    | none => []
    | some (_, some rename) => [rename.text]
    | some (name, none) => [name ++ ": not in mapping".toList]

def statusLines (settings : Settings) : List Text :=
  ["SRG Remap v".toList ++ version,
    "Namespace: ".toList ++ settings.legacyNamespace ++ " (protected: ".toList ++
      Text.joinWith ", ".toList settings.protectedRoots ++ [')'],
    "Mapping: ".toList ++ settings.mapping,
    "Source: ".toList ++ settings.sourceDir ++ " -> Output: ".toList ++ settings.outputDir,
    "Qualifier: ".toList ++ settings.style.title ++ " | Parallel: ".toList ++
      (toString settings.parallel).toList ++ " | Extra patches: ".toList ++
      numeral settings.extraPatches.length]

def text (clock : Clock) : Answer → Text
  | .migrated summary => (summary.report clock).text
  | .printed unit => Text.joinWith ['\n'] unit.lines
  | .inspected file context => Text.joinWith ['\n'] (contextLines file context)
  | .lookedUp file mapping lookup? => Text.joinWith ['\n'] (mappingLines file mapping lookup?)
  | .status settings _ => Text.joinWith ['\n'] (statusLines settings)

def json? (clock : Clock) : Answer → Option JsonValue
  | .migrated summary => (summary.report clock).json?
  | .printed unit =>
      some <| .ofFields [
        ("lines", .ofTexts unit.lines),
        ("path", .text unit.path),
        ("stats", unit.counts.json)]
  | .inspected file context =>
      some <| .ofFields [
        ("explicit_imports", .array (context.explicit.map Rename.json)),
        ("foreign_short_names", .ofTexts context.foreign),
        ("implicitly_used", .array (context.implicit.map Rename.json)),
        ("path", .text file)]
  | .lookedUp file mapping lookup? =>
      let found := lookup?.map fun (_, rename?) =>
        ("lookup", (rename?.map Rename.json).getD .null)
      some <| .ofFields <|
        [("double", .number mapping.nested.length), ("flat", .number mapping.flat.length)] ++
        found.toList ++
        [("mapping", .text file), ("skipped_lines", .number mapping.malformed)]
  | .status settings file? =>
      some <| .ofFields [
        ("config", settings.json),
        ("config_file", (file?.map JsonValue.text).getD .null),
        ("version", .text version)]

end Answer

structure Outcome where
  exitCode : Nat
  output : Text := []
  errors : Text := []
  deriving DecidableEq, Repr

def Text.hanging (width : Nat) (text : Text) : Text :=
  Text.joinWith ('\n' :: List.replicate width ' ') (text.splitOn '\n')

namespace Fault

def numberedCause (cause : Text) (number : Nat) : Text :=
  let digits := Report.numeral number
  List.replicate (5 - digits.length) ' ' ++ digits ++ ": ".toList ++ cause.hanging 7

def causeLines : (causes : List Text) → List Text
  | [] => []
  | [cause] => ["".toList, "Caused by:".toList, "    ".toList ++ cause.hanging 4]
  | causes => ["".toList, "Caused by:".toList] ++ causes.mapIdx fun number cause =>
      numberedCause cause number

def text (fault : Fault) : Text :=
  Text.ofLines (("Error: ".toList ++ fault.outermost) :: causeLines fault.chain.tail)

def json (fault : Fault) : JsonValue :=
  .ofFields [("error", .text fault.message), ("success", .bool false)]

end Fault

namespace Outcome

def ofFault (json : Bool) (fault : Fault) : Outcome :=
  if json then { exitCode := 1, output := Text.ofLines [fault.json.layout] }
  else { exitCode := 1, errors := fault.text }

def ofAnswer (json : Bool) (clock : Clock) (answer : Answer) : Outcome :=
  if json then
    match answer.json? clock with
    | some data =>
        let value := JsonValue.ofFields [("data", data), ("success", .bool true)]
        { exitCode := 0, output := Text.ofLines [value.layout] }
    | none => ofFault json .numberOutOfRange
  else { exitCode := 0, output := Text.ofLines [answer.text clock] }

def usage : Text :=
  Text.ofLines <| List.map String.toList [
    "Usage: srg-remap [--log-level LEVEL] [--json] [--config FILE] COMMAND",
    "",
    "Commands:",
    "  migrate [--fetch] [--prepare] [--dry-run] [--sequential]",
    "          [--mapping FILE] [--source DIRECTORY] [--output DIRECTORY]",
    "  rewrite --file FILE [--mapping FILE]",
    "  inspect --file FILE [--mapping FILE]",
    "  mapping [--lookup NAME] [--mapping FILE]",
    "  status"]

def ofRefusal : Refusal → Outcome
  | .misused => { exitCode := 2, errors := usage }
  | .helpWanted => { exitCode := 0, output := usage }
  | .versionWanted => { exitCode := 0, output := Text.ofLines ["srg-remap ".toList ++ version] }

end Outcome

end NameMigration
