import NameMigration.Command.Switch
import NameMigration.Run.Basic

/-!
What a command line asks for: a command with its switches, and the switches that go with every
command, which may stand before the name of the command or behind it.
-/

namespace NameMigration

inductive Command where
  | migrate (options : RunOptions) (sequential : Bool) (mapping? source? output? : Option Path)
  | print (file : Path) (mapping? : Option Path)
  | inspect (file : Path) (mapping? : Option Path)
  | mapping (lookup? : Option Text) (mapping? : Option Path)
  | status
  deriving DecidableEq, Repr

structure Request where
  command : Command
  json : Bool
  config? : Option Path
  deriving DecidableEq, Repr

namespace Command

def commonSwitches : List Switch :=
  [⟨"log-level".toList, none, .text⟩, ⟨"json".toList, none, .flag⟩,
    ⟨"config".toList, none, .path⟩, ⟨"help".toList, some 'h', .help⟩]

def mappingSwitch : Switch :=
  ⟨"mapping".toList, none, .path⟩

def fileSwitch : Switch :=
  ⟨"file".toList, some 'f', .path⟩

def table : List (Text × List Switch) :=
  [("migrate".toList,
      (["fetch", "prepare", "dry-run", "sequential"].map fun name =>
        ⟨name.toList, none, .flag⟩) ++
      [mappingSwitch, ⟨"source".toList, none, .path⟩, ⟨"output".toList, none, .path⟩]),
    ("rewrite".toList, [fileSwitch, mappingSwitch]),
    ("inspect".toList, [fileSwitch, mappingSwitch]),
    ("mapping".toList, [⟨"lookup".toList, some 'l', .text⟩, mappingSwitch]),
    ("status".toList, [])]

def ofGiven? (name : Text) (given : List Given) : Option Command :=
  let mapping? := Given.value? given "mapping"
  let file? := Given.value? given "file"
  match String.ofList name with
  | "migrate" =>
      some <| .migrate
        { fetch := Given.has given "fetch"
          prepare := Given.has given "prepare"
          dryRun := Given.has given "dry-run" }
        (Given.has given "sequential") mapping? (Given.value? given "source")
        (Given.value? given "output")
  | "rewrite" => file?.map (.print · mapping?)
  | "inspect" => file?.map (.inspect · mapping?)
  | "mapping" => some (.mapping (Given.value? given "lookup") mapping?)
  | "status" => some .status
  | _ => none

end Command

namespace Request

def isHelpTopic : List Text → Bool
  | [] => true
  | [name] => name = "help".toList || Command.table.any (·.1 = name)
  | _ => false

def ofCommand (common : List Given) (name : Text) (arguments : List Text) :
    Except Refusal Request := do
  let some (_, switches) := Command.table.find? (·.1 = name) | throw .misused
  let (given, rest) ← Given.scan (Command.commonSwitches ++ switches) [] arguments
  if rest ≠ [] ∧ rest ≠ [['-', '-']] then throw .misused
  let some command := Command.ofGiven? name given | throw .misused
  return {
    command
    json := Given.has given "json" || Given.has common "json"
    config? := (Given.value? given "config").or (Given.value? common "config") }

def ofArguments (arguments : List Text) : Except Refusal Request := do
  let switches := Command.commonSwitches ++ [⟨"version".toList, some 'V', .version⟩]
  match ← Given.scan switches [] arguments with
  | (_, []) => throw .misused
  | (common, name :: rest) =>
      if name = "help".toList then
        throw (if isHelpTopic rest then .helpWanted else .misused)
      else ofCommand common name rest

end Request

end NameMigration
