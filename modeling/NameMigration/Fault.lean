import NameMigration.FileTree.Fault
import NameMigration.Settings

/-!
Why a run fails. A fault is told as a chain: what was being done, then its cause, then the cause of
that.
-/

namespace NameMigration

inductive Activity where
  | reading
  | creating
  | removing
  | listing
  | opening
  | openingMapping
  | readingMapping
  | readingSettings
  deriving DecidableEq, Repr

def Activity.text : Activity → Text
  | .reading => "read".toList
  | .creating => "create".toList
  | .removing => "remove".toList
  | .listing => "list".toList
  | .opening => "open".toList
  | .openingMapping => "open mapping file".toList
  | .readingMapping => "read mapping file".toList
  | .readingSettings => "read config".toList

inductive Fault where
  | settings (fault : SettingsFault)
  | notSettings
  | inSettings (path : Path) (cause : Fault)
  | file (activity : Activity) (path : Path) (cause : FileFault)
  | walk (root path : Path) (cause : FileFault)
  | walkLoop (root path ancestor : Path)
  | outside (path source : Path)
  | unit (path : Path) (cause : Fault)
  | download (address : Text)
  | notArchive (path : Path)
  | unreadableEntry (index : Nat) (path : Path)
  | escapingEntry (name : Text) (destination : Path)
  | corruptEntry (path : Path)
  | numberOutOfRange
  deriving DecidableEq, Repr

namespace Fault

def chain : Fault → List Text
  | .settings fault => [fault.message]
  | .notSettings => ["invalid migration config".toList]
  | .inSettings path cause => ("in config ".toList ++ path) :: cause.chain
  | .file activity path cause =>
      ["failed to ".toList ++ activity.text ++ ' ' :: path, cause.message]
  | .walk root path cause =>
      ["failed to walk ".toList ++ root,
        "IO error for operation on ".toList ++ path ++ ": ".toList ++ cause.message,
        cause.message]
  | .walkLoop root path ancestor =>
      ["failed to walk ".toList ++ root,
        "File system loop found: ".toList ++ path ++ " points to an ancestor ".toList ++ ancestor]
  | .outside path source =>
      [path ++ " is not inside ".toList ++ source, "prefix not found".toList]
  | .unit path cause => ("while migrating ".toList ++ path) :: cause.chain
  | .download address =>
      ["failed to download ".toList ++ address, "builder error".toList,
        "relative URL without a base".toList]
  | .notArchive path => [path ++ " is not a ZIP archive".toList]
  | .unreadableEntry index path =>
      ["failed to read entry ".toList ++ (toString index).toList ++ " of ".toList ++ path]
  | .escapingEntry name destination =>
      ["archive entry ".toList ++ name.quoted ++ " escapes ".toList ++ destination]
  | .corruptEntry path => ["failed to extract ".toList ++ path]
  | .numberOutOfRange => ["number out of range".toList]

def message (fault : Fault) : Text :=
  Text.joinWith ": ".toList fault.chain

def outermost (fault : Fault) : Text :=
  fault.chain.head?.getD []

end Fault

end NameMigration
