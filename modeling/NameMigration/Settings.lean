import NameMigration.Path
import NameMigration.Substitution.Rules
import NameMigration.Text.Quoted

/-!
The settings of a migration run, what is wrong with them, and the rules they lead to.
-/

namespace NameMigration

structure Settings where
  archiveUrl : Text
  archivePath : Path
  sourceDir : Path
  outputDir : Path
  mapping : Path
  prune : List Path
  pruneTopLevelFiles : Bool
  extensions : List Text
  legacyNamespace : Text
  protectedRoots : List Text
  extraPatches : List Patch
  style : QualifierStyle
  parallel : Bool
  deriving DecidableEq, Repr

inductive SettingsFault where
  | emptyNamespace
  | namespaceNotDotted (space : Text)
  | noExtensions
  | sameDirectories (directory : Path)
  deriving DecidableEq, Repr

def SettingsFault.message : SettingsFault → Text
  | .emptyNamespace => "legacy_namespace must not be empty".toList
  | .namespaceNotDotted space =>
      "legacy_namespace ".toList ++ space.quoted ++ " is not a dotted package name".toList
  | .noExtensions => "extensions must list at least one file extension".toList
  | .sameDirectories directory =>
      "source_dir and output_dir must differ (both are ".toList ++ directory ++ [')']

namespace Settings

def default : Settings where
  archiveUrl :=
    ("https://hub.spigotmc.org/stash/rest/api/latest/projects/SPIGOT/repos/craftbukkit" ++
      "/archive?format=zip").toList
  archivePath := "OldCraftBukkit/CraftBukkit.zip".toList
  sourceDir := "OldCraftBukkit".toList
  outputDir := "NewCraftBukkit".toList
  mapping := "bukkit_srg.srg".toList
  prune := ["src/assembly", "src/main/resources", "src/test", "nms-patches"].map String.toList
  pruneTopLevelFiles := true
  extensions := ["java".toList]
  legacyNamespace := "net.minecraft".toList
  protectedRoots := ["org.bukkit", "com.mojang"].map String.toList
  extraPatches := []
  style := .legacy
  parallel := true

def namespaceName (settings : Settings) : Text :=
  (settings.legacyNamespace.trim.reverse.dropWhile (· = '.')).reverse

def fault? (settings : Settings) : Option SettingsFault :=
  if settings.namespaceName = [] then some .emptyNamespace
  else if settings.namespaceName.segments.contains [] then
    some (.namespaceNotDotted settings.legacyNamespace)
  else if settings.extensions = [] then some .noExtensions
  else if settings.sourceDir.sameAs settings.outputDir then
    some (.sameDirectories settings.sourceDir)
  else none

def rules (settings : Settings) : Rules where
  legacyNamespace := settings.namespaceName
  protectedRoots := settings.protectedRoots
  patches := PatchTable.builtin.extend settings.extraPatches
  style := settings.style

def isSourceFile (settings : Settings) (path : Path) : Bool :=
  path.extension?.any settings.extensions.contains

end Settings

end NameMigration
