import NameMigration.Settings
import NameMigration.Yaml.Node

/-!
Settings from a YAML document. The document is a mapping from field names; a field that is not
mentioned keeps its default. A document that has another shape, names a field that there is not, or
names one twice, is no settings document.
-/

namespace NameMigration

namespace Yaml

abbrev Reading (Value : Type) := ReaderT Document (StateT Nat Option) Value

namespace Reading

def followed : Node → Reading Node
  | .alias number => do
      match ← get with
      | 0 => failure
      | more + 1 =>
          set more
          ((← read).find? number).getM
  | node => return node

def text (node : Node) : Reading Text := do
  match ← followed node with
  | .scalar text _ _ => return text
  | _ => failure

def isForTruth (style : ScalarStyle) (tag : Option Bytes) : Bool :=
  style = .plain || (style = .literal && tag = some (Text.utf8 "tag:yaml.org,2002:bool".toList))

def bool (node : Node) : Reading Bool := do
  match ← followed node with
  | .scalar text style tag =>
      if !isForTruth style tag then failure
      else if (["true", "True", "TRUE"].map String.toList).contains text then return true
      else if (["false", "False", "FALSE"].map String.toList).contains text then return false
      else failure
  | _ => failure

def list {Value : Type} (item : Node → Reading Value) (node : Node) : Reading (List Value) := do
  match ← followed node with
  | .sequence items => items.mapM item
  | .scalar [] .plain _ => return []
  | _ => failure

def fields (node : Node) : Reading (List (Text × Node)) := do
  match ← followed node with
  | .mapping entries => entries.mapM fun (key, value) => return (← text key, value)
  | .scalar [] .plain _ => return []
  | _ => failure

def isNull (text : Text) (style : ScalarStyle) : Bool :=
  style = .plain && (["", "~", "null", "Null", "NULL"].map String.toList).contains text

def variant (node : Node) : Reading Text := do
  match ← followed node with
  | .scalar text style tag =>
      match tag.bind variantOfTag? with
      | some name => if isNull text style then return name else failure
      | none => return text
  | _ => failure
where
  variantOfTag? : Bytes → Option Text
    | 0x21 :: name => Utf8.decode? name
    | _ => none

end Reading

/-- How many aliases may be followed in reading a document: a hundred for each event in it. -/
def Document.maxFollowed (document : Document) : Nat :=
  100 * document.root.eventCount

def Document.read? {Value : Type} (document : Document) (reading : Node → Reading Value) :
    Option Value :=
  ((reading document.root).run document).run' document.maxFollowed

end Yaml

open Yaml (Node Reading)

def QualifierStyle.ofText? (text : Text) : Option QualifierStyle :=
  if text = "legacy".toList then some .legacy
  else if text = "mapped".toList then some .mapped
  else none

def QualifierStyle.ofNode (node : Node) : Reading QualifierStyle := do
  (QualifierStyle.ofText? (← Reading.variant node)).getM

def Patch.ofNode (node : Node) : Reading Patch := do
  let fields ← Reading.fields node
  match fields.filter (·.1 = "from".toList), fields.filter (·.1 = "to".toList) with
  | [(_, search)], [(_, replacement)] =>
      return ⟨← Reading.text search, ← Reading.text replacement⟩
  | _, _ => failure

namespace Settings

def withField (settings : Settings) (name : Text) (value : Node) : Reading Settings := do
  match String.ofList name with
  | "archive_url" => return { settings with archiveUrl := ← Reading.text value }
  | "archive_path" => return { settings with archivePath := ← Reading.text value }
  | "source_dir" => return { settings with sourceDir := ← Reading.text value }
  | "output_dir" => return { settings with outputDir := ← Reading.text value }
  | "mapping" => return { settings with mapping := ← Reading.text value }
  | "prune" => return { settings with prune := ← Reading.list Reading.text value }
  | "prune_top_level_files" =>
      return { settings with pruneTopLevelFiles := ← Reading.bool value }
  | "extensions" => return { settings with extensions := ← Reading.list Reading.text value }
  | "legacy_namespace" => return { settings with legacyNamespace := ← Reading.text value }
  | "protected_roots" =>
      return { settings with protectedRoots := ← Reading.list Reading.text value }
  | "extra_patches" =>
      return { settings with extraPatches := ← Reading.list Patch.ofNode value }
  | "qualifier" => return { settings with style := ← QualifierStyle.ofNode value }
  | "parallel" => return { settings with parallel := ← Reading.bool value }
  | _ => failure

def ofNode (node : Node) : Reading Settings := do
  let fields ← Reading.fields node
  if (fields.map (·.1)).Nodup then
    fields.foldlM (fun settings (name, value) => settings.withField name value) Settings.default
  else failure

def ofYaml? (text : Text) : Option Settings := do
  (← Yaml.Document.ofText? text).read? ofNode

end Settings

end NameMigration
