import NameMigration.Import.Line
import NameMigration.Mapping.Basic

/-!
The renames that matter to one source unit: those of the classes it imports, and those of the
classes it mentions with their package but does not import. Simple names imported from elsewhere
belong to other classes.
-/

namespace NameMigration

structure UnitContext where
  /-- The renames of imported classes, in the order of the imports. -/
  explicit : List Rename
  /-- The renames of classes mentioned with their package only. -/
  implicit : List Rename
  /-- The simple names imported from other namespaces, in order. -/
  foreign : List Text
  deriving DecidableEq, Repr

def Mapping.importedBy (mapping : Mapping) (statement : ImportStatement) : List Rename :=
  if statement.isWildcard then mapping.inPackage (statement.path ++ ['.'])
  else (mapping.findImported? statement.path).toList

def Rename.startsOneOf (rename : Rename) (behind : List Text) : Bool :=
  behind.any fun text => rename.legacy.name.isPrefixOf text

/-- Whether the line mentions the class with its package. Only occurrences of the qualifier that do
not overlap an earlier one are looked at. -/
def Rename.isMentionedOn (rename : Rename) (line : Text) : Bool :=
  rename.startsOneOf (Text.followers rename.legacy.qualifier line)

/-- The classes of one package that the lines mention, by the first line that does and then by
name. -/
def Mapping.mentionedIn (mapping : Mapping) (qualifier : Text) (lines : List Text) : List Rename :=
  let classes := mapping.inPackage qualifier
  (lines.flatMap fun line =>
    let behind := Text.followers qualifier line
    classes.filter (·.startsOneOf behind)).eraseDups

namespace UnitContext

/-- The context of a unit with these lines, when `space` is the namespace that is migrated. A line
with an import statement is not searched for mentions. -/
def ofLines (mapping : Mapping) (space : Text) (lines : List Text) : UnitContext :=
  let statements := lines.flatMap importsOn
  let (migrated, other) := statements.partition (·.isFrom space)
  let explicit := (migrated.flatMap mapping.importedBy).eraseDups
  let body := lines.filter fun line => (importsOn line).isEmpty
  let mentioned := mapping.packages.flatMap fun qualifier => mapping.mentionedIn qualifier body
  { explicit
    implicit := mentioned.filter fun rename => !explicit.contains rename
    foreign := Text.ordered (other.filterMap ImportStatement.simpleName?) }

def isForeign (context : UnitContext) (name : Text) : Bool :=
  context.foreign.contains name

def renames (context : UnitContext) : List (Rename × Bool) :=
  context.explicit.map (·, true) ++ context.implicit.map (·, false)

end UnitContext

end NameMigration
