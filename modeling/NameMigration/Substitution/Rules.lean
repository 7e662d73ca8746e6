import NameMigration.Import.Line
import NameMigration.Substitution.Patch

/-!
The rules of a migration, apart from its mapping.
-/

namespace NameMigration

inductive QualifierStyle where
  | legacy
  | mapped
  deriving DecidableEq, Repr

structure Rules where
  legacyNamespace : Text
  protectedRoots : List Text
  patches : PatchTable
  style : QualifierStyle
  deriving DecidableEq, Repr

def isProtected (roots : List Text) (qualifier : Text) : Bool :=
  roots.any fun root => root ≠ [] && inNamespace root qualifier

theorem isProtected_iff {roots : List Text} {qualifier : Text} :
    isProtected roots qualifier = true ↔
      ∃ root ∈ roots, root ≠ [] ∧ inNamespace root qualifier = true := by
  simp [isProtected]

end NameMigration
