import NameMigration.Text.Basic

/-!
Patches: literal replacements that mend what the other passes leave behind where two of them meet.
-/

namespace NameMigration

structure Patch where
  search : Text
  replacement : Text
  deriving DecidableEq, Repr

abbrev PatchTable := List Patch

namespace PatchTable

def builtin : PatchTable :=
  [⟨"net.minecraft.world.net.minecraft.world.inventory.AbstractContainerMenu".toList,
    "net.minecraft.world.inventory.AbstractContainerMenu".toList⟩]

def extend (table : PatchTable) (more : List Patch) : PatchTable :=
  table ++ more.filter (·.search ≠ [])

def apply : PatchTable → Text → Text × Nat
  | [], line => (line, 0)
  | patch :: rest, line =>
      if Text.occurs patch.search line then
        let (result, count) := apply rest (Text.replaceAll patch.search patch.replacement line)
        (result, count + 1)
      else apply rest line

end PatchTable

end NameMigration
