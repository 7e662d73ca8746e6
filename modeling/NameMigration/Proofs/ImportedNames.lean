import Mathlib
import NameMigration.Proofs.LastEntry
import NameMigration.Proofs.MemberReferences

/-!
The class that an import path leads to. Only the last two parts of the path are looked at, so what is
found is known by a name of one or two parts, and a name of two parts is asked for among the nested
renames only. A mapped class is found by its own path exactly when its name is such a one and no nested
rename of another class comes first.
-/

namespace NameMigration

namespace ClassName

def lastPackage? (className : ClassName) : Option Text :=
  className.qualifier.segments.dropLast.getLast?

variable {className : ClassName}

theorem IsProper.segments_qualified (proper : className.IsProper) :
    className.qualified.segments =
      className.qualifier.segments.dropLast ++ className.name.segments := by
  obtain ⟨packages, _, qualifier⟩ := proper.qualifier
  have ofQualifier : className.qualifier.segments = packages.flatMap Text.segments ++ [[]] := by
    simpa [qualifier, Text.segments] using Text.segments_qualifierOf packages []
  rw [ofQualifier, List.dropLast_concat, qualified, qualifier, Text.segments_qualifierOf]

end ClassName

namespace Mapping

variable {mapping : Mapping} {path : Text} {rename : Rename}

/-- What a path finds has the last part of the path, or the last two, as its name; a name of two parts
is that of a nested rename. -/
theorem key_of_findImported? (found : mapping.findImported? path = some rename) :
    rename.key.segments <:+ path.segments ∧
      (rename.key.segments.length = 1 ∨ rename.key.segments.length = 2 ∧ rename.isNested = true) := by
  have undotted : ∀ part ∈ path.segments.reverse, part.segments = [part] := by
    intro part member
    exact List.splitOn_eq_singleton (Text.dot_notMem_of_mem_segments (List.mem_reverse.mp member))
  rw [← List.reverse_prefix]
  unfold findImported? at found
  split at found
  · exact absurd found (by simp)
  · rename_i last others parts
    rw [parts] at undotted ⊢
    have lastAlone := undotted last (by simp)
    split at found
    · exact absurd found (by simp)
    · rcases Option.or_eq_some_iff.mp found with inner | ⟨_, plain⟩
      · obtain ⟨outer, isOuter, nested⟩ := Option.bind_eq_some_iff.mp inner
        obtain ⟨more, rfl⟩ := List.head?_eq_some_iff.mp isOuter
        obtain ⟨isNested, key⟩ := findNested?_eq_some_iff.mp nested
        have keyParts : rename.key.segments = [outer, last] := by
          rw [key, Text.segments_append_dot, lastAlone, undotted outer (by simp)]
          rfl
        rw [keyParts]
        exact ⟨by simp, Or.inr ⟨rfl, (List.mem_filter.mp isNested).2⟩⟩
      · have key := (find?_eq_some_iff.mp plain).2
        rw [key, lastAlone]
        exact ⟨by simp, Or.inl rfl⟩

/-- Whether the package part in front of the class and its name are together the name of a nested
rename. -/
def Shadows (mapping : Mapping) (className : ClassName) : Prop :=
  ∃ package ∈ className.lastPackage?, ∃ other ∈ mapping.nested,
    other.key = package ++ '.' :: className.name

instance (mapping : Mapping) (className : ClassName) : Decidable (mapping.Shadows className) :=
  inferInstanceAs (Decidable (∃ package ∈ className.lastPackage?, ∃ other ∈ mapping.nested,
    other.key = package ++ '.' :: className.name))

theorem findImported?_simple (member : rename ∈ mapping.renames) (proper : rename.legacy.IsProper)
    (simple : rename.key.segments = [rename.key]) :
    mapping.findImported? rename.legacy.qualified = some rename ↔ ¬mapping.Shadows rename.legacy := by
  have parts : rename.legacy.qualified.segments.reverse =
      rename.key :: rename.legacy.qualifier.segments.dropLast.reverse := by
    rw [proper.segments_qualified, ← Rename.key, simple]
    simp
  have found : mapping.find? rename.key = some rename := find?_eq_some_iff.mpr ⟨member, rfl⟩
  have nonempty : rename.key ≠ [] := proper.name_ne_nil
  have answer : mapping.findImported? rename.legacy.qualified =
      (rename.legacy.lastPackage?.bind fun package =>
        mapping.findNested? (package ++ '.' :: rename.key)).or (some rename) := by
    simp only [findImported?, parts, if_neg nonempty, found, List.head?_reverse, ClassName.lastPackage?]
  rw [answer]
  constructor
  · rintro first ⟨package, inFront, other, isNested, key⟩
    have otherFound : mapping.findNested? (package ++ '.' :: rename.key) = some other :=
      findNested?_eq_some_iff.mpr ⟨isNested, key⟩
    rw [Option.mem_def.mp inFront, Option.bind_some, otherFound, Option.some_or, Option.some.injEq]
      at first
    subst first
    have lengths := congrArg List.length key
    simp only [Rename.key, List.length_append, List.length_cons] at lengths
    omega
  · intro notShadowed
    have nothing : (rename.legacy.lastPackage?.bind fun package =>
        mapping.findNested? (package ++ '.' :: rename.key)) = none := by
      rw [Option.bind_eq_none_iff]
      intro package inFront
      rw [Option.eq_none_iff_forall_not_mem]
      intro other otherFound
      obtain ⟨isNested, key⟩ := findNested?_eq_some_iff.mp otherFound
      exact notShadowed ⟨package, inFront, other, isNested, key⟩
    rw [nothing, Option.none_or]

theorem findImported?_inner (member : rename ∈ mapping.nested) (proper : rename.legacy.IsProper)
    {outer inner : Text} (parts : rename.key.segments = [outer, inner]) :
    mapping.findImported? rename.legacy.qualified = some rename := by
  have reversed : rename.legacy.qualified.segments.reverse =
      inner :: outer :: rename.legacy.qualifier.segments.dropLast.reverse := by
    rw [proper.segments_qualified, ← Rename.key, parts]
    simp
  have innerNonempty : inner ≠ [] := by
    rintro rfl
    exact proper.name (by rw [← Rename.key, parts]; simp)
  have found : mapping.findNested? (outer ++ '.' :: inner) = some rename :=
    findNested?_eq_some_iff.mpr ⟨member, Text.eq_of_segments_eq_pair parts⟩
  simp only [findImported?, reversed, if_neg innerNonempty, List.head?_cons, Option.bind_some, found,
    Option.some_or]

theorem findImported?_own_iff (member : rename ∈ mapping.renames) (proper : rename.legacy.IsProper) :
    mapping.findImported? rename.legacy.qualified = some rename ↔
      rename.key.segments.length = 1 ∧ ¬mapping.Shadows rename.legacy ∨
        rename.key.segments.length = 2 ∧ rename.isNested = true := by
  constructor
  · intro found
    rcases (key_of_findImported? found).2 with single | pair
    · have simple : rename.key.segments = [rename.key] :=
        List.splitOn_eq_singleton (Text.segments_length_eq_one_iff.mp single)
      exact Or.inl ⟨single, (findImported?_simple member proper simple).mp found⟩
    · exact Or.inr pair
  · rintro (⟨single, notShadowed⟩ | ⟨pair, isNested⟩)
    · have simple : rename.key.segments = [rename.key] :=
        List.splitOn_eq_singleton (Text.segments_length_eq_one_iff.mp single)
      exact (findImported?_simple member proper simple).mpr notShadowed
    · obtain ⟨outer, inner, parts⟩ := List.length_eq_two.mp pair
      exact findImported?_inner (List.mem_filter.mpr ⟨member, isNested⟩) proper parts

/-- An import of a mapped class finds just this class exactly when its legacy name has one part and is
not shadowed, or has two parts and belongs to a nested rename. -/
theorem findImported?_qualified_iff (entries : List Text) :
    (∀ rename ∈ (ofLines entries).flat,
      (ofLines entries).findImported? rename.legacy.qualified = some rename ↔
        rename.key.segments.length = 1 ∧ ¬(ofLines entries).Shadows rename.legacy) ∧
    ∀ rename ∈ (ofLines entries).nested,
      (ofLines entries).findImported? rename.legacy.qualified = some rename ↔
        rename.key.segments.length = 2 ∨
          rename.key.segments.length = 1 ∧ ¬(ofLines entries).Shadows rename.legacy := by
  constructor
  · intro rename inFlat
    obtain ⟨member, isFlat⟩ := List.mem_filter.mp inFlat
    rw [findImported?_own_iff member (isProper_of_mem_ofLines member)]
    simp_all
  · intro rename inNested
    obtain ⟨member, isNested⟩ := List.mem_filter.mp inNested
    rw [findImported?_own_iff member (isProper_of_mem_ofLines member), or_comm]
    simp [isNested]

end Mapping

/-! The path of the lid in the package `Box` is also the one of a lid inside a box, and the hinge leaves
its box. -/

def hingeEntries : List Text :=
  ["p/Box/Lid q/Cover".toList, "r/Box$Lid q/Crate$Top".toList, "r/Box$Hinge q/Hinge".toList,
    "r/Key q/Lock$Key".toList]

def lidToCover : Rename :=
  ⟨⟨"p.Box.".toList, "Lid".toList⟩, ⟨"q.".toList, "Cover".toList⟩⟩

def lidToTop : Rename :=
  ⟨⟨"r.".toList, "Box.Lid".toList⟩, ⟨"q.".toList, "Crate.Top".toList⟩⟩

def hingeToHinge : Rename :=
  ⟨⟨"r.".toList, "Box.Hinge".toList⟩, ⟨"q.".toList, "Hinge".toList⟩⟩

def keyToLockKey : Rename :=
  ⟨⟨"r.".toList, "Key".toList⟩, ⟨"q.".toList, "Lock.Key".toList⟩⟩

theorem findImported?_lidAndKey :
    lidToTop ∈ (Mapping.ofLines hingeEntries).nested ∧
      keyToLockKey ∈ (Mapping.ofLines hingeEntries).nested ∧
      (Mapping.ofLines hingeEntries).findImported? lidToTop.legacy.qualified = some lidToTop ∧
      (Mapping.ofLines hingeEntries).findImported? keyToLockKey.legacy.qualified =
        some keyToLockKey := by
  have lidNested : lidToTop ∈ (Mapping.ofLines hingeEntries).nested := by decide +kernel
  have keyNested : keyToLockKey ∈ (Mapping.ofLines hingeEntries).nested := by decide +kernel
  have ofNested := (Mapping.findImported?_qualified_iff hingeEntries).2
  exact ⟨lidNested, keyNested, (ofNested lidToTop lidNested).mpr (Or.inl (by decide +kernel)),
    (ofNested keyToLockKey keyNested).mpr (Or.inr (by decide +kernel))⟩

theorem findImported?_coverAndHinge :
    lidToCover ∈ (Mapping.ofLines hingeEntries).flat ∧
      (Mapping.ofLines hingeEntries).findImported? lidToCover.legacy.qualified = some lidToTop ∧
      hingeToHinge ∈ (Mapping.ofLines hingeEntries).flat ∧
      (Mapping.ofLines hingeEntries).findImported? hingeToHinge.legacy.qualified = none := by
  decide +kernel

end NameMigration
