import Mathlib
import NameMigration.Proofs.UnitContext
import NameMigration.Unit.Migration

/-!
One more entry in a mapping file. A unit sees a mapping through its imports and its mentions only, so an
entry for a class that it neither imports nor mentions changes nothing in it: not the context, nor the
order of the candidates, nor any line.
-/

namespace NameMigration

variable {mapping : Mapping} {rename : Rename} {entry space qualifier name path : Text}
  {lines : List Text}

/-! ### What a unit sees of a mapping -/

/-- Two mappings give a unit the same context if its imports name the same renames in both and if the
renames that it mentions are the same in both. -/
theorem UnitContext.ofLines_congr {first second : Mapping}
    (imports : ∀ statement ∈ lines.flatMap importsOn, statement.isFrom space = true →
      first.importedBy statement = second.importedBy statement)
    (mentioned : ∀ line ∈ bodyLines lines, ∀ rename, rename.isMentionedOn line = true →
      (rename ∈ first.flat ↔ rename ∈ second.flat)) :
    ofLines first space lines = ofLines second space lines := by
  have sameImported : ((lines.flatMap importsOn).filter (·.isFrom space)).flatMap first.importedBy =
      ((lines.flatMap importsOn).filter (·.isFrom space)).flatMap second.importedBy := by
    apply List.flatMap_congr
    intro statement member
    obtain ⟨inLines, isFrom⟩ := List.mem_filter.mp member
    exact imports statement inLines isFrom
  -- Both lists of mentioned renames are in the same strict order, so their members are enough.
  have sameMentioned :
      (first.packages.flatMap fun qualifier => first.mentionedIn qualifier (bodyLines lines)) =
        second.packages.flatMap fun qualifier => second.mentionedIn qualifier (bodyLines lines) := by
    apply eq_of_pairwise_of_mem_iff (fun _ _ before => Rename.PrecedesIn.asymm before)
      (first.mentioned_pairwise _) (second.mentioned_pairwise _)
    intro rename
    simp only [List.mem_flatMap, Mapping.mem_mentionedIn_iff]
    constructor
    · rintro ⟨_, _, inFlat, _, line, inBody, here⟩
      have inSecond := (mentioned line inBody rename here).mp inFlat
      exact ⟨_, Mapping.mem_packages_of_mem_flat inSecond, inSecond, rfl, line, inBody, here⟩
    · rintro ⟨_, _, inFlat, _, line, inBody, here⟩
      have inFirst := (mentioned line inBody rename here).mpr inFlat
      exact ⟨_, Mapping.mem_packages_of_mem_flat inFirst, inFirst, rfl, line, inBody, here⟩
  unfold bodyLines at sameMentioned
  simp only [ofLines, List.partition_eq_filter_filter, sameImported, sameMentioned]

/-- Apart from the context, a mapping is used for its nested renames. -/
theorem Migration.migrateLines_congr {first second : Mapping} {rules : Rules}
    (sameContext : UnitContext.ofLines first rules.legacyNamespace lines =
      UnitContext.ofLines second rules.legacyNamespace lines)
    (sameNested : first.nested = second.nested) :
    migrateLines ⟨first, rules⟩ lines = migrateLines ⟨second, rules⟩ lines := by
  simp only [migrateLines, withContext, context, Mapping.nestedGroups, sameContext, sameNested]

/-! ### One more entry -/

namespace Mapping

structure IsFreshEntry (mapping : Mapping) (entry : Text) (rename : Rename) : Prop where
  accepted : MappingLine.acceptedEntry? entry = some rename
  flat : rename.isNested = false
  fresh : mapping.find? rename.key = none

namespace IsFreshEntry

theorem find?_addLine (isFresh : mapping.IsFreshEntry entry rename) (name : Text) :
    (mapping.addLine entry).find? name =
      if rename.key = name then some rename else mapping.find? name := by
  rw [Mapping.find?_addLine, isFresh.accepted]

theorem mem_addLine_iff (isFresh : mapping.IsFreshEntry entry rename) {other : Rename} :
    other ∈ (mapping.addLine entry).renames ↔ other = rename ∨ other ∈ mapping.renames := by
  have byName (mapping : Mapping) : other ∈ mapping.renames ↔ mapping.find? other.key = some other := by
    simp [find?_eq_some_iff]
  rw [byName, byName, isFresh.find?_addLine]
  by_cases same : rename.key = other.key
  · rw [if_pos same, ← same, isFresh.fresh, Option.some.injEq]
    simp [eq_comm]
  · have different : other ≠ rename := by
      rintro rfl
      exact same rfl
    simp [same, different]

theorem mem_flat_addLine_iff (isFresh : mapping.IsFreshEntry entry rename) {other : Rename} :
    other ∈ (mapping.addLine entry).flat ↔ other = rename ∨ other ∈ mapping.flat := by
  simp only [Mapping.flat, List.mem_filter, isFresh.mem_addLine_iff, or_and_right, Bool.not_eq_true']
  constructor
  · rintro (⟨same, _⟩ | old)
    · exact Or.inl same
    · exact Or.inr old
  · rintro (same | old)
    · exact Or.inl ⟨same, same ▸ isFresh.flat⟩
    · exact Or.inr old

theorem nested_addLine (isFresh : mapping.IsFreshEntry entry rename) :
    (mapping.addLine entry).nested = mapping.nested := by
  have ordered : Rename.Ordered (mapping.addLine entry).nested := (mapping.addLine entry).ordered.filter _
  apply ordered.eq_of_mem_iff (mapping.ordered.filter _)
  intro other
  simp only [nested, List.mem_filter, isFresh.mem_addLine_iff]
  constructor
  · rintro ⟨same | old, isNested⟩
    · rw [same, isFresh.flat] at isNested
      exact absurd isNested (by decide)
    · exact ⟨old, isNested⟩
  · rintro ⟨old, isNested⟩
    exact ⟨Or.inr old, isNested⟩

theorem inPackage_addLine (isFresh : mapping.IsFreshEntry entry rename)
    (different : qualifier ≠ rename.legacy.qualifier) :
    (mapping.addLine entry).inPackage qualifier = mapping.inPackage qualifier := by
  apply ((mapping.addLine entry).inPackage_ordered qualifier).eq_of_mem_iff
    (mapping.inPackage_ordered qualifier)
  intro other
  rw [mem_inPackage_iff, mem_inPackage_iff, isFresh.mem_flat_addLine_iff]
  constructor
  · rintro ⟨same | old, ofPackage⟩
    · exact absurd (same ▸ ofPackage).symm different
    · exact ⟨old, ofPackage⟩
  · rintro ⟨old, ofPackage⟩
    exact ⟨Or.inr old, ofPackage⟩

theorem findNested?_addLine (isFresh : mapping.IsFreshEntry entry rename) (name : Text) :
    (mapping.addLine entry).findNested? name = mapping.findNested? name := by
  rw [findNested?, findNested?, isFresh.find?_addLine]
  by_cases same : rename.key = name
  · rw [if_pos same, ← same, isFresh.fresh, Option.filter_some, isFresh.flat]
    rfl
  · rw [if_neg same]

theorem findImported?_addLine (isFresh : mapping.IsFreshEntry entry rename)
    (different : path.segments.getLast? ≠ some rename.key) :
    (mapping.addLine entry).findImported? path = mapping.findImported? path := by
  rw [List.getLast?_eq_head?_reverse] at different
  simp only [findImported?, isFresh.findNested?_addLine]
  cases parts : path.segments.reverse with
  | nil => rfl
  | cons last others =>
      have otherName : rename.key ≠ last := by
        rintro rfl
        exact different (by rw [parts, List.head?_cons])
      simp only [isFresh.find?_addLine, if_neg otherName]

end IsFreshEntry

end Mapping

/-- Whether nothing in a unit leads to the class: no import names it, none takes in its whole package,
and no line mentions it. -/
structure Rename.IsUnrelatedTo (rename : Rename) (space : Text) (lines : List Text) : Prop where
  notImported : ∀ statement ∈ lines.flatMap importsOn, statement.isFrom space = true →
    statement.isWildcard = false → statement.path.segments.getLast? ≠ some rename.key
  notTakenIn : ∀ statement ∈ lines.flatMap importsOn, statement.isFrom space = true →
    statement.isWildcard = true → statement.path ++ ['.'] ≠ rename.legacy.qualifier
  notMentioned : ∀ line ∈ bodyLines lines, rename.isMentionedOn line = false

theorem Mapping.IsFreshEntry.context_addLine (isFresh : mapping.IsFreshEntry entry rename)
    (unrelated : rename.IsUnrelatedTo space lines) :
    UnitContext.ofLines (mapping.addLine entry) space lines =
      UnitContext.ofLines mapping space lines := by
  apply UnitContext.ofLines_congr
  · intro statement inLines isFrom
    unfold Mapping.importedBy
    cases isWildcard : statement.isWildcard with
    | true => simp [isFresh.inPackage_addLine (unrelated.notTakenIn statement inLines isFrom isWildcard)]
    | false =>
        simp [isFresh.findImported?_addLine
          (unrelated.notImported statement inLines isFrom isWildcard)]
  · intro line inBody other mentioned
    rw [isFresh.mem_flat_addLine_iff]
    refine or_iff_right ?_
    rintro rfl
    rw [unrelated.notMentioned line inBody] at mentioned
    exact absurd mentioned (by decide)

/-- An entry for a new name behind the others changes nothing in a unit that has nothing to do with the
class: the context, the lines and the counts are the same as without it. -/
theorem migrateLines_unrelatedEntry (entries : List Text) (entry : Text) (rename : Rename)
    (isFresh : (Mapping.ofLines entries).IsFreshEntry entry rename) (rules : Rules) (lines : List Text)
    (unrelated : rename.IsUnrelatedTo rules.legacyNamespace lines) :
    let shorter : Migration := ⟨.ofLines entries, rules⟩
    let longer : Migration := ⟨.ofLines (entries ++ [entry]), rules⟩
    longer.context lines = shorter.context lines ∧
      longer.migrateLines lines = shorter.migrateLines lines := by
  intro shorter longer
  have sameContext : longer.context lines = shorter.context lines := by
    simp only [Migration.context, longer, shorter, Mapping.ofLines_concat,
      isFresh.context_addLine unrelated]
  have sameNested : longer.mapping.nested = shorter.mapping.nested := by
    simp only [longer, shorter, Mapping.ofLines_concat, isFresh.nested_addLine]
  exact ⟨sameContext, Migration.migrateLines_congr sameContext sameNested⟩

def doorEntries : List Text :=
  ["p/q/Door p/q/Gate".toList, "p/q/Door$Lock p/q/Gate$Latch".toList]

def hingeEntry : Text :=
  "p/q/Door$Hinge r/Pivot".toList

def hingeRename : Rename :=
  ⟨⟨"p.q.".toList, "Door.Hinge".toList⟩, ⟨"r.".toList, "Pivot".toList⟩⟩

def doorRules : Rules :=
  ⟨"p".toList, ["p.lib".toList], .builtin, .legacy⟩

def doorLines : List Text :=
  ["import p.q.Door; import p.q.Door.Hinge; import p.r.*;".toList,
    "Door.Lock lock = new Door.Hinge(Door.class);".toList]

theorem migrateLines_doorLines :
    (Mapping.ofLines doorEntries).IsFreshEntry hingeEntry hingeRename ∧
      hingeRename.IsUnrelatedTo "p".toList doorLines ∧
      Migration.migrateLines ⟨.ofLines (doorEntries ++ [hingeEntry]), doorRules⟩ doorLines =
        (["p.q.Gate.Latch lock = new p.q.Gate.Hinge(p.q.Gate.class);".toList],
          { flatReplacements := 3, nestedReplacements := 1, droppedImports := 3,
            changedLines := 1 }) := by
  have isFresh : (Mapping.ofLines doorEntries).IsFreshEntry hingeEntry hingeRename :=
    ⟨by decide +kernel, by decide, by decide +kernel⟩
  have unrelated : hingeRename.IsUnrelatedTo "p".toList doorLines :=
    ⟨by decide +kernel, by decide +kernel, by decide +kernel⟩
  have without : Migration.migrateLines ⟨.ofLines doorEntries, doorRules⟩ doorLines =
      (["p.q.Gate.Latch lock = new p.q.Gate.Hinge(p.q.Gate.class);".toList],
        { flatReplacements := 3, nestedReplacements := 1, droppedImports := 3,
          changedLines := 1 }) := by cbv
  exact ⟨isFresh, unrelated,
    (migrateLines_unrelatedEntry doorEntries hingeEntry hingeRename isFresh doorRules doorLines
      unrelated).2.trans without⟩

end NameMigration
