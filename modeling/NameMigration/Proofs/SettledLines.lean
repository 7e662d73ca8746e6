import NameMigration.Proofs.ImportAccounting
import NameMigration.Proofs.PlainMapping

/-!
The lines of a unit after a migration with a plain mapping. No import of the legacy namespace is left,
no other line has become an import line, and a class that gets another name stands nowhere behind its
package.
-/

namespace NameMigration

open Text (isAlphabetic isNameChar isBlank IsLetterRun qualifierOf qualifierPieces)

variable {packages lines : List Text} {line changed : Text} {candidate : Candidate}
  {context : UnitContext} {rules : Rules} {migration : Migration}

theorem IsImportFront.isPrefix_of_append (shared : ArePackages packages) {front left rest : Text}
    (isFront : IsImportFront front) (starts : front <+: left ++ (qualifierOf packages ++ rest)) :
    front <+: left := by
  obtain ⟨parts, dotted⟩ := exists_qualifierOf_eq_append_dot shared.ne_nil
  rcases List.prefix_or_prefix_of_prefix starts (List.prefix_append left _) with whole | longer
  · exact whole
  · obtain ⟨more, rfl⟩ := longer
    have inQualifier : more <+: parts ++ ('.' :: rest) := by
      simpa [dotted, List.prefix_append_right_inj] using starts
    have inParts : more ⊆ parts := by
      rcases List.prefix_or_prefix_of_prefix inQualifier (List.prefix_append parts _) with
        inside | ⟨extra, rfl⟩
      · exact inside.subset
      · rw [List.prefix_append_right_inj] at inQualifier
        cases extra with
        | nil => simp
        | cons c others =>
            have isDot := (List.cons_prefix_cons.mp inQualifier).1
            exact absurd isFront.undotted (by simp [isDot])
    rcases List.eq_nil_or_concat more with rfl | ⟨others, last, rfl⟩
    · simp
    · -- The last character would be a blank among the packages.
      obtain ⟨indent, c, spelled, _, blank⟩ := isFront.spelled
      have lastBlank : last = c := by
        have ends := congrArg List.getLast? spelled
        simpa using ends
      have member : last ∈ qualifierOf packages := by
        rw [dotted]
        exact List.mem_append_left _ (inParts (by simp))
      have nameChar := Text.isNameChar_of_mem_qualifierOf shared.areRuns last member
      obtain ⟨-, -, -, -, -, noNameChar⟩ := Text.isBlank_cases blank
      rw [lastBlank, noNameChar] at nameChar
      exact absurd nameChar (by decide)

theorem Candidate.Splices.isImportLine_eq_false (shared : ArePackages packages)
    (plain : candidate.IsPlain packages) (legacyStyle : rules.style = .legacy)
    (splices : candidate.Splices context rules line changed)
    (noImport : isImportLine line = false) : isImportLine changed = false := by
  cases splices with
  | @intro left right accepted =>
      have qualified : ∃ first, first <+: left.reverse ∧
          ∃ rest, (candidate.rename.placeBehind rules.style left).reverse ++ right =
            first ++ (qualifierOf packages ++ rest) := by
        rw [legacyStyle, plain.rename.placeBehind, packagesAt]
        split
        · rename_i follows
          obtain ⟨more, reversed⟩ := List.isPrefixOf_iff_prefix.mp follows
          have leftEq : left.reverse = more.reverse ++ qualifierOf packages := by
            rw [← reversed, List.reverse_append, List.reverse_reverse]
          exact ⟨more.reverse, ⟨_, leftEq.symm⟩, candidate.rename.target.name ++ right,
            by simp [leftEq]⟩
        · exact ⟨left.reverse, List.prefix_rfl, candidate.rename.target.name ++ right, by simp⟩
      obtain ⟨first, inLeft, rest, changedEq⟩ := qualified
      apply Bool.eq_false_iff.mpr
      intro isLine
      obtain ⟨front, isFront, starts⟩ := isImportLine_iff.mp isLine
      rw [changedEq] at starts
      have before := (isFront.isPrefix_of_append shared starts).trans inLeft
      have stillLine : isImportLine (left.reverse ++ (candidate.token ++ right)) = true :=
        isImportLine_iff.mpr ⟨front, isFront, before.trans (List.prefix_append _ _)⟩
      rw [stillLine] at noImport
      exact absurd noImport (by decide)

/-- What a migration leaves of a line that is no import line: a line that is none either, where no
class that gets another name stands behind its package. -/
structure Migration.IsSettled (packages : List Text) (migration : Migration) (line : Text) : Prop where
  noImport : isImportLine line = false
  notStands : ∀ rename ∈ migration.mapping.flat, rename.target.name ≠ rename.key →
    ∀ before after, ¬Text.Stands packages rename.key before after line

namespace Migration.IsPlain

theorem apply_eq (plain : migration.IsPlain packages) (noImport : isImportLine line = false) :
    ((migration.withContext context).apply line).1 =
      (applyCandidates context.candidates context migration.rules line).1 := by
  have noGroups : migration.mapping.nestedGroups migration.rules.style = [] := by
    simp [Mapping.nestedGroups, plain.noNested, Text.ordered]
  simp [LineMigration.apply, noImport, withContext, noGroups, plain.noPatches, NestedGroup.applyAll,
    inSequence, PatchTable.apply]

theorem fresh_candidate (plain : migration.IsPlain packages) {rename : Rename}
    (member : rename ∈ migration.mapping.flat) (renamed : rename.target.name ≠ rename.key) :
    ∀ candidate ∈ (migration.context lines).candidates,
      candidate.rename.target.name ≠ rename.key :=
  fun _ inCandidates same => renamed (plain.fresh _ (plain.mem_flat inCandidates) rename member same)

theorem isImportLine_applyCandidates (plain : migration.IsPlain packages)
    (noImport : isImportLine line = false) :
    isImportLine (applyCandidates (migration.context lines).candidates (migration.context lines)
      migration.rules line).1 = false := by
  refine applyCandidates_preserves (motive := fun text => isImportLine text = false) ?_ noImport
  intro candidate member before after splices
  exact splices.isImportLine_eq_false plain.shared (plain.candidate member) plain.legacyStyle

theorem isSettled_applyCandidates (plain : migration.IsPlain packages) (inLines : line ∈ lines)
    (noImport : isImportLine line = false) (clean : Text.HasCleanPackages packages line) :
    migration.IsSettled packages (applyCandidates (migration.context lines).candidates
      (migration.context lines) migration.rules line).1 where
  noImport := plain.isImportLine_applyCandidates noImport
  notStands := by
    intro rename member renamed
    have fresh : ∀ candidate ∈ (migration.context lines).candidates,
        candidate.rename.target.name ≠ rename.key := plain.fresh_candidate member renamed
    have ofPlain := plain.plain rename member
    by_cases inContext : rename ∈ (migration.context lines).explicit ∨
        rename ∈ (migration.context lines).implicit
    · obtain ⟨own, isCandidate, isOwn⟩ := plain.exists_candidate member inContext
      exact not_stands_applyCandidates plain.shared plain.permits plain.legacyStyle
        (fun _ => plain.candidate) fresh isCandidate (congrArg Rename.key isOwn) clean.isCleanOf
    · have absent : ∀ before after, ¬Text.Stands packages rename.key before after line := by
        intro before after stands
        have follower := clean.mem_followers plain.shared stands.line_eq
        rw [← ofPlain.qualifier] at follower
        exact inContext (UnitContext.mem_of_follower member inLines (importsOn_eq_nil noImport) follower)
      exact applyCandidates_not_stands plain.shared plain.legacyStyle (fun _ => plain.candidate)
        ofPlain.key_run.isLetterRun ofPlain.key_notMem fresh absent

theorem of_mem_migrateLines (plain : migration.IsPlain packages)
    (member : line ∈ (migration.migrateLines lines).1) :
    (isImportLine line = true ∧
        importsFromElsewhere migration.rules.legacyNamespace line = importsOn line) ∨
      ∃ source ∈ lines, isImportLine source = false ∧
        line = (applyCandidates (migration.context lines).candidates (migration.context lines)
          migration.rules source).1 := by
  rw [migrateLines_eq] at member
  obtain ⟨_, ofSource, inOutcome⟩ := List.mem_flatten.mp member
  obtain ⟨source, inLines, rfl⟩ := List.mem_map.mp ofSource
  cases isLine : isImportLine source with
  | true => exact Or.inl ((LineMigration.outcome_accountedAs _ source).keptAll_of_mem isLine inOutcome)
  | false =>
      have noImports : importsOn source = [] := importsOn_eq_nil isLine
      rw [LineMigration.outcome_of_keptAll _ (by simp [importsFromElsewhere, noImports]),
        plain.apply_eq isLine, List.mem_singleton] at inOutcome
      exact Or.inr ⟨source, inLines, isLine, inOutcome⟩

end Migration.IsPlain

end NameMigration
