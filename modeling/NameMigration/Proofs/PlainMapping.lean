import NameMigration.Proofs.OrderedTexts
import NameMigration.Proofs.QualifiedNames
import NameMigration.Unit.Migration

/-!
Mappings whose classes share one package and become no part of another class, without patches. What
a unit mentions behind the package is among its renames, so that it has a candidate.
-/

namespace NameMigration

open Text (isAlphabetic isNameChar IsLetterRun qualifierOf)

namespace Text

theorem mem_followers {needle text left right : Text} (nonempty : needle ≠ [])
    (apart : ∀ left right, text = left ++ (needle ++ right) → ∀ c ∈ left.getLast?, c ∉ needle)
    (here : text = left ++ (needle ++ right)) : right ∈ followers needle text := by
  induction text using followers.induct needle generalizing left with
  | case1 empty => exact absurd empty nonempty
  | case2 _ => simp [nonempty] at here
  | case3 c rest notFound ih =>
      have apartBehind : ∀ first last, rest = first ++ (needle ++ last) →
          ∀ d ∈ first.getLast?, d ∉ needle := by
        intro first last split d isLast
        exact apart (c :: first) last (by simp [split]) d (by simp_all [List.getLast?_cons])
      cases left with
      | nil => simp [here] at notFound
      | cons first others =>
          rw [List.cons_append, List.cons.injEq] at here
          rw [followers]
          split
          · exact ih apartBehind here.2
          · rename_i found
            exact absurd (notFound.symm.trans found) (by simp)
  | case4 c rest behind found empty ih => exact absurd empty nonempty
  | case5 c rest behind found _ shorter ih =>
      have front := after?_eq_some_iff.mp found
      have apartBehind : ∀ first last, behind = first ++ (needle ++ last) →
          ∀ d ∈ first.getLast?, d ∉ needle := by
        intro first last split d isLast
        exact apart (needle ++ first) last (by simp [front, split]) d (by simp_all)
      -- The occurrence is the one found or lies behind it: `apart` leaves no way to overlap.
      have member : right = behind ∨ right ∈ followers needle behind := by
        rcases List.append_eq_append_iff.mp (front.symm.trans here) with
          ⟨more, leftSplit, tail⟩ | ⟨more, needleSplit, tail⟩
        · exact Or.inr (ih apartBehind tail)
        · cases List.eq_nil_or_concat left with
          | inl empty =>
              subst empty
              rw [List.nil_append] at needleSplit here
              exact Or.inl (List.append_cancel_left (front.symm.trans here)).symm
          | inr ends =>
              obtain ⟨others, last, split⟩ := ends
              have inNeedle : last ∈ needle := by simp [needleSplit, split]
              exact absurd inNeedle (apart left right here last (by simp [split]))
      rw [followers]
      split
      · rename_i notFound
        exact absurd (notFound.symm.trans found) (by simp)
      · rename_i other foundAgain
        rw [found, Option.some.injEq] at foundAgain
        subst other
        rw [dif_neg nonempty]
        exact List.mem_cons.mpr member

/-- Where the packages stand in the line, nothing in front of them goes on to them. -/
def HasCleanPackages (packages : List Text) (line : Text) : Prop :=
  ∀ left right, line = left ++ (qualifierOf packages ++ right) →
    ∀ c ∈ left.getLast?, isAlphabetic c = false ∧ isNameChar c = false

variable {packages : List Text} {name line : Text}

theorem hasCleanPackages_iff : HasCleanPackages packages line ↔
    ∀ left right, line = left ++ (qualifierOf packages ++ right) →
      left.getLast?.all fun c => !isAlphabetic c && !isNameChar c := by
  simp [HasCleanPackages, Option.all_eq_true]

instance (packages : List Text) (line : Text) : Decidable (HasCleanPackages packages line) :=
  decidable_of_iff _ hasCleanPackages_iff.symm

theorem HasCleanPackages.isCleanOf (clean : HasCleanPackages packages line) :
    IsCleanOf packages name line :=
  fun _ _ stands c isLast => (clean _ _ stands.line_eq c isLast).2

theorem HasCleanPackages.mem_followers (shared : ArePackages packages)
    (clean : HasCleanPackages packages line) {left right : Text}
    (here : line = left ++ (qualifierOf packages ++ right)) :
    right ∈ followers (qualifierOf packages) line := by
  obtain ⟨front, dotted⟩ := exists_qualifierOf_eq_append_dot shared.ne_nil
  refine Text.mem_followers (by simp [dotted]) ?_ here
  intro first last split c isLast member
  have nameChar := isNameChar_of_mem_qualifierOf shared.areRuns c member
  rw [(clean first last split c isLast).2] at nameChar
  exact absurd nameChar (by decide)

end Text

/-- A migration without patches whose classes share one package, which is not protected, and become
no part of another class. A new name that is also a legacy name belongs to a class that keeps its
name. -/
structure Migration.IsPlain (packages : List Text) (migration : Migration) : Prop where
  shared : ArePackages packages
  legacyStyle : migration.rules.style = .legacy
  noNested : migration.mapping.nested = []
  noPatches : migration.rules.patches = []
  plain : ∀ rename ∈ migration.mapping.flat, rename.IsPlain packages
  fresh : ∀ first ∈ migration.mapping.flat, ∀ second ∈ migration.mapping.flat,
    first.target.name = second.key → second.target.name = second.key
  unprotected : ∀ root ∈ migration.rules.protectedRoots, root ≠ [] →
    ¬root.segments <+: (qualifierOf packages).segments

instance (packages : List Text) (migration : Migration) : Decidable (migration.IsPlain packages) :=
  decidable_of_iff (ArePackages packages ∧ migration.rules.style = .legacy ∧
      migration.mapping.nested = [] ∧ migration.rules.patches = [] ∧
      (∀ rename ∈ migration.mapping.flat, rename.IsPlain packages) ∧
      (∀ first ∈ migration.mapping.flat, ∀ second ∈ migration.mapping.flat,
        first.target.name = second.key → second.target.name = second.key) ∧
      ∀ root ∈ migration.rules.protectedRoots, root ≠ [] →
        ¬root.segments <+: (qualifierOf packages).segments)
    ⟨fun ⟨shared, legacyStyle, noNested, noPatches, plain, fresh, unprotected⟩ =>
        ⟨shared, legacyStyle, noNested, noPatches, plain, fresh, unprotected⟩,
      fun plain => ⟨plain.shared, plain.legacyStyle, plain.noNested, plain.noPatches, plain.plain,
        plain.fresh, plain.unprotected⟩⟩

variable {packages lines : List Text} {mapping : Mapping} {space : Text} {migration : Migration}
  {rename : Rename}

theorem isProtected_eq_false {roots : List Text} {qualifier : Text}
    (apart : ∀ root ∈ roots, root ≠ [] → ¬root.segments <+: qualifier.segments) :
    isProtected roots qualifier = false := by
  apply Bool.eq_false_iff.mpr
  intro within
  obtain ⟨root, member, nonempty, inside⟩ := isProtected_iff.mp within
  apply apart root member nonempty
  rcases inNamespace_iff.mp inside with rfl | ⟨rest, rfl⟩
  · exact List.prefix_rfl
  · rw [Text.segments_append_dot]
    exact List.prefix_append _ _

theorem Mapping.mem_flat_of_mem_renames (noNested : mapping.nested = [])
    (member : rename ∈ mapping.renames) : rename ∈ mapping.flat := by
  have unnested := List.filter_eq_nil_iff.mp noNested rename member
  simpa [Mapping.flat, member] using unnested

namespace UnitContext

theorem dot_notMem_foreign : ∀ name ∈ (ofLines mapping space lines).foreign, '.' ∉ name := by
  intro name member
  simp only [ofLines, Text.mem_ordered, List.mem_filterMap] at member
  obtain ⟨statement, _, isName⟩ := member
  unfold ImportStatement.simpleName? at isName
  split at isName
  · exact absurd isName (by simp)
  · rw [Option.filter_eq_some_iff] at isName
    exact Text.dot_notMem_of_mem_segments (List.mem_of_getLast? isName.1)

theorem mem_of_follower {line right : Text} (member : rename ∈ mapping.flat) (inLines : line ∈ lines)
    (noImport : importsOn line = [])
    (follows : rename.key ++ right ∈ Text.followers rename.legacy.qualifier line) :
    rename ∈ (ofLines mapping space lines).explicit ∨
      rename ∈ (ofLines mapping space lines).implicit := by
  have mentioned : rename ∈ mapping.mentionedIn rename.legacy.qualifier
      (lines.filter fun line => (importsOn line).isEmpty) := by
    simp only [Mapping.mentionedIn, List.mem_eraseDups, List.mem_flatMap, List.mem_filter]
    refine ⟨line, ⟨inLines, by simp [noImport]⟩, by simp [Mapping.inPackage, member], ?_⟩
    exact List.any_eq_true.mpr ⟨_, follows, by simp⟩
  have inPackages : rename.legacy.qualifier ∈ mapping.packages :=
    Text.mem_ordered.mpr (List.mem_map.mpr ⟨rename, member, rfl⟩)
  by_cases imported : rename ∈ (ofLines mapping space lines).explicit
  · exact Or.inl imported
  · right
    simp only [ofLines, List.mem_filter, List.mem_flatMap] at imported ⊢
    refine ⟨⟨_, inPackages, mentioned⟩, ?_⟩
    simpa using imported

end UnitContext

theorem Rename.IsPlain.searchToken (shared : ArePackages packages) (plain : rename.IsPlain packages)
    (isImported : Bool) : rename.searchToken isImported =
      qualifierOf (if isImported then [] else packages) ++ rename.key := by
  have keyRun := plain.key_run.isLetterRun
  cases isImported with
  | true => exact Rename.searchToken_of_simple (by rw [keyRun.segments]; rfl)
  | false =>
      have parts : rename.legacy.qualified.segments = packages ++ [rename.key] := by
        rw [ClassName.qualified, plain.qualifier,
          Text.segments_qualifierOf_append packages shared.letterRuns]
        exact congrArg (packages ++ ·) keyRun.segments
      simp only [Rename.searchToken, Bool.false_eq_true, if_false]
      split
      · rename_i two
        have length := congrArg List.length (parts.symm.trans two)
        have deep := shared.deep
        simp only [List.length_append, List.length_cons, List.length_nil] at length
        omega
      · exact congrArg (· ++ rename.key) plain.qualifier

namespace Migration.IsPlain

theorem permits (plain : migration.IsPlain packages) :
    (migration.context lines).Permits packages migration.rules where
  unprotected := isProtected_eq_false plain.unprotected
  undotted := UnitContext.dot_notMem_foreign

theorem mem_flat (plain : migration.IsPlain packages) {candidate : Candidate}
    (member : candidate ∈ (migration.context lines).candidates) :
    candidate.rename ∈ migration.mapping.flat :=
  Mapping.mem_flat_of_mem_renames plain.noNested
    (UnitContext.rename_mem_of_mem_candidates_ofLines member)

theorem candidate (plain : migration.IsPlain packages) {candidate : Candidate}
    (member : candidate ∈ (migration.context lines).candidates) : candidate.IsPlain packages where
  rename := plain.plain _ (plain.mem_flat member)
  token := by
    obtain ⟨isImported, _, token⟩ := UnitContext.mem_candidates_iff.mp member
    rw [(plain.plain _ (plain.mem_flat member)).searchToken plain.shared isImported] at token
    refine ⟨_, ?_, token⟩
    cases isImported with
    | true => exact Or.inl rfl
    | false => exact Or.inr rfl

theorem exists_candidate (plain : migration.IsPlain packages) (member : rename ∈ migration.mapping.flat)
    (inContext : rename ∈ (migration.context lines).explicit ∨
      rename ∈ (migration.context lines).implicit) :
    ∃ own ∈ (migration.context lines).candidates, own.rename = rename := by
  have isRename : ∃ isImported, (rename, isImported) ∈ (migration.context lines).renames := by
    rcases inContext with imported | mentioned
    · exact ⟨true, UnitContext.mem_renames_iff.mpr (Or.inl ⟨rfl, imported⟩)⟩
    · exact ⟨false, UnitContext.mem_renames_iff.mpr (Or.inr ⟨rfl, mentioned⟩)⟩
  obtain ⟨isImported, inRenames⟩ := isRename
  have nonempty : rename.searchToken isImported ≠ [] := by
    rw [(plain.plain rename member).searchToken plain.shared]
    simp [(plain.plain rename member).key_run.1]
  exact ⟨⟨rename, _, nonempty⟩, UnitContext.mem_candidates_iff.mpr ⟨isImported, inRenames, rfl⟩, rfl⟩

end Migration.IsPlain

end NameMigration
