import NameMigration.Proofs.ImportAccounting
import NameMigration.Proofs.PassedText
import NameMigration.Proofs.OwnName
import NameMigration.Proofs.QualifiedNames
import NameMigration.Proofs.UnitContext

/-!
A class inside an imported one. The flat pass puts the new name of the outer class in place of the old
one, with its package, and leaves the inner class its old name. Just this is what the nested pass looks
for, so the two passes together give the reference its whole new name.
-/

namespace NameMigration

open Text (isAlphabetic isPathChar IsAsciiRun IsLetterRun qualifierOf)

structure NestedClass where
  packages : List Text
  targets : List Text
  outer : Text
  inner : Text
  newOuter : Text
  newInner : Text
  packages_ne_nil : packages ≠ []
  targets_ne_nil : targets ≠ []
  areRuns : ∀ part ∈ packages ++ targets ++ [outer, inner, newOuter, newInner], IsAsciiRun part

namespace NestedClass

variable (nestedClass : NestedClass)

def outerRename : Rename :=
  ⟨⟨qualifierOf nestedClass.packages, nestedClass.outer⟩,
    ⟨qualifierOf nestedClass.targets, nestedClass.newOuter⟩⟩

def innerRename : Rename :=
  ⟨⟨qualifierOf nestedClass.packages, nestedClass.outer ++ '.' :: nestedClass.inner⟩,
    ⟨qualifierOf nestedClass.targets, nestedClass.newOuter ++ '.' :: nestedClass.newInner⟩⟩

def path : Text :=
  qualifierOf nestedClass.packages ++ nestedClass.outer

def importLine : Text :=
  ImportStatement.importKeyword ++ ' ' :: (nestedClass.path ++ [';'])

def qualifier (style : QualifierStyle) : Text :=
  match style with
  | .legacy => qualifierOf nestedClass.packages
  | .mapped => qualifierOf nestedClass.targets

def reference : Text :=
  nestedClass.outer ++ '.' :: nestedClass.inner

def halfRenamed (style : QualifierStyle) : Text :=
  nestedClass.qualifier style ++ (nestedClass.newOuter ++ '.' :: nestedClass.inner)

def renamed (style : QualifierStyle) : Text :=
  nestedClass.qualifier style ++ (nestedClass.newOuter ++ '.' :: nestedClass.newInner)

/-- What stands around a reference on a line: the outer class occurs nowhere else, no half renamed
reference is there, and no patch applies to the result. -/
structure IsUsage (rules : Rules) (before after : Text) : Prop where
  noImport : isImportLine (before ++ (nestedClass.reference ++ after)) = false
  before_apart : ∀ c ∈ before.getLast?, isAlphabetic c = false ∧ c ≠ '.'
  after_apart : ∀ c ∈ after.head?, isAlphabetic c = false
  once : ∀ left right, before ++ (nestedClass.reference ++ after) =
    left ++ (nestedClass.outer ++ right) → left = before
  notHalfRenamed_before : ¬nestedClass.halfRenamed rules.style <:+: before
  notHalfRenamed_after : ¬nestedClass.halfRenamed rules.style <:+: after
  unpatched : ∀ patch ∈ rules.patches,
    ¬patch.search <:+: before ++ (nestedClass.renamed rules.style ++ after)

variable {nestedClass}

theorem isUsage_iff {rules : Rules} {before after : Text} :
    nestedClass.IsUsage rules before after ↔
      isImportLine (before ++ (nestedClass.reference ++ after)) = false ∧
        (before.getLast?.all fun c => !isAlphabetic c && c != '.') ∧
        (after.head?.all fun c => !isAlphabetic c) ∧
        (∀ left right, before ++ (nestedClass.reference ++ after) =
          left ++ (nestedClass.outer ++ right) → left = before) ∧
        ¬nestedClass.halfRenamed rules.style <:+: before ∧
        ¬nestedClass.halfRenamed rules.style <:+: after ∧
        ∀ patch ∈ rules.patches,
          ¬patch.search <:+: before ++ (nestedClass.renamed rules.style ++ after) := by
  simp only [Option.all_eq_true, Bool.and_eq_true, Bool.not_eq_true', bne_iff_ne]
  constructor
  · intro usage
    exact ⟨usage.noImport, usage.before_apart, usage.after_apart, usage.once,
      usage.notHalfRenamed_before, usage.notHalfRenamed_after, usage.unpatched⟩
  · rintro ⟨noImport, beforeApart, afterApart, once, notBefore, notAfter, unpatched⟩
    exact ⟨noImport, beforeApart, afterApart, once, notBefore, notAfter, unpatched⟩

instance (nestedClass : NestedClass) (rules : Rules) (before after : Text) :
    Decidable (nestedClass.IsUsage rules before after) :=
  decidable_of_iff _ isUsage_iff.symm

theorem packages_areRuns : ∀ package ∈ nestedClass.packages, IsLetterRun package :=
  fun _ member => (nestedClass.areRuns _ (by simp [member])).isLetterRun

theorem targets_areRuns : ∀ target ∈ nestedClass.targets, IsLetterRun target :=
  fun _ member => (nestedClass.areRuns _ (by simp [member])).isLetterRun

theorem outer_isRun : IsLetterRun nestedClass.outer :=
  (nestedClass.areRuns _ (by simp)).isLetterRun

theorem inner_isRun : IsLetterRun nestedClass.inner :=
  (nestedClass.areRuns _ (by simp)).isLetterRun

theorem newOuter_isRun : IsLetterRun nestedClass.newOuter :=
  (nestedClass.areRuns _ (by simp)).isLetterRun

theorem newInner_isRun : IsLetterRun nestedClass.newInner :=
  (nestedClass.areRuns _ (by simp)).isLetterRun

/-! ### The import -/

theorem isPathChar_of_mem_path : ∀ c ∈ nestedClass.path, isPathChar c = true := by
  intro c member
  rcases List.mem_append.mp member with inPackages | inOuter
  · rcases Text.eq_dot_or_mem_of_mem_qualifierOf inPackages with rfl | ⟨package, here, inPackage⟩
    · decide
    · have isRun := nestedClass.areRuns package (by simp [here])
      exact Text.isPathChar_of_isAlpha (isRun.2 c inPackage)
  · have isRun := nestedClass.areRuns nestedClass.outer (by simp)
    exact Text.isPathChar_of_isAlpha (isRun.2 c inOuter)

def statement (nestedClass : NestedClass) : ImportStatement :=
  ⟨[' '], none, nestedClass.path, false, []⟩

theorem statement_isProper : nestedClass.statement.IsProper where
  gap_ne_nil := by simp [statement]
  gap_blank c member := by
    rw [List.mem_singleton.mp member]
    decide
  staticGap := by simp [statement]
  path_ne_nil := by simp [statement, path, outer_isRun.1]
  path_chars := isPathChar_of_mem_path
  endGap_blank := by simp [statement]

theorem importLine_eq : nestedClass.importLine = nestedClass.statement.text := by
  simp [importLine, statement, ImportStatement.text]

theorem importsOn_importLine : importsOn nestedClass.importLine = [nestedClass.statement] := by
  have proper : ∀ statement ∈ [nestedClass.statement], statement.IsProper := by
    intro statement member
    exact List.mem_singleton.mp member ▸ statement_isProper
  have noIndent : ∀ c ∈ ([] : Text), Text.isBlank c = true := by simp
  have read := importsOn_joined (List.cons_ne_nil _ _) noIndent proper
  rw [importLine_eq]
  simpa [Text.joinWith] using read

/-! ### The table -/

def IsWholeTable (nestedClass : NestedClass) (mapping : Mapping) : Prop :=
  ∀ rename, rename ∈ mapping.renames ↔
    rename = nestedClass.outerRename ∨ rename = nestedClass.innerRename

variable {mapping : Mapping}

theorem outerRename_isNested : nestedClass.outerRename.isNested = false := by
  simpa [Rename.isNested, outerRename] using newOuter_isRun.dot_notMem

theorem innerRename_isNested : nestedClass.innerRename.isNested = true := by
  simp [Rename.isNested, innerRename]

theorem IsWholeTable.mem_flat_iff (table : nestedClass.IsWholeTable mapping) {rename : Rename} :
    rename ∈ mapping.flat ↔ rename = nestedClass.outerRename := by
  rw [Mapping.flat, List.mem_filter, table]
  constructor
  · rintro ⟨rfl | rfl, simple⟩
    · rfl
    · simp [innerRename_isNested] at simple
  · rintro rfl
    simp [outerRename_isNested]

theorem IsWholeTable.mem_nested_iff (table : nestedClass.IsWholeTable mapping) {rename : Rename} :
    rename ∈ mapping.nested ↔ rename = nestedClass.innerRename := by
  rw [Mapping.nested, List.mem_filter, table]
  constructor
  · rintro ⟨rfl | rfl, isNested⟩
    · simp [outerRename_isNested] at isNested
    · rfl
  · rintro rfl
    simp [innerRename_isNested]

theorem IsWholeTable.nested_eq (table : nestedClass.IsWholeTable mapping) :
    mapping.nested = [nestedClass.innerRename] := by
  have distinct : mapping.nested.Nodup := mapping.ordered.nodup.filter _
  have perm := (List.perm_ext_iff_of_nodup distinct (List.nodup_singleton nestedClass.innerRename)).mpr
    fun rename => by rw [table.mem_nested_iff, List.mem_singleton]
  exact List.perm_singleton.mp perm

/-- The import finds the outer class: the inner one has its name in front. -/
theorem IsWholeTable.findImported?_path (table : nestedClass.IsWholeTable mapping)
    (different : nestedClass.inner ≠ nestedClass.outer) :
    mapping.findImported? nestedClass.path = some nestedClass.outerRename := by
  have outerFound : mapping.find? nestedClass.outer = some nestedClass.outerRename :=
    Mapping.find?_eq_some_iff.mpr ⟨(table _).mpr (Or.inl rfl), rfl⟩
  have noInner : ∀ front, mapping.findNested? (front ++ '.' :: nestedClass.outer) = none := by
    intro front
    rw [Option.eq_none_iff_forall_not_mem]
    intro rename found
    obtain ⟨inNested, sameKey⟩ := Mapping.findNested?_eq_some_iff.mp found
    rw [table.mem_nested_iff] at inNested
    subst inNested
    have lastParts := congrArg (fun name => (Text.segments name).getLast?) sameKey
    simp only [Rename.key, innerRename, Text.segments_append_dot, inner_isRun.segments,
      outer_isRun.segments, List.getLast?_append, List.getLast?_singleton, Option.some_or,
      Option.some.injEq] at lastParts
    exact different lastParts
  have parts : nestedClass.path.segments.reverse = nestedClass.outer :: nestedClass.packages.reverse := by
    rw [path, Text.segments_qualifierOf_append _ packages_areRuns, outer_isRun.segments]
    simp
  have notInner : (nestedClass.packages.reverse.head?.bind fun front =>
      mapping.findNested? (front ++ '.' :: nestedClass.outer)) = none :=
    Option.bind_eq_none_iff.mpr fun front _ => noInner front
  simp only [Mapping.findImported?, parts, if_neg outer_isRun.1, notInner, Option.none_or, outerFound]

/-! ### The context of the unit -/

variable {space : Text} {body : List Text}

theorem IsWholeTable.context_eq (table : nestedClass.IsWholeTable mapping)
    (different : nestedClass.inner ≠ nestedClass.outer)
    (inSpace : inNamespace space nestedClass.path = true)
    (noImports : ∀ line ∈ body, importsOn line = []) :
    UnitContext.ofLines mapping space (nestedClass.importLine :: body) =
      ⟨[nestedClass.outerRename], [], []⟩ := by
  have noStatements : body.flatMap importsOn = [] := List.flatMap_eq_nil_iff.mpr noImports
  have statements : (nestedClass.importLine :: body).flatMap importsOn = [nestedClass.statement] := by
    rw [List.flatMap_cons, importsOn_importLine, noStatements]
    rfl
  have isFrom : nestedClass.statement.isFrom space = true := inSpace
  have imported : mapping.importedBy nestedClass.statement = [nestedClass.outerRename] := by
    have found := table.findImported?_path different
    simp [Mapping.importedBy, statement, found]
  have explicit : (UnitContext.ofLines mapping space (nestedClass.importLine :: body)).explicit =
      [nestedClass.outerRename] := by
    simp [UnitContext.ofLines, statements, isFrom, imported,
      eraseDups_of_nodup (List.nodup_singleton _)]
  have implicit : (UnitContext.ofLines mapping space (nestedClass.importLine :: body)).implicit = [] := by
    rw [List.eq_nil_iff_forall_not_mem]
    intro rename member
    obtain ⟨inFlat, notImported, _⟩ := UnitContext.mem_implicit_ofLines_iff.mp member
    rw [explicit, table.mem_flat_iff.mp inFlat] at notImported
    exact notImported (List.mem_singleton_self _)
  have foreign : (UnitContext.ofLines mapping space (nestedClass.importLine :: body)).foreign = [] := by
    simp [UnitContext.ofLines, statements, isFrom, Text.ordered]
  rw [← explicit, ← implicit, ← foreign]

def candidate (nestedClass : NestedClass) : Candidate :=
  ⟨nestedClass.outerRename, nestedClass.outer, outer_isRun.1⟩

theorem candidates_eq :
    UnitContext.candidates ⟨[nestedClass.outerRename], [], []⟩ = [nestedClass.candidate] := by
  have token : nestedClass.outerRename.searchToken true = nestedClass.outer :=
    Rename.searchToken_of_simple (by simp [outerRename, Rename.key, outer_isRun.segments])
  have made : Candidate.ofRename? nestedClass.outerRename true = some nestedClass.candidate :=
    Candidate.ofRename?_eq_some_iff.mpr ⟨rfl, token.symm⟩
  simp [UnitContext.candidates, UnitContext.renames, made]

/-! ### The two passes -/

theorem letter_or_dot_of_mem_halfRenamed (style : QualifierStyle) :
    ∀ c ∈ nestedClass.halfRenamed style, isAlphabetic c = true ∨ c = '.' := by
  have ofQualifier : ∀ packages : List Text, (∀ package ∈ packages, IsLetterRun package) →
      ∀ c ∈ qualifierOf packages, isAlphabetic c = true ∨ c = '.' := by
    intro packages areRuns c member
    rcases Text.eq_dot_or_mem_of_mem_qualifierOf member with isDot | ⟨package, here, inPackage⟩
    · exact Or.inr isDot
    · exact Or.inl ((areRuns package here).2 c inPackage)
  intro c member
  rcases List.mem_append.mp member with inQualifier | inName
  · cases style with
    | legacy => exact ofQualifier _ packages_areRuns c inQualifier
    | mapped => exact ofQualifier _ targets_areRuns c inQualifier
  · rcases List.mem_append.mp inName with inOuter | inInner
    · exact Or.inl (newOuter_isRun.2 c inOuter)
    · rcases List.mem_cons.mp inInner with isDot | inInner
      · exact Or.inr isDot
      · exact Or.inl (inner_isRun.2 c inInner)

def pattern (nestedClass : NestedClass) (style : QualifierStyle) : NestedPattern :=
  ⟨nestedClass.innerRename, nestedClass.qualifier style, nestedClass.newOuter, nestedClass.inner⟩

theorem pattern_token (style : QualifierStyle) :
    (nestedClass.pattern style).token = nestedClass.halfRenamed style := by
  simp [NestedPattern.token, pattern, halfRenamed]

theorem IsWholeTable.nestedGroups_eq (table : nestedClass.IsWholeTable mapping)
    (style : QualifierStyle) : mapping.nestedGroups style =
      [⟨nestedClass.qualifier style, [nestedClass.pattern style]⟩] := by
  have targetParts : nestedClass.innerRename.target.nesting? =
      some (nestedClass.newOuter, nestedClass.newInner) := by
    simp [ClassName.nesting?, innerRename, Text.segments_append_dot, newOuter_isRun.segments,
      newInner_isRun.segments, newOuter_isRun.1, newInner_isRun.1]
  have legacyParts : nestedClass.innerRename.legacy.nesting? =
      some (nestedClass.outer, nestedClass.inner) := by
    simp [ClassName.nesting?, innerRename, Text.segments_append_dot, outer_isRun.segments,
      inner_isRun.segments, outer_isRun.1, inner_isRun.1]
  have made : NestedPattern.ofRename? style nestedClass.innerRename =
      some (nestedClass.pattern style) := by
    unfold NestedPattern.ofRename?
    rw [targetParts, legacyParts]
    cases style <;> rfl
  simp [Mapping.nestedGroups, table.nested_eq, made, Text.ordered, Keyed.insert, pattern]

variable {rules : Rules} {before after : Text}

theorem placeBehind_of_apart (rename : Rename) (ofPackage : rename.legacy.qualifier =
    qualifierOf nestedClass.packages) (style : QualifierStyle) {left : Text}
    (undotted : ∀ c ∈ left.head?, c ≠ '.') :
    rename.placeBehind style left = (rename.replacement style).reverse ++ left := by
  obtain ⟨front, dotted⟩ := exists_qualifierOf_eq_append_dot nestedClass.packages_ne_nil
  have notFollows : followsQualifier rename.legacy.qualifier left = false := by
    cases left with
    | nil => simp [followsQualifier, ofPackage, dotted]
    | cons c rest =>
        have notDot : c ≠ '.' := undotted c rfl
        simp [followsQualifier, ofPackage, dotted, List.isPrefixOf, notDot.symm]
  cases style <;> simp [Rename.placeBehind, notFollows, Rename.replacement]

theorem replacement_outerRename (style : QualifierStyle) :
    nestedClass.outerRename.replacement style =
      nestedClass.qualifier style ++ nestedClass.newOuter := by
  cases style <;> rfl

theorem replacement_innerRename (style : QualifierStyle) :
    nestedClass.innerRename.replacement style = nestedClass.renamed style := by
  cases style <;> rfl

theorem renamed_ne_reference (style : QualifierStyle) :
    nestedClass.renamed style ≠ nestedClass.reference := by
  have longer : ∀ packages : List Text, (∀ package ∈ packages, IsLetterRun package) →
      packages ≠ [] → qualifierOf packages ++ (nestedClass.newOuter ++ '.' :: nestedClass.newInner) ≠
        nestedClass.reference := by
    intro packages areRuns nonempty same
    have positive := List.length_pos_iff.mpr nonempty
    have parts := congrArg (fun text => (Text.segments text).length) same
    simp only [reference, Text.segments_qualifierOf_append _ areRuns, Text.segments_append_dot,
      newOuter_isRun.segments, newInner_isRun.segments, outer_isRun.segments, inner_isRun.segments,
      List.length_append, List.length_singleton] at parts
    omega
  cases style with
  | legacy => exact longer _ packages_areRuns nestedClass.packages_ne_nil
  | mapped => exact longer _ targets_areRuns nestedClass.targets_ne_nil

namespace IsUsage

theorem undotted (usage : nestedClass.IsUsage rules before after) :
    ∀ c ∈ before.reverse.head?, c ≠ '.' := by
  rw [List.head?_reverse]
  exact fun c isLast => (usage.before_apart c isLast).2

theorem different (usage : nestedClass.IsUsage rules before after) :
    nestedClass.inner ≠ nestedClass.outer := by
  intro same
  have again := usage.once (before ++ (nestedClass.outer ++ ['.'])) after (by simp [reference, same])
  have measured := congrArg List.length again
  simp only [List.length_append, List.length_singleton] at measured
  omega

theorem accepts (usage : nestedClass.IsUsage rules before after) (right : Text)
    (apart : right.head?.any isAlphabetic = false) :
    nestedClass.candidate.accepts ⟨[nestedClass.outerRename], [], []⟩ rules before.reverse right =
      true := by
  have standalone : isStandalone before.reverse right = true := by
    rw [isStandalone_iff, List.head?_reverse]
    refine ⟨?_, apart⟩
    rw [Option.any_eq_false]
    exact fun c isLast => (usage.before_apart c isLast).1
  have noQualifier : qualifierBefore? before.reverse = none := by
    unfold qualifierBefore?
    split
    · rename_i rest dotted
      exact absurd rfl (usage.undotted '.' (by simp [dotted]))
    · rfl
  simp [Candidate.accepts, standalone, noQualifier, UnitContext.isForeign]

/-- The flat pass finds the outer class once and leaves the half renamed reference. -/
theorem applyCandidates_eq (usage : nestedClass.IsUsage rules before after) :
    applyCandidates [nestedClass.candidate] ⟨[nestedClass.outerRename], [], []⟩ rules
        (before ++ (nestedClass.reference ++ after)) =
      (before ++ (nestedClass.halfRenamed rules.style ++ after), 1) := by
  have spelled : before ++ (nestedClass.reference ++ after) =
      before ++ (nestedClass.candidate.token ++ '.' :: (nestedClass.inner ++ after)) := by
    simp [reference, candidate]
  have first : Text.StandsBehind nestedClass.candidate.token before.length
      (before ++ (nestedClass.candidate.token ++ '.' :: (nestedClass.inner ++ after))) := by
    intro left right here
    rw [usage.once left right (spelled.trans here)]
  have absent : ¬nestedClass.candidate.token <:+: '.' :: (nestedClass.inner ++ after) := by
    rintro ⟨left, right, here⟩
    have again := usage.once (before ++ (nestedClass.outer ++ left)) right (by
      rw [spelled, ← here]
      simp [candidate])
    have nonempty : nestedClass.outer ≠ [] := outer_isRun.1
    have positive := List.length_pos_iff.mpr nonempty
    have measured := congrArg List.length again
    simp only [List.length_append] at measured
    omega
  have accepted := usage.accepts ('.' :: (nestedClass.inner ++ after)) (by
    simp [Text.isAlphabetic_dot])
  have placed := placeBehind_of_apart nestedClass.outerRename rfl rules.style usage.undotted
  have applied : nestedClass.candidate.apply ⟨[nestedClass.outerRename], [], []⟩ rules
      (before ++ (nestedClass.candidate.token ++ '.' :: (nestedClass.inner ++ after))) =
        ((nestedClass.outerRename.placeBehind rules.style before.reverse).reverse ++
          '.' :: (nestedClass.inner ++ after), 1) :=
    Search.apply_of_once first accepted absent
  rw [applyCandidates, inSequence_singleton, spelled, applied]
  simp [placed, replacement_outerRename, halfRenamed]

/-- The nested pass finds just what the flat pass has left. -/
theorem applyAll_eq (usage : nestedClass.IsUsage rules before after) :
    NestedGroup.applyAll rules.style
        [⟨nestedClass.qualifier rules.style, [nestedClass.pattern rules.style]⟩]
        (before ++ (nestedClass.halfRenamed rules.style ++ after)) =
      (before ++ (nestedClass.renamed rules.style ++ after), 1) := by
  have token : (nestedClass.pattern rules.style).token = nestedClass.halfRenamed rules.style :=
    pattern_token rules.style
  have hasQualifier : Text.occurs (nestedClass.qualifier rules.style)
      (before ++ (nestedClass.halfRenamed rules.style ++ after)) = true :=
    Text.occurs_iff_isInfix.mpr ⟨before, _, by rw [halfRenamed, List.append_assoc, List.append_assoc]⟩
  have first : Text.StandsBehind (nestedClass.pattern rules.style).token before.length
      (before ++ ((nestedClass.pattern rules.style).token ++ after)) := by
    rw [token]
    apply Text.StandsBehind.of_apart usage.notHalfRenamed_before
    intro c isLast member
    obtain ⟨notLetter, notDot⟩ := usage.before_apart c isLast
    rcases letter_or_dot_of_mem_halfRenamed _ c member with letter | isDot
    · exact absurd (notLetter.symm.trans letter) (by decide)
    · exact notDot isDot
  have apart : after.head?.any isAlphabetic = false := by
    rw [Option.any_eq_false]
    exact usage.after_apart
  have taken : ((nestedClass.pattern rules.style).search rules.style).takes before.reverse after = true := by
    simp [NestedPattern.search, apart]
  have absent : ¬(nestedClass.pattern rules.style).token <:+: after := by
    rw [token]
    exact usage.notHalfRenamed_after
  have applied : (nestedClass.pattern rules.style).apply rules.style
      (before ++ ((nestedClass.pattern rules.style).token ++ after)) =
        ((nestedClass.innerRename.placeBehind rules.style before.reverse).reverse ++ after, 1) :=
    Search.apply_of_once first taken absent
  have placed := placeBehind_of_apart nestedClass.innerRename rfl rules.style usage.undotted
  rw [token] at applied
  rw [NestedGroup.applyAll, inSequence_singleton, NestedGroup.apply, if_pos hasQualifier,
    NestedPattern.applyAll, inSequence_singleton, applied]
  simp [placed, replacement_innerRename]

end IsUsage

/-! ### The unit -/

variable {migration : Migration}

theorem outcome_importLine (lineMigration : LineMigration)
    (inSpace : inNamespace lineMigration.rules.legacyNamespace nestedClass.path = true) :
    lineMigration.outcome nestedClass.importLine = ([], { droppedImports := 1 }) := by
  have isFrom : nestedClass.statement.isFrom lineMigration.rules.legacyNamespace = true := inSpace
  have lost : withoutImportsFrom? lineMigration.rules.legacyNamespace nestedClass.importLine =
      some (1, []) := by
    simp [withoutImportsFrom?, importsOn_importLine, isFrom]
  simp [LineMigration.outcome, lost]

theorem IsUsage.outcome_eq (table : nestedClass.IsWholeTable migration.mapping)
    (usage : nestedClass.IsUsage migration.rules before after) :
    (migration.withContext ⟨[nestedClass.outerRename], [], []⟩).outcome
        (before ++ (nestedClass.reference ++ after)) =
      ([before ++ (nestedClass.renamed migration.rules.style ++ after)],
        { flatReplacements := 1, nestedReplacements := 1, changedLines := 1 }) := by
  have keptAll : withoutImportsFrom? migration.rules.legacyNamespace
      (before ++ (nestedClass.reference ++ after)) = none := by
    rw [withoutImportsFrom?_eq_none_iff, importsFromElsewhere, importsOn_eq_nil usage.noImport]
    rfl
  have patched := PatchTable.apply_of_absent usage.unpatched
  have applied : (migration.withContext ⟨[nestedClass.outerRename], [], []⟩).apply
      (before ++ (nestedClass.reference ++ after)) =
        (before ++ (nestedClass.renamed migration.rules.style ++ after),
          { flatReplacements := 1, nestedReplacements := 1 }) := by
    simp [LineMigration.apply, Migration.withContext, usage.noImport, candidates_eq,
      usage.applyCandidates_eq, table.nestedGroups_eq, usage.applyAll_eq, patched]
  have kept : (migration.withContext ⟨[nestedClass.outerRename], [], []⟩).rules.legacyNamespace =
      migration.rules.legacyNamespace := rfl
  simp [LineMigration.outcome, kept, keptAll, applied, renamed_ne_reference]

/-- The import is dropped and nothing else is mentioned, so every usage is migrated as if alone. -/
theorem outcome_usage (table : nestedClass.IsWholeTable migration.mapping)
    (inSpace : inNamespace migration.rules.legacyNamespace nestedClass.path = true)
    {usages : List (Text × Text)}
    (proper : ∀ usage ∈ usages, nestedClass.IsUsage migration.rules usage.1 usage.2)
    {usage : Text × Text} (isUsage : usage ∈ usages) :
    (migration.withContext (migration.context (nestedClass.importLine ::
        usages.map fun usage => usage.1 ++ (nestedClass.reference ++ usage.2)))).outcome
          (usage.1 ++ (nestedClass.reference ++ usage.2)) =
      ([usage.1 ++ (nestedClass.renamed migration.rules.style ++ usage.2)],
        { flatReplacements := 1, nestedReplacements := 1, changedLines := 1 }) := by
  have noImports : ∀ line ∈ usages.map fun usage => usage.1 ++ (nestedClass.reference ++ usage.2),
      importsOn line = [] := by
    intro line member
    obtain ⟨other, inUsages, rfl⟩ := List.mem_map.mp member
    exact importsOn_eq_nil (proper other inUsages).noImport
  have context := table.context_eq (proper usage isUsage).different inSpace noImports
  rw [Migration.context, context]
  exact (proper usage isUsage).outcome_eq table

theorem total_usages (count : Nat) :
    Counts.total ({ droppedImports := 1 } :: List.replicate count
      { flatReplacements := 1, nestedReplacements := 1, changedLines := 1 }) =
        { flatReplacements := count
          nestedReplacements := count
          droppedImports := 1
          changedLines := count } := by
  have usages : Counts.total (List.replicate count
      { flatReplacements := 1, nestedReplacements := 1, changedLines := 1 }) =
        { flatReplacements := count, nestedReplacements := count, changedLines := count } := by
    induction count with
    | zero => rfl
    | succ count ih =>
        rw [List.replicate_succ, Counts.total_cons, ih]
        simp [Counts.add_eq, Counts.add, Nat.add_comm 1]
  rw [Counts.total_cons, usages]
  simp [Counts.add_eq, Counts.add]

end NestedClass

/-- In a unit that imports the outer class, every reference to the inner class behind it becomes the
whole new name. Both passes replace once on each of the lines, and the import is dropped. -/
theorem migrateLines_nestedClass (nestedClass : NestedClass) (migration : Migration)
    (table : nestedClass.IsWholeTable migration.mapping)
    (inSpace : inNamespace migration.rules.legacyNamespace nestedClass.path = true)
    (usages : List (Text × Text))
    (proper : ∀ usage ∈ usages, nestedClass.IsUsage migration.rules usage.1 usage.2) :
    migration.migrateLines (nestedClass.importLine ::
        usages.map fun (before, after) => before ++ (nestedClass.reference ++ after)) =
      (usages.map fun (before, after) =>
          before ++ (nestedClass.renamed migration.rules.style ++ after),
        { flatReplacements := usages.length
          nestedReplacements := usages.length
          droppedImports := 1
          changedLines := usages.length }) := by
  let lines := nestedClass.importLine ::
    usages.map fun usage => usage.1 ++ (nestedClass.reference ++ usage.2)
  let lineMigration := migration.withContext (migration.context lines)
  have dropped : lineMigration.outcome nestedClass.importLine = ([], { droppedImports := 1 }) :=
    NestedClass.outcome_importLine lineMigration inSpace
  have migrated : ∀ usage ∈ usages,
      lineMigration.outcome (usage.1 ++ (nestedClass.reference ++ usage.2)) =
        ([usage.1 ++ (nestedClass.renamed migration.rules.style ++ usage.2)],
          { flatReplacements := 1, nestedReplacements := 1, changedLines := 1 }) :=
    fun usage isUsage => NestedClass.outcome_usage table inSpace proper isUsage
  have outputs : (lines.map fun line => (lineMigration.outcome line).1) =
      [] :: usages.map fun usage =>
        [usage.1 ++ (nestedClass.renamed migration.rules.style ++ usage.2)] := by
    rw [List.map_cons, dropped, List.map_map]
    exact congrArg _ (List.map_congr_left fun usage isUsage => congrArg Prod.fst (migrated usage isUsage))
  have counts : (lines.map fun line => (lineMigration.outcome line).2) =
      { droppedImports := 1 } :: List.replicate usages.length
        { flatReplacements := 1, nestedReplacements := 1, changedLines := 1 } := by
    rw [List.map_cons, dropped, List.map_map, ← List.map_const']
    exact congrArg _ (List.map_congr_left fun usage isUsage => congrArg Prod.snd (migrated usage isUsage))
  calc migration.migrateLines lines
      = ((lines.map fun line => (lineMigration.outcome line).1).flatten,
          Counts.total (lines.map fun line => (lineMigration.outcome line).2)) :=
        migration.migrateLines_eq lines
    _ = _ := by
        rw [outputs, counts, NestedClass.total_usages, List.flatten_cons, List.nil_append,
          ← List.flatMap_def]
        exact congrArg (·, _) (List.flatMap_pure_eq_map _ _)

def lidInBox : NestedClass where
  packages := ["p".toList, "q".toList]
  targets := ["r".toList]
  outer := "Box".toList
  inner := "Lid".toList
  newOuter := "Bin".toList
  newInner := "Cover".toList
  packages_ne_nil := by decide
  targets_ne_nil := by decide
  areRuns := by decide

def lidMigration : Migration where
  mapping := .ofLines ["p/q/Box r/Bin".toList, "p/q/Box$Lid r/Bin$Cover".toList]
  rules := ⟨"p".toList, ["p.lib".toList], .builtin, .mapped⟩

def lidUsages : List (Text × Text) :=
  [("new ".toList, "();".toList), ("List<".toList, "[]> lids; // Bin.Lid".toList)]

theorem migrateLines_lidInBox :
    lidInBox.IsWholeTable lidMigration.mapping ∧
      inNamespace lidMigration.rules.legacyNamespace lidInBox.path = true ∧
      (∀ usage ∈ lidUsages, lidInBox.IsUsage lidMigration.rules usage.1 usage.2) ∧
      lidMigration.migrateLines ["import p.q.Box;".toList, "new Box.Lid();".toList,
          "List<Box.Lid[]> lids; // Bin.Lid".toList] =
        (["new r.Bin.Cover();".toList, "List<r.Bin.Cover[]> lids; // Bin.Lid".toList],
          { flatReplacements := 2, nestedReplacements := 2, droppedImports := 1, changedLines := 2 }) := by
  have renames : lidMigration.mapping.renames = [lidInBox.outerRename, lidInBox.innerRename] := by
    decide +kernel
  have table : lidInBox.IsWholeTable lidMigration.mapping := by
    intro rename
    simp [renames]
  have inSpace : inNamespace lidMigration.rules.legacyNamespace lidInBox.path = true := by
    decide +kernel
  have proper : ∀ usage ∈ lidUsages, lidInBox.IsUsage lidMigration.rules usage.1 usage.2 := by
    decide +kernel
  exact ⟨table, inSpace, proper,
    migrateLines_nestedClass lidInBox lidMigration table inSpace lidUsages proper⟩

end NameMigration
