import Mathlib
import NameMigration.Proofs.ImportAccounting
import NameMigration.Proofs.Replacements
import NameMigration.Proofs.UnitContext

/-!
Lines that a migration has nothing to do with. A pass that finds nothing leaves a line as it is, and then
the next one sees the same line, so exactly the lines in which no pass finds anything stay uncounted. A
line that mentions no class leaves the context to the others, so it may stand anywhere in a unit.
-/

namespace NameMigration

open Text (isAlphabetic)

/-! ### Passes that find nothing -/

namespace NestedPattern

variable {pattern : NestedPattern} {patterns : List NestedPattern} {style : QualifierStyle}
  {line : Text}

/-- Whether the line has a reference that does not go on with a letter. -/
def IsFoundIn (pattern : NestedPattern) (line : Text) : Prop :=
  ∃ behind ∈ Text.followers pattern.token line, behind.head?.any isAlphabetic = false

theorem apply_count_eq_zero_iff : (pattern.apply style line).2 = 0 ↔ ¬pattern.IsFoundIn line := by
  rw [apply_count, List.countP_eq_zero]
  simp [IsFoundIn]

theorem apply_of_count_eq_zero (idle : (pattern.apply style line).2 = 0) :
    pattern.apply style line = (line, 0) :=
  Search.apply_of_count_eq_zero idle

theorem not_found_of_not_infix (absent : ¬pattern.token <:+: line) : ¬pattern.IsFoundIn line := by
  rintro ⟨behind, member, _⟩
  rw [Text.followers_of_not_infix absent] at member
  exact absurd member (by simp)

theorem applyAll_count_eq_zero_iff : (applyAll style patterns line).2 = 0 ↔
    ∀ pattern ∈ patterns, ¬pattern.IsFoundIn line := by
  rw [applyAll, inSequence_count_eq_zero_iff fun _ _ => apply_of_count_eq_zero]
  simp only [apply_count_eq_zero_iff]

end NestedPattern

namespace NestedGroup

variable {group : NestedGroup} {groups : List NestedGroup} {style : QualifierStyle} {line : Text}

def IsUniform (group : NestedGroup) : Prop :=
  ∀ pattern ∈ group.patterns, pattern.qualifier = group.qualifier

/-- A line without the qualifier has none of the patterns, so nothing is missed in it. -/
theorem apply_count_eq_zero_iff (uniform : group.IsUniform) :
    (group.apply style line).2 = 0 ↔ ∀ pattern ∈ group.patterns, ¬pattern.IsFoundIn line := by
  by_cases occurs : Text.occurs group.qualifier line = true
  · rw [apply, if_pos occurs, NestedPattern.applyAll_count_eq_zero_iff]
  · rw [apply, if_neg occurs]
    refine ⟨fun _ pattern member => NestedPattern.not_found_of_not_infix ?_, fun _ => rfl⟩
    rintro inLine
    have inToken : group.qualifier <:+: pattern.token := by
      rw [NestedPattern.token, List.append_assoc, uniform pattern member]
      exact (List.prefix_append _ _).isInfix
    exact occurs (Text.occurs_iff_isInfix.mpr (inToken.trans inLine))

theorem apply_of_count_eq_zero (idle : (group.apply style line).2 = 0) :
    group.apply style line = (line, 0) := by
  by_cases occurs : Text.occurs group.qualifier line = true
  · rw [apply, if_pos occurs] at idle ⊢
    exact inSequence_of_count_eq_zero (fun _ _ => NestedPattern.apply_of_count_eq_zero) idle
  · rw [apply, if_neg occurs]

theorem applyAll_count_eq_zero_iff (uniform : ∀ group ∈ groups, group.IsUniform) :
    (applyAll style groups line).2 = 0 ↔
      ∀ group ∈ groups, ∀ pattern ∈ group.patterns, ¬pattern.IsFoundIn line := by
  rw [applyAll, inSequence_count_eq_zero_iff fun _ _ => apply_of_count_eq_zero]
  exact forall₂_congr fun group member => apply_count_eq_zero_iff (uniform group member)

end NestedGroup

theorem Mapping.isUniform_of_mem_nestedGroups {mapping : Mapping} {style : QualifierStyle}
    {group : NestedGroup} (member : group ∈ mapping.nestedGroups style) : group.IsUniform := by
  simp only [Mapping.nestedGroups, List.mem_map] at member
  obtain ⟨qualifier, _, rfl⟩ := member
  intro pattern inGroup
  simpa using (List.mem_filter.mp inGroup).2

theorem PatchTable.apply_count_eq_zero_iff {patches : PatchTable} {line : Text} :
    (patches.apply line).2 = 0 ↔ ∀ patch ∈ patches, ¬patch.search <:+: line := by
  constructor
  · intro idle
    induction patches with
    | nil => simp
    | cons patch rest ih =>
        by_cases occurs : Text.occurs patch.search line = true
        · rw [apply, if_pos occurs] at idle
          exact absurd idle (Nat.succ_ne_zero _)
        · rw [apply, if_neg occurs] at idle
          intro other member
          rcases List.mem_cons.mp member with rfl | later
          · exact fun inLine => occurs (Text.occurs_iff_isInfix.mpr inLine)
          · exact ih idle other later
  · intro absent
    rw [apply_of_absent absent]

/-! ### Untouched lines -/

namespace LineMigration

variable {lineMigration : LineMigration} {line : Text}

structure FindsNothingIn (lineMigration : LineMigration) (line : Text) : Prop where
  flat : ∀ candidate ∈ lineMigration.candidates,
    ¬candidate.RefersIn lineMigration.context lineMigration.rules line
  nested : ∀ group ∈ lineMigration.groups, ∀ pattern ∈ group.patterns, ¬pattern.IsFoundIn line
  patched : ∀ patch ∈ lineMigration.rules.patches, ¬patch.search <:+: line

theorem apply_of_noImport (noImport : isImportLine line = false) :
    let flat := applyCandidates lineMigration.candidates lineMigration.context lineMigration.rules line
    let nested := NestedGroup.applyAll lineMigration.rules.style lineMigration.groups flat.1
    let patched := lineMigration.rules.patches.apply nested.1
    lineMigration.apply line = (patched.1,
      { flatReplacements := flat.2, nestedReplacements := nested.2, patchesApplied := patched.2 }) := by
  rw [apply, noImport]
  rfl

theorem apply_of_findsNothing (uniform : ∀ group ∈ lineMigration.groups, group.IsUniform)
    (nothing : lineMigration.FindsNothingIn line) : lineMigration.apply line = (line, {}) := by
  cases noImport : isImportLine line with
  | true => exact lineMigration.apply_of_isImportLine noImport
  | false =>
      have flat := applyCandidates_of_not_refersIn nothing.flat
      have nested : NestedGroup.applyAll lineMigration.rules.style lineMigration.groups line =
          (line, 0) :=
        inSequence_of_count_eq_zero (fun _ _ => NestedGroup.apply_of_count_eq_zero)
          ((NestedGroup.applyAll_count_eq_zero_iff uniform).mpr nothing.nested)
      have patched := PatchTable.apply_of_absent nothing.patched
      rw [apply_of_noImport noImport, flat, nested, patched]

def tokens (lineMigration : LineMigration) : List Text :=
  lineMigration.candidates.map (·.token)

def laterTexts (lineMigration : LineMigration) : List Text :=
  (lineMigration.groups.flatMap fun group => group.patterns.map (·.token)) ++
    lineMigration.rules.patches.map (·.search)

theorem findsNothingIn_of_absent
    (absent : ∀ text ∈ lineMigration.tokens ++ lineMigration.laterTexts, ¬text <:+: line) :
    lineMigration.FindsNothingIn line where
  flat candidate member := by
    rintro ⟨left, right, here, _⟩
    have isText : candidate.token ∈ lineMigration.tokens := List.mem_map.mpr ⟨candidate, member, rfl⟩
    exact absent _ (List.mem_append_left _ isText) ⟨left.reverse, right, by rw [here, List.append_assoc]⟩
  nested group inGroups pattern member := by
    have isText : pattern.token ∈ lineMigration.groups.flatMap fun group =>
        group.patterns.map (·.token) :=
      List.mem_flatMap.mpr ⟨group, inGroups, List.mem_map.mpr ⟨pattern, member, rfl⟩⟩
    exact NestedPattern.not_found_of_not_infix
      (absent _ (List.mem_append_right _ (List.mem_append_left _ isText)))
  patched patch member := by
    have isText : patch.search ∈ lineMigration.rules.patches.map (·.search) :=
      List.mem_map.mpr ⟨patch, member, rfl⟩
    exact absent _ (List.mem_append_right _ (List.mem_append_right _ isText))

def migrateAll (lineMigration : LineMigration) (lines : List Text) : List Text × Counts :=
  (lines.flatMap fun line => (lineMigration.outcome line).1,
    Counts.total (lines.map fun line => (lineMigration.outcome line).2))

theorem migrateAll_append (lineMigration : LineMigration) (first second : List Text) :
    lineMigration.migrateAll (first ++ second) =
      ((lineMigration.migrateAll first).1 ++ (lineMigration.migrateAll second).1,
        (lineMigration.migrateAll first).2 + (lineMigration.migrateAll second).2) := by
  simp only [migrateAll, List.flatMap_append, List.map_append, Counts.total_append]

theorem migrateAll_cons (lineMigration : LineMigration) (line : Text) (rest : List Text) :
    lineMigration.migrateAll (line :: rest) =
      ((lineMigration.outcome line).1 ++ (lineMigration.migrateAll rest).1,
        (lineMigration.outcome line).2 + (lineMigration.migrateAll rest).2) := by
  simp only [migrateAll, List.flatMap_cons, List.map_cons, Counts.total_cons]

theorem migrateAll_of_unchanged {lines : List Text}
    (unchanged : ∀ line ∈ lines, lineMigration.outcome line = ([line], {})) :
    lineMigration.migrateAll lines = (lines, {}) := by
  induction lines with
  | nil => rfl
  | cons line rest ih =>
      have others := ih fun other member => unchanged other (List.mem_cons_of_mem line member)
      rw [migrateAll_cons, unchanged line (by simp), others]
      rfl

theorem outcome_of_apply_eq_self
    (keptAll : importsFromElsewhere lineMigration.rules.legacyNamespace line = importsOn line)
    (unchanged : lineMigration.apply line = (line, {})) :
    lineMigration.outcome line = ([line], {}) := by
  rw [outcome, withoutImportsFrom?_eq_none_iff.mpr keptAll, unchanged]
  simp

end LineMigration

namespace UnitContext

variable {mapping : Mapping} {space : Text} {lines : List Text}

theorem explicit_eq_nil
    (keptAll : ∀ line ∈ lines, importsFromElsewhere space line = importsOn line) :
    (ofLines mapping space lines).explicit = [] := by
  have noneMigrated : (lines.flatMap importsOn).filter (·.isFrom space) = [] := by
    rw [List.filter_flatMap, List.flatMap_eq_nil_iff]
    exact fun line member => importsFromElsewhere_eq_iff.mp (keptAll line member)
  simp [ofLines, List.partition_eq_filter_filter, noneMigrated]

theorem implicit_eq_nil
    (noneMentioned : ∀ line ∈ bodyLines lines, ∀ rename ∈ mapping.flat,
      rename.isMentionedOn line = false) :
    (ofLines mapping space lines).implicit = [] := by
  rw [List.eq_nil_iff_forall_not_mem]
  intro rename member
  obtain ⟨inFlat, _, line, inBody, mentioned⟩ := mem_implicit_ofLines_iff.mp member
  rw [noneMentioned line inBody rename inFlat] at mentioned
  exact absurd mentioned (by decide)

theorem candidates_eq_nil {context : UnitContext} (noneImported : context.explicit = [])
    (noneMentioned : context.implicit = []) : context.candidates = [] := by
  rw [List.eq_nil_iff_forall_not_mem]
  intro candidate member
  rcases rename_mem_of_mem_candidates member with imported | mentioned
  · simp [noneImported] at imported
  · simp [noneMentioned] at mentioned

end UnitContext

namespace Migration

variable {migration : Migration} {line : Text} {lines : List Text}

theorem migrateLines_eq_migrateAll (migration : Migration) (lines : List Text) :
    migration.migrateLines lines =
      (migration.withContext (migration.context lines)).migrateAll lines := by
  rw [migrateLines_eq, LineMigration.migrateAll, List.flatMap_def]

theorem uniform_withContext (migration : Migration) (context : UnitContext) :
    ∀ group ∈ (migration.withContext context).groups, group.IsUniform :=
  fun _ => Mapping.isUniform_of_mem_nestedGroups

theorem outcome_of_absent {context : UnitContext} (noImport : isImportLine line = false)
    (absent : ∀ text ∈ (migration.withContext context).tokens ++
      (migration.withContext context).laterTexts, ¬text <:+: line) :
    (migration.withContext context).outcome line = ([line], {}) := by
  have nothing := LineMigration.findsNothingIn_of_absent absent
  have unchanged := LineMigration.apply_of_findsNothing (migration.uniform_withContext context) nothing
  apply LineMigration.outcome_of_apply_eq_self _ unchanged
  simp [importsFromElsewhere, importsOn_eq_nil noImport]

theorem migrateAll_around_absent {context : UnitContext} (noImport : isImportLine line = false)
    (absent : ∀ text ∈ (migration.withContext context).tokens ++
      (migration.withContext context).laterTexts, ¬text <:+: line) (before after : List Text) :
    (migration.withContext context).migrateAll (before ++ line :: after) =
      (((migration.withContext context).migrateAll before).1 ++
          line :: ((migration.withContext context).migrateAll after).1,
        ((migration.withContext context).migrateAll before).2 +
          ((migration.withContext context).migrateAll after).2) := by
  rw [LineMigration.migrateAll_append, LineMigration.migrateAll_cons, outcome_of_absent noImport absent,
    Counts.zero_add]
  rfl

theorem importsFromElsewhere_of_noneDropped
    (noneDropped : ∀ statement ∈ lines.flatMap importsOn,
      statement.isFrom migration.rules.legacyNamespace = false) :
    ∀ line ∈ lines, importsFromElsewhere migration.rules.legacyNamespace line = importsOn line := by
  intro line member
  rw [importsFromElsewhere_eq_iff, List.filter_eq_nil_iff]
  intro statement onLine
  rw [noneDropped statement (List.mem_flatMap.mpr ⟨line, member, onLine⟩)]
  decide

theorem tokens_eq_nil
    (keptAll : ∀ line ∈ lines,
      importsFromElsewhere migration.rules.legacyNamespace line = importsOn line)
    (noneMentioned : ∀ line ∈ bodyLines lines, ∀ rename ∈ migration.mapping.flat,
      rename.isMentionedOn line = false) :
    (migration.withContext (migration.context lines)).tokens = [] := by
  have noCandidates := UnitContext.candidates_eq_nil
    (UnitContext.explicit_eq_nil keptAll) (UnitContext.implicit_eq_nil noneMentioned)
  exact congrArg (List.map _) noCandidates

/-- A line of a unit that is no import line and has none of the searched texts in it stays at its place
as it is and adds nothing to any count. A unit with no import to drop and no mention of a class stays
as it is if no other searched text is in its lines. -/
theorem migrateLines_untouched (migration : Migration) (lines : List Text) :
    let lineMigration := migration.withContext (migration.context lines)
    (∀ before line after, lines = before ++ line :: after → isImportLine line = false →
      (∀ text ∈ lineMigration.tokens ++ lineMigration.laterTexts, ¬text <:+: line) →
        (migration.migrateLines lines).1 =
            (lineMigration.migrateAll before).1 ++ line :: (lineMigration.migrateAll after).1 ∧
          (migration.migrateLines lines).2 =
            (lineMigration.migrateAll before).2 + (lineMigration.migrateAll after).2) ∧
      ((∀ statement ∈ lines.flatMap importsOn,
          statement.isFrom migration.rules.legacyNamespace = false) →
        (∀ line ∈ bodyLines lines, ∀ rename ∈ migration.mapping.flat,
          rename.isMentionedOn line = false) →
        (∀ line ∈ lines, isImportLine line = false →
          ∀ text ∈ lineMigration.laterTexts, ¬text <:+: line) →
        migration.migrateLines lines = (lines, {})) := by
  intro lineMigration
  constructor
  · intro before line after split noImport absent
    have whole : migration.migrateLines lines = lineMigration.migrateAll (before ++ line :: after) :=
      split ▸ migration.migrateLines_eq_migrateAll lines
    rw [whole, migrateAll_around_absent noImport absent]
    exact ⟨rfl, rfl⟩
  · intro noneDropped noneMentioned absent
    have keptAll := importsFromElsewhere_of_noneDropped noneDropped
    have noTokens : lineMigration.tokens = [] := tokens_eq_nil keptAll noneMentioned
    rw [migrateLines_eq_migrateAll]
    apply LineMigration.migrateAll_of_unchanged
    intro line member
    by_cases isLine : isImportLine line = true
    · exact LineMigration.outcome_of_apply_eq_self (keptAll line member)
        (LineMigration.apply_of_isImportLine _ isLine)
    · have noImport : isImportLine line = false := Bool.eq_false_iff.mpr isLine
      apply outcome_of_absent noImport
      intro text isText
      change text ∈ lineMigration.tokens ++ lineMigration.laterTexts at isText
      rw [noTokens, List.nil_append] at isText
      exact absent line member noImport text isText

end Migration

def sawMigration : Migration where
  mapping := .ofLines ["p/q/Saw p/q/Blade".toList, "p/q/Saw$Tooth p/q/Blade$Point".toList]
  rules := ⟨"p".toList, ["p.lib".toList], .builtin, .legacy⟩

def sawLines : List Text :=
  ["import p.q.Saw;".toList, "saw.cut(); // p.q.Blades".toList, "new Saw.Tooth(Saw.class)".toList]

def otherSawLines : List Text :=
  ["import r.Saw; import r.Blade;".toList, "new Saw.Tooth(Blade.class)".toList]

theorem migrateLines_sawLines :
    isImportLine "saw.cut(); // p.q.Blades".toList = false ∧
      (∀ text ∈ (sawMigration.withContext (sawMigration.context sawLines)).tokens ++
          (sawMigration.withContext (sawMigration.context sawLines)).laterTexts,
        ¬text <:+: "saw.cut(); // p.q.Blades".toList) ∧
      sawMigration.migrateLines sawLines =
        (["saw.cut(); // p.q.Blades".toList, "new p.q.Blade.Point(p.q.Blade.class)".toList],
          { flatReplacements := 2, nestedReplacements := 1, droppedImports := 1, changedLines := 1 }) ∧
      (∀ statement ∈ otherSawLines.flatMap importsOn, statement.isFrom "p".toList = false) ∧
      (∀ line ∈ bodyLines otherSawLines, ∀ rename ∈ sawMigration.mapping.flat,
        rename.isMentionedOn line = false) ∧
      (∀ line ∈ otherSawLines, isImportLine line = false →
        ∀ text ∈ (sawMigration.withContext (sawMigration.context otherSawLines)).laterTexts,
          ¬text <:+: line) ∧
      sawMigration.migrateLines otherSawLines = (otherSawLines, {}) := by
  have noImport : isImportLine "saw.cut(); // p.q.Blades".toList = false := by decide +kernel
  have absent : ∀ text ∈ (sawMigration.withContext (sawMigration.context sawLines)).tokens ++
      (sawMigration.withContext (sawMigration.context sawLines)).laterTexts,
        ¬text <:+: "saw.cut(); // p.q.Blades".toList := by decide +kernel
  have around := (sawMigration.migrateLines_untouched sawLines).1
    ["import p.q.Saw;".toList] "saw.cut(); // p.q.Blades".toList ["new Saw.Tooth(Saw.class)".toList]
    rfl noImport absent
  have first : ((sawMigration.withContext (sawMigration.context sawLines)).migrateAll
      ["import p.q.Saw;".toList]) = ([], { droppedImports := 1 }) := by cbv
  have last : ((sawMigration.withContext (sawMigration.context sawLines)).migrateAll
      ["new Saw.Tooth(Saw.class)".toList]) = (["new p.q.Blade.Point(p.q.Blade.class)".toList],
        { flatReplacements := 2, nestedReplacements := 1, changedLines := 1 }) := by cbv
  rw [first, last] at around
  have noneDropped : ∀ statement ∈ otherSawLines.flatMap importsOn,
      statement.isFrom "p".toList = false := by decide +kernel
  have noneMentioned : ∀ line ∈ bodyLines otherSawLines, ∀ rename ∈ sawMigration.mapping.flat,
      rename.isMentionedOn line = false := by decide +kernel
  have absentElsewhere : ∀ line ∈ otherSawLines, isImportLine line = false →
      ∀ text ∈ (sawMigration.withContext (sawMigration.context otherSawLines)).laterTexts,
        ¬text <:+: line := by decide +kernel
  exact ⟨noImport, absent, Prod.ext around.1 around.2, noneDropped, noneMentioned, absentElsewhere,
    (sawMigration.migrateLines_untouched otherSawLines).2 noneDropped noneMentioned absentElsewhere⟩

/-! ### Added lines -/

namespace UnitContext

variable {mapping : Mapping} {line : Text}

theorem mentionedIn_added (silent : ∀ rename ∈ mapping.flat, rename.isMentionedOn line = false)
    (qualifier : Text) (before after : List Text) :
    mapping.mentionedIn qualifier (before ++ line :: after) =
      mapping.mentionedIn qualifier (before ++ after) := by
  have noneHere : (mapping.inPackage qualifier).filter (·.isMentionedOn line) = [] := by
    rw [List.filter_eq_nil_iff]
    intro rename member
    rw [silent rename (Mapping.mem_inPackage_iff.mp member).1]
    decide
  simp only [Mapping.mentionedIn_eq, mentions, List.flatMap_append, List.flatMap_cons, noneHere,
    List.nil_append]

/-- A line without an import or a mention may stand anywhere, the context stays the same. -/
theorem ofLines_added (noImports : importsOn line = [])
    (silent : ∀ rename ∈ mapping.flat, rename.isMentionedOn line = false) (space : Text)
    (before after : List Text) :
    ofLines mapping space (before ++ line :: after) = ofLines mapping space (before ++ after) := by
  have sameStatements : (before ++ line :: after).flatMap importsOn =
      (before ++ after).flatMap importsOn := by simp [noImports]
  have bodies : ((before ++ line :: after).filter fun line => (importsOn line).isEmpty) =
      bodyLines before ++ line :: bodyLines after := by simp [bodyLines, noImports]
  have otherBodies : ((before ++ after).filter fun line => (importsOn line).isEmpty) =
      bodyLines before ++ bodyLines after := by simp [bodyLines]
  simp only [ofLines, sameStatements, bodies, otherBodies, mentionedIn_added silent]

end UnitContext

/-- A line without an import that mentions no class adds to a unit just what becomes of it in the
context of the other lines, at its place, and what is counted for it. -/
theorem Migration.migrateLines_added (migration : Migration) (before after : List Text) (line : Text)
    (noImports : importsOn line = [])
    (silent : ∀ rename ∈ migration.mapping.flat, rename.isMentionedOn line = false) :
    let lineMigration := migration.withContext (migration.context (before ++ after))
    (migration.migrateLines (before ++ after)).1 =
        (lineMigration.migrateAll before).1 ++ (lineMigration.migrateAll after).1 ∧
      (migration.migrateLines (before ++ line :: after)).1 =
        (lineMigration.migrateAll before).1 ++
          (lineMigration.apply line).1 :: (lineMigration.migrateAll after).1 ∧
      (migration.migrateLines (before ++ line :: after)).2 =
        (migration.migrateLines (before ++ after)).2 + (lineMigration.outcome line).2 := by
  intro lineMigration
  have sameContext : migration.context (before ++ line :: after) = migration.context (before ++ after) :=
    UnitContext.ofLines_added noImports silent _ before after
  have keptAll : importsFromElsewhere lineMigration.rules.legacyNamespace line = importsOn line := by
    simp [importsFromElsewhere, noImports]
  have shorter : migration.migrateLines (before ++ after) = lineMigration.migrateAll (before ++ after) :=
    migration.migrateLines_eq_migrateAll _
  have longer : migration.migrateLines (before ++ line :: after) =
      lineMigration.migrateAll (before ++ line :: after) := by
    rw [migrateLines_eq_migrateAll, sameContext]
  rw [shorter, longer, LineMigration.migrateAll_append, LineMigration.migrateAll_append,
    LineMigration.migrateAll_cons, lineMigration.outcome_of_keptAll keptAll]
  refine ⟨rfl, rfl, ?_⟩
  rw [Counts.add_assoc, Counts.add_comm (lineMigration.outcome line).2]

def sawContext : LineMigration :=
  sawMigration.withContext (sawMigration.context ["import p.q.Saw;".toList, "Saw saw;".toList])

theorem migrateLines_addedTooth :
    importsOn "new Saw.Tooth(Saw.class)".toList = [] ∧
      (∀ rename ∈ sawMigration.mapping.flat,
        rename.isMentionedOn "new Saw.Tooth(Saw.class)".toList = false) ∧
      sawMigration.migrateLines ["import p.q.Saw;".toList, "Saw saw;".toList] =
        (["p.q.Blade saw;".toList],
          { flatReplacements := 1, droppedImports := 1, changedLines := 1 }) ∧
      sawMigration.migrateLines
          ["import p.q.Saw;".toList, "new Saw.Tooth(Saw.class)".toList, "Saw saw;".toList] =
        (["new p.q.Blade.Point(p.q.Blade.class)".toList, "p.q.Blade saw;".toList],
          { flatReplacements := 3, nestedReplacements := 1, droppedImports := 1,
            changedLines := 2 }) := by
  have noImports : importsOn "new Saw.Tooth(Saw.class)".toList = [] := by decide +kernel
  have silent : ∀ rename ∈ sawMigration.mapping.flat,
      rename.isMentionedOn "new Saw.Tooth(Saw.class)".toList = false := by decide +kernel
  have first : sawContext.migrateAll ["import p.q.Saw;".toList] = ([], { droppedImports := 1 }) := by
    cbv
  have last : sawContext.migrateAll ["Saw saw;".toList] =
      (["p.q.Blade saw;".toList], { flatReplacements := 1, changedLines := 1 }) := by cbv
  have applied : sawContext.apply "new Saw.Tooth(Saw.class)".toList =
      ("new p.q.Blade.Point(p.q.Blade.class)".toList,
        { flatReplacements := 2, nestedReplacements := 1 }) := by cbv
  have counted : (sawContext.outcome "new Saw.Tooth(Saw.class)".toList).2 =
      { flatReplacements := 2, nestedReplacements := 1, changedLines := 1 } := by cbv
  have shorter : sawMigration.migrateLines ["import p.q.Saw;".toList, "Saw saw;".toList] =
      (["p.q.Blade saw;".toList], { flatReplacements := 1, droppedImports := 1, changedLines := 1 }) := by
    cbv
  obtain ⟨_, longer, counts⟩ := sawMigration.migrateLines_added ["import p.q.Saw;".toList]
    ["Saw saw;".toList] "new Saw.Tooth(Saw.class)".toList noImports silent
  change _ = (sawContext.migrateAll _).1 ++ (sawContext.apply _).1 :: (sawContext.migrateAll _).1
    at longer
  change _ = (sawMigration.migrateLines ["import p.q.Saw;".toList, "Saw saw;".toList]).2 +
    (sawContext.outcome _).2 at counts
  rw [first, last, applied] at longer
  rw [shorter, counted] at counts
  exact ⟨noImports, silent, shorter, Prod.ext longer counts⟩

end NameMigration
