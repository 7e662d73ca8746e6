import Mathlib
import NameMigration.Proofs.DoubledPackages
import NameMigration.Proofs.QuietLines
import NameMigration.Proofs.SettledLines

/-!
A second run over the lines of a migrated unit. The imports are gone by then, so a class is only looked
for together with its package, and where it is found it keeps its name. So nothing changes but for a
package that stands twice in front of a name: it is taken away once.
-/

namespace NameMigration

open Text (isAlphabetic isNameChar IsLetterRun qualifierOf qualifierPieces)

theorem Text.eq_nil_or_append_of_overlap {packages : List Text} {name passed behind right : Text}
    (areRuns : ∀ package ∈ packages, IsLetterRun package) (isRun : IsLetterRun name)
    (notPackage : name ∉ packages) (passedApart : passed.getLast?.any isAlphabetic = false)
    (rightApart : right.head?.any isAlphabetic = false)
    (behindApart : behind.head?.any isAlphabetic = false)
    (here : (qualifierOf packages ++ name) ++ right =
      passed ++ ((qualifierOf packages ++ name) ++ behind)) :
    passed = [] ∨ ∃ more, passed = (qualifierOf packages ++ name) ++ more ∧
      right = more ++ ((qualifierOf packages ++ name) ++ behind) := by
  rcases List.append_eq_append_iff.mp here with ⟨more, split, tail⟩ | ⟨rest, split, tail⟩
  · exact Or.inr ⟨more, split, tail⟩
  · have whole : pieces (qualifierOf packages ++ name) = qualifierPieces packages ++ [name] := by
      rw [pieces_qualifierOf_append packages areRuns, isRun.pieces]
    have parts := (congrArg pieces split).symm.trans whole
    have again := congrArg pieces tail
    rw [pieces_append (Or.inl passedApart)] at parts
    rw [pieces_append (Or.inr behindApart), pieces_append (Or.inr rightApart), whole] at again
    rcases List.eq_nil_or_concat (pieces rest) with empty | ⟨others, last, ends⟩
    · have noRest : rest = [] := List.splitBy_eq_nil.mp empty
      subst noRest
      rw [List.append_nil] at split
      exact Or.inr ⟨[], by simp [split], tail.symm⟩
    · left
      rw [List.concat_eq_append] at ends
      rw [ends, ← List.append_assoc] at parts
      obtain ⟨inQualifier, isName⟩ := List.append_inj' parts rfl
      rw [List.cons.injEq] at isName
      rw [ends, isName.1] at again
      have nameAbsent : name ∉ qualifierPieces packages :=
        fun member => notPackage (mem_of_mem_qualifierPieces isRun member)
      have aligned : others ++ name :: right.pieces =
          [] ++ (qualifierPieces packages ++ name :: behind.pieces) := by simpa using again.symm
      rcases append_cons_eq_append_append nameAbsent aligned with ⟨more, longer⟩ | ⟨_, absurdly, _⟩
      · have lengths := congrArg List.length longer
        have shorter := congrArg List.length inQualifier
        simp only [List.nil_append, List.length_append] at lengths shorter
        have noPieces : passed.pieces = [] := List.length_eq_zero_iff.mp (by omega)
        exact List.splitBy_eq_nil.mp noPieces
      · exact absurd absurdly (by simp)

structure Candidate.IsQualified (packages : List Text) (migration : Migration)
    (candidate : Candidate) : Prop where
  inFlat : candidate.rename ∈ migration.mapping.flat
  token : candidate.token = qualifierOf packages ++ candidate.rename.key

variable {packages lines : List Text} {line changed left right : Text} {candidate : Candidate}
  {context : UnitContext} {migration : Migration}

theorem Candidate.IsQualified.isPlain (plain : migration.IsPlain packages)
    (qualified : candidate.IsQualified packages migration) : candidate.IsPlain packages where
  rename := plain.plain _ qualified.inFlat
  token := ⟨packages, Or.inr rfl, qualified.token⟩

namespace Migration.IsSettled

theorem splices (plain : migration.IsPlain packages) (settled : migration.IsSettled packages line)
    (qualified : candidate.IsQualified packages migration)
    (splices : candidate.Splices context migration.rules line changed) :
    migration.IsSettled packages changed where
  noImport := splices.isImportLine_eq_false plain.shared (qualified.isPlain plain) plain.legacyStyle
    settled.noImport
  notStands := by
    intro rename member renamed before after stands
    have ofPlain := plain.plain rename member
    have different : candidate.rename.target.name ≠ rename.key := fun same =>
      renamed (plain.fresh _ qualified.inFlat rename member same)
    obtain ⟨first, last, stood, _⟩ := splices.stands_origin plain.shared (qualified.isPlain plain)
      plain.legacyStyle ofPlain.key_run.isLetterRun ofPlain.key_notMem different stands
    exact settled.notStands rename member renamed first last stood

theorem target_eq_key (plain : migration.IsPlain packages)
    (qualified : candidate.IsQualified packages migration)
    (settled : migration.IsSettled packages (left.reverse ++ (candidate.token ++ right)))
    (standalone : isStandalone left right = true) :
    candidate.rename.target.name = candidate.rename.key := by
  by_contra renamed
  have keyRun := (plain.plain _ qualified.inFlat).key_run.isLetterRun
  have spelled := Text.pieces_spelled plain.shared.letterRuns keyRun standalone
  rw [← qualified.token, List.append_assoc] at spelled
  exact settled.notStands _ qualified.inFlat renamed _ _ spelled

theorem placeBehind_eq (plain : migration.IsPlain packages)
    (qualified : candidate.IsQualified packages migration)
    (settled : migration.IsSettled packages (left.reverse ++ (candidate.token ++ right)))
    (standalone : isStandalone left right = true) :
    candidate.rename.placeBehind migration.rules.style left =
      if followsQualifier (qualifierOf packages) left then candidate.rename.key.reverse ++ left
      else candidate.token.reverse ++ left := by
  have ofPlain := plain.plain _ qualified.inFlat
  rw [plain.legacyStyle, ofPlain.placeBehind, packagesAt,
    settled.target_eq_key plain qualified standalone, qualified.token]
  split <;> rfl

theorem eq_or_length_lt (plain : migration.IsPlain packages)
    (settled : migration.IsSettled packages line)
    (qualified : candidate.IsQualified packages migration)
    (splices : candidate.Splices context migration.rules line changed) :
    changed = line ∨ changed.length < line.length := by
  cases splices with
  | @intro left right accepted =>
      have placed := settled.placeBehind_eq plain qualified (Candidate.isStandalone_of_accepts accepted)
      rw [placed]
      split
      · right
        obtain ⟨front, dotted⟩ := exists_qualifierOf_eq_append_dot plain.shared.ne_nil
        simp [qualified.token, dotted]
        omega
      · left
        simp

theorem scans (plain : migration.IsPlain packages)
    (qualified : candidate.IsQualified packages migration) {source result : Text} {count : Nat}
    (scans : candidate.Scans context migration.rules left source result count)
    (settled : migration.IsSettled packages (left.reverse ++ source)) :
    migration.IsSettled packages result ∧ result.length ≤ (left.reverse ++ source).length := by
  refine scans.preserves (motive := fun text => migration.IsSettled packages text ∧
    text.length ≤ (left.reverse ++ source).length) ?_ ⟨settled, Nat.le_refl _⟩
  rintro line changed splices ⟨settledBefore, bounded⟩
  refine ⟨settledBefore.splices plain qualified splices, ?_⟩
  rcases settledBefore.eq_or_length_lt plain qualified splices with same | shorter
  · rwa [same]
  · omega

theorem scans_length_lt (plain : migration.IsPlain packages)
    (qualified : candidate.IsQualified packages migration) {source result passed behind : Text}
    {count : Nat} (scans : candidate.Scans context migration.rules left source result count)
    (settled : migration.IsSettled packages (left.reverse ++ source))
    (here : source = passed ++ (candidate.token ++ behind))
    (accepted : candidate.accepts context migration.rules (passed.reverse ++ left) behind = true)
    (doubled : followsQualifier (qualifierOf packages) (passed.reverse ++ left) = true) :
    result.length < (left.reverse ++ source).length := by
  have ofPlain := plain.plain _ qualified.inFlat
  induction scans using Candidate.scans_induction generalizing passed with
  | finished =>
      have nonempty := candidate.token_ne_nil
      simp_all
  | passed rejected later ih =>
      rename_i left c rest result count
      cases passed with
      | nil =>
          rw [List.reverse_nil, List.nil_append, rejected behind here] at accepted
          exact absurd accepted (by decide)
      | cons first others =>
          rw [List.cons_append, List.cons.injEq] at here
          obtain ⟨rfl, tail⟩ := here
          have shorter := ih (by simpa using settled) tail (by simpa using accepted)
            (by simpa using doubled)
          simpa using shorter
  | replaced acceptedHere later ih =>
      rename_i left right result count
      have standalone := Candidate.isStandalone_of_accepts acceptedHere
      have splices := Candidate.Splices.intro acceptedHere
      have placed := settled.placeBehind_eq plain qualified standalone
      by_cases follows : followsQualifier (qualifierOf packages) left = true
      · -- This replacement leaves the package out, and the later ones make nothing longer.
        have bounded := (scans plain qualified later (settled.splices plain qualified splices)).2
        obtain ⟨front, dotted⟩ := exists_qualifierOf_eq_append_dot plain.shared.ne_nil
        rw [placed, if_pos follows] at bounded
        simp only [qualified.token, dotted, List.length_append, List.length_reverse,
          List.length_singleton] at bounded ⊢
        omega
      · rw [if_neg follows] at placed
        rw [placed] at ih
        obtain ⟨passedApart, behindApart⟩ :=
          isStandalone_iff.mp (Candidate.isStandalone_of_accepts accepted)
        have lastApart : passed.getLast?.any isAlphabetic = false := by
          rcases List.eq_nil_or_concat passed with rfl | ⟨others, last, rfl⟩
          · rfl
          · simpa using passedApart
        rw [qualified.token] at here
        rcases Text.eq_nil_or_append_of_overlap plain.shared.letterRuns ofPlain.key_run.isLetterRun
          ofPlain.key_notMem lastApart (isStandalone_iff.mp standalone).2 behindApart here with
          rfl | ⟨more, passedEq, tail⟩
        · exact absurd doubled follows
        · rw [← qualified.token] at passedEq tail
          have shorter := ih (by simpa using settled) tail (by simpa [passedEq] using accepted)
            (by simpa [passedEq] using doubled)
          simpa using shorter

variable {candidates : List Candidate}

theorem applyCandidates_eq_or_length_lt (context : UnitContext)
    (plain : migration.IsPlain packages)
    (qualified : ∀ candidate ∈ candidates, candidate.IsQualified packages migration)
    (settled : migration.IsSettled packages line) :
    migration.IsSettled packages (applyCandidates candidates context migration.rules line).1 ∧
      ((applyCandidates candidates context migration.rules line).1 = line ∨
        (applyCandidates candidates context migration.rules line).1.length < line.length) := by
  refine applyCandidates_preserves (motive := fun text => migration.IsSettled packages text ∧
    (text = line ∨ text.length < line.length)) ?_ ⟨settled, Or.inl rfl⟩
  rintro candidate member before after splices ⟨settledBefore, bounded⟩
  refine ⟨settledBefore.splices plain (qualified candidate member) splices, ?_⟩
  rcases settledBefore.eq_or_length_lt plain (qualified candidate member) splices with same | shorter
  · rwa [same]
  · rcases bounded with rfl | below
    · exact Or.inr shorter
    · exact Or.inr (by omega)

theorem applyCandidates_length_le (context : UnitContext) (plain : migration.IsPlain packages)
    (qualified : ∀ candidate ∈ candidates, candidate.IsQualified packages migration)
    (settled : migration.IsSettled packages line) :
    (applyCandidates candidates context migration.rules line).1.length ≤ line.length := by
  rcases (settled.applyCandidates_eq_or_length_lt context plain qualified).2 with
    same | shorter
  · rw [same]
  · omega

theorem applyCandidates_length_lt (plain : migration.IsPlain packages)
    (qualified : ∀ candidate ∈ candidates, candidate.IsQualified packages migration)
    (settled : migration.IsSettled packages line) (member : candidate ∈ candidates)
    (doubled : candidate.IsDoubledIn context migration.rules line) :
    (applyCandidates candidates context migration.rules line).1.length < line.length := by
  obtain ⟨earlier, later, rfl⟩ := List.append_of_mem member
  have own := qualified candidate member
  obtain ⟨settledThen, unchanged | shorter⟩ := settled.applyCandidates_eq_or_length_lt
    context plain fun other before => qualified other (List.mem_append_left _ before)
  · obtain ⟨left, right, here, accepted, follows⟩ := doubled
    rw [(plain.plain _ own.inFlat).qualifier] at follows
    have scanned := candidate.scans_apply context migration.rules line
    have settledOwn := (scans plain own scanned settled).1
    have shorter := scans_length_lt plain own scanned settled here
      (by simpa using accepted) (by simpa using follows)
    have atMost := settledOwn.applyCandidates_length_le context plain
      fun other behind => qualified other (List.mem_append_right _ (List.mem_cons_of_mem _ behind))
    rw [applyCandidates_append, applyCandidates_cons, unchanged]
    exact Nat.lt_of_le_of_lt atMost shorter
  · have atMost := settledThen.applyCandidates_length_le context plain
      fun other behind => qualified other (List.mem_append_right _ behind)
    rw [applyCandidates_append]
    exact Nat.lt_of_le_of_lt atMost shorter

theorem applyCandidates_eq_iff (plain : migration.IsPlain packages)
    (qualified : ∀ candidate ∈ candidates, candidate.IsQualified packages migration)
    (settled : migration.IsSettled packages line) :
    (applyCandidates candidates context migration.rules line).1 = line ↔
      ∀ candidate ∈ candidates, ¬candidate.IsDoubledIn context migration.rules line := by
  constructor
  · intro same candidate member doubled
    have shorter := settled.applyCandidates_length_lt plain qualified member doubled
    rw [same] at shorter
    omega
  · intro single
    refine applyCandidates_preserves (motive := (· = line)) ?_ rfl
    intro candidate member before after splices same
    subst same
    cases splices with
    | @intro left right accepted =>
        have placed := settled.placeBehind_eq plain (qualified candidate member)
          (Candidate.isStandalone_of_accepts accepted)
        have ofPlain := plain.plain _ (qualified candidate member).inFlat
        have notDoubled : ¬followsQualifier (qualifierOf packages) left = true := by
          intro follows
          rw [← ofPlain.qualifier] at follows
          exact single candidate member ⟨left, right, rfl, accepted, follows⟩
        rw [placed, if_neg notDoubled]
        simp

end Migration.IsSettled

namespace Migration

theorem migrateLines_eq_self_iff (keptAll : ∀ line ∈ lines,
      importsFromElsewhere migration.rules.legacyNamespace line = importsOn line) :
    (migration.migrateLines lines).1 = lines ↔ ∀ line ∈ lines,
      ((migration.withContext (migration.context lines)).apply line).1 = line := by
  have oneEach : ∀ line ∈ lines,
      ((migration.withContext (migration.context lines)).outcome line).1 =
        [((migration.withContext (migration.context lines)).apply line).1] :=
    fun line member => LineMigration.outcome_of_keptAll _ (keptAll line member)
  have mapped : (migration.migrateLines lines).1 = lines.map fun line =>
      ((migration.withContext (migration.context lines)).apply line).1 := by
    rw [migrateLines_eq]
    simp only
    rw [List.map_congr_left oneEach, ← List.flatMap_def, ← List.map_eq_flatMap]
  have sameMap := List.map_inj_left (l := lines) (g := id)
    (f := fun line => ((migration.withContext (migration.context lines)).apply line).1)
  rwa [List.map_id, ← mapped] at sameMap

namespace IsPlain

theorem isQualified (plain : migration.IsPlain packages)
    (noneImported : (migration.context lines).explicit = []) :
    ∀ candidate ∈ (migration.context lines).candidates, candidate.IsQualified packages migration := by
  intro candidate member
  refine ⟨plain.mem_flat member, ?_⟩
  obtain ⟨isImported, inRenames, token⟩ := UnitContext.mem_candidates_iff.mp member
  rcases UnitContext.mem_renames_iff.mp inRenames with ⟨_, imported⟩ | ⟨rfl, _⟩
  · rw [noneImported] at imported
    exact absurd imported (by simp)
  · rw [token, (plain.plain _ (plain.mem_flat member)).searchToken plain.shared]
    rfl

end IsPlain

end Migration

/-- A second run changes nothing exactly when no line that it looks at has a package twice in front of
a name. No line has, if no new name ends in the first package. -/
theorem migrateLines_again_iff (migration : Migration) (packages lines : List Text)
    (plain : migration.IsPlain packages)
    (clean : ∀ line ∈ lines, isImportLine line = false → Text.HasCleanPackages packages line) :
    let once := (migration.migrateLines lines).1
    let context := migration.context once
    ((migration.migrateLines once).1 = once ↔ ∀ line ∈ once, isImportLine line = false →
      ∀ candidate ∈ context.candidates, ¬candidate.IsDoubledIn context migration.rules line) ∧
    ((∀ first ∈ packages.head?, ∀ rename ∈ migration.mapping.flat, ¬first <:+ rename.target.name) →
      (migration.migrateLines once).1 = once) := by
  intro once context
  have keptAll : ∀ line ∈ once,
      importsFromElsewhere migration.rules.legacyNamespace line = importsOn line := by
    intro line member
    rcases plain.of_mem_migrateLines member with ⟨_, kept⟩ | ⟨source, _, noImport, rfl⟩
    · exact kept
    · simp [importsFromElsewhere, importsOn_eq_nil (plain.isImportLine_applyCandidates noImport)]
  have qualified : ∀ candidate ∈ context.candidates, candidate.IsQualified packages migration :=
    plain.isQualified (UnitContext.explicit_eq_nil keptAll)
  have unchanged : (migration.migrateLines once).1 = once ↔ ∀ line ∈ once,
      isImportLine line = false →
        ∀ candidate ∈ context.candidates, ¬candidate.IsDoubledIn context migration.rules line := by
    rw [Migration.migrateLines_eq_self_iff keptAll]
    refine forall₂_congr fun line member => ?_
    rcases plain.of_mem_migrateLines member with ⟨isLine, _⟩ | ⟨source, inLines, noImport, rfl⟩
    · simp [LineMigration.apply_of_isImportLine _ isLine, isLine]
    · have settled := plain.isSettled_applyCandidates inLines noImport (clean source inLines noImport)
      rw [plain.apply_eq settled.noImport, settled.applyCandidates_eq_iff plain qualified]
      simp [settled.noImport, context]
  refine ⟨unchanged, fun unlike => unchanged.mpr ?_⟩
  intro line member isBody candidate inContext
  rcases plain.of_mem_migrateLines member with ⟨isLine, _⟩ | ⟨source, inLines, noImport, rfl⟩
  · rw [isBody] at isLine
    exact absurd isLine (by decide)
  · obtain ⟨first, others, rfl⟩ := List.exists_cons_of_ne_nil plain.shared.ne_nil
    exact plain.not_isDoubledIn (unlike first rfl) (clean source inLines noImport)
      (qualified candidate inContext).inFlat (qualified candidate inContext).token

/-! A class that keeps its name, and one with a new name that may end in the first package. -/

def beingMigration (newWorld : Text) : Migration where
  mapping := .ofLines
    ["net/minecraft/Being x/Being".toList, "net/minecraft/World x/".toList ++ newWorld]
  rules := ⟨"net.minecraft".toList, [], [], .legacy⟩

def beingPackages : List Text := ["net".toList, "minecraft".toList]

def beingLines : List Text :=
  ["import net.minecraft.Being;".toList, "import net.minecraft.World;".toList,
    "World.minecraft.Being".toList]

theorem beingLines_clean : ∀ line ∈ beingLines, isImportLine line = false →
    Text.HasCleanPackages beingPackages line := by
  decide +kernel

theorem migrateLines_again_level :
    (beingMigration "Level".toList).IsPlain beingPackages ∧
      (∀ line ∈ beingLines, isImportLine line = false → Text.HasCleanPackages beingPackages line) ∧
      (∀ first ∈ beingPackages.head?, ∀ rename ∈ (beingMigration "Level".toList).mapping.flat,
        ¬first <:+ rename.target.name) ∧
      ((beingMigration "Level".toList).migrateLines
          ((beingMigration "Level".toList).migrateLines beingLines).1).1 =
        ((beingMigration "Level".toList).migrateLines beingLines).1 := by
  have plain : (beingMigration "Level".toList).IsPlain beingPackages := by decide +kernel
  have unlike : ∀ first ∈ beingPackages.head?,
      ∀ rename ∈ (beingMigration "Level".toList).mapping.flat, ¬first <:+ rename.target.name := by
    intro first isFirst
    obtain rfl : "net".toList = first := by simpa [beingPackages] using isFirst
    decide +kernel
  exact ⟨plain, beingLines_clean, unlike,
    (migrateLines_again_iff _ beingPackages beingLines plain beingLines_clean).2 unlike⟩

theorem migrateLines_again_net :
    (beingMigration "Xnet".toList).IsPlain beingPackages ∧
      (∀ line ∈ beingLines, isImportLine line = false → Text.HasCleanPackages beingPackages line) ∧
      ((beingMigration "Xnet".toList).migrateLines beingLines).1 =
        ["net.minecraft.Xnet.minecraft.net.minecraft.Being".toList] ∧
      ((beingMigration "Xnet".toList).migrateLines
          ((beingMigration "Xnet".toList).migrateLines beingLines).1).1 ≠
        ((beingMigration "Xnet".toList).migrateLines beingLines).1 := by
  have once : ((beingMigration "Xnet".toList).migrateLines beingLines).1 =
      ["net.minecraft.Xnet.minecraft.net.minecraft.Being".toList] := by cbv
  have again : ((beingMigration "Xnet".toList).migrateLines
      ["net.minecraft.Xnet.minecraft.net.minecraft.Being".toList]).1 =
        ["net.minecraft.Xnet.minecraft.Being".toList] := by cbv
  refine ⟨by decide +kernel, beingLines_clean, once, ?_⟩
  rw [once, again]
  decide

end NameMigration
