import Mathlib.Data.List.TakeWhile
import NameMigration.Proofs.PlainMapping

/-!
Packages that stand twice in front of a name. A replacement leaves out the package where one stands
already, so this only comes about when a new name makes up the first part of a package afterwards.
-/

namespace NameMigration

open Text (isAlphabetic isNameChar IsLetterRun qualifierOf qualifierPieces)

def Candidate.IsDoubledIn (candidate : Candidate) (context : UnitContext) (rules : Rules)
    (line : Text) : Prop :=
  ∃ left right, line = left.reverse ++ (candidate.token ++ right) ∧
    candidate.accepts context rules left right = true ∧
    followsQualifier candidate.rename.legacy.qualifier left = true

namespace Text

def doubledPieces (first : Text) (others : List Text) (word : Text) : List Text :=
  word :: ['.'] :: (qualifierPieces others ++ qualifierPieces (first :: others))

def StandsTwice (first : Text) (others names : List Text) (line : Text) : Prop :=
  ∃ word name before after, first <:+ word ∧ name ∈ names ∧
    line.pieces = before ++ (doubledPieces first others word ++ name :: after)

theorem exists_pieces_append_run {run : Text} (isRun : IsLetterRun run) (text : Text) :
    ∃ before word, pieces (text ++ run) = before ++ [word] ∧ run <:+ word := by
  have parts := List.takeWhile_append_dropWhile (p := isAlphabetic) (l := text.reverse)
  have stops := List.head?_dropWhile_not isAlphabetic text.reverse
  have letters : ∀ c ∈ text.reverse.takeWhile isAlphabetic, isAlphabetic c = true :=
    fun c member => List.mem_takeWhile_imp member
  generalize text.reverse.takeWhile isAlphabetic = letterPart at parts letters
  generalize text.reverse.dropWhile isAlphabetic = rest at parts stops
  have split : text ++ run = rest.reverse ++ (letterPart.reverse ++ run) := by
    rw [← List.reverse_reverse text, ← parts]
    simp
  have apart : rest.reverse.getLast?.any isAlphabetic = false := by
    rw [List.getLast?_reverse]
    cases rest with
    | nil => rfl
    | cons c others => simpa using stops
  have wordRun : IsLetterRun (letterPart.reverse ++ run) := by
    refine ⟨by simp [isRun.1], ?_⟩
    intro c member
    rcases List.mem_append.mp member with inLetters | inRun
    · exact letters c (by simpa using inLetters)
    · exact isRun.2 c inRun
  refine ⟨pieces rest.reverse, letterPart.reverse ++ run, ?_, List.suffix_append _ _⟩
  rw [split, pieces_append (Or.inl apart), wordRun.pieces]

end Text

variable {first : Text} {others names : List Text} {line changed : Text} {candidate : Candidate}
  {context : UnitContext} {rules : Rules}

theorem followsQualifier_iff {qualifier left : Text} :
    followsQualifier qualifier left = true ↔ qualifier <:+ left.reverse := by
  rw [followsQualifier, List.isPrefixOf_iff_prefix, ← List.reverse_suffix, List.reverse_reverse]

theorem followsQualifier_of_pieces {left word : Text} {before : List Text} (wordEnds : first <:+ word)
    (pieces : Text.pieces left.reverse = before ++ word :: ['.'] :: qualifierPieces others) :
    followsQualifier (qualifierOf (first :: others)) left = true := by
  obtain ⟨more, rfl⟩ := wordEnds
  have whole := congrArg List.flatten pieces
  simp only [Text.flatten_pieces, List.flatten_append, List.flatten_cons,
    Text.flatten_qualifierPieces] at whole
  rw [followsQualifier_iff, whole, Text.qualifierOf_cons]
  exact ⟨before.flatten ++ more, by simp⟩

theorem Candidate.Splices.standsTwice_origin (shared : ArePackages (first :: others))
    (plain : candidate.IsPlain (first :: others)) (legacyStyle : rules.style = .legacy)
    (isName : candidate.rename.key ∈ names)
    (namesApart : ∀ name ∈ names, IsLetterRun name ∧ name ∉ first :: others)
    (unlike : ¬first <:+ candidate.rename.target.name)
    (splices : candidate.Splices context rules line changed)
    (twice : Text.StandsTwice first others names changed) :
    Text.StandsTwice first others names line := by
  have targetRun := plain.rename.target_run.isLetterRun
  obtain ⟨word, name, before, after, wordEnds, member, pieces⟩ := twice
  cases splices with
  | @intro left right accepted =>
      have standalone := Candidate.isStandalone_of_accepts accepted
      obtain ⟨front, isFront, spelled⟩ := plain.pieces_referred shared standalone
      have absent : candidate.rename.target.name ∉ Text.doubledPieces first others word := by
        have notMember := mt (Text.mem_of_mem_qualifierPieces targetRun) plain.rename.target_notMem
        simp only [Text.doubledPieces, Text.qualifierPieces_cons, List.mem_cons, List.mem_append,
          not_or] at notMember ⊢
        exact ⟨fun same => unlike (same ▸ wordEnds), notMember.2.1, notMember.2.2, notMember⟩
      have writtenRuns : ∀ package ∈ packagesAt (first :: others) left, IsLetterRun package := by
        rcases packagesAt_cases (first :: others) left with none | all
        · simp [none]
        · rw [all]
          exact shared.letterRuns
      rw [legacyStyle, plain.rename.placeBehind, List.reverse_append, List.reverse_reverse,
        List.append_assoc, Text.pieces_spelled writtenRuns targetRun standalone] at pieces
      rcases Text.append_cons_eq_append_append absent pieces with ⟨more, inFront⟩ | ⟨between, beforeEq, behind⟩
      · have rest : more ++ candidate.rename.target.name :: Text.pieces right = name :: after := by
          rw [inFront] at pieces
          simpa using pieces
        cases more with
        | nil =>
            -- The new name was itself put in behind packages that stand twice.
            rw [List.append_nil] at inFront
            unfold packagesAt at inFront
            split at inFront
            · rw [Text.qualifierPieces_nil, List.append_nil] at inFront
              rcases isFront with rfl | rfl
              · exact ⟨word, _, before, Text.pieces right, wordEnds, isName, by simp [spelled, inFront]⟩
              · exact ⟨first, _, before ++ word :: ['.'] :: qualifierPieces others, Text.pieces right,
                  List.suffix_rfl, isName, by
                    simp [spelled, inFront, Text.doubledPieces, Text.qualifierPieces_cons]⟩
            · rename_i notFollows
              have leftPieces : Text.pieces left.reverse =
                  before ++ word :: ['.'] :: qualifierPieces others := by
                apply (List.append_left_inj (qualifierPieces (first :: others))).mp
                simpa [Text.doubledPieces] using inFront
              exact absurd (followsQualifier_of_pieces wordEnds leftPieces) notFollows
        | cons head more =>
            rw [List.cons_append, List.cons.injEq] at rest
            obtain ⟨rfl, _⟩ := rest
            have nameAbsent : head ∉ qualifierPieces (packagesAt (first :: others) left) := by
              intro inPieces
              rcases packagesAt_cases (first :: others) left with none | all
              · simp [none] at inPieces
              · rw [all] at inPieces
                exact (namesApart head member).2
                  (Text.mem_of_mem_qualifierPieces (namesApart head member).1 inPieces)
            have split : Text.pieces left.reverse ++
                qualifierPieces (packagesAt (first :: others) left) =
                  (before ++ Text.doubledPieces first others word) ++ head :: more := by
              simp [inFront]
            obtain ⟨behind, whole⟩ := Text.append_eq_append_cons nameAbsent split
            refine ⟨word, head, before,
              behind ++ (qualifierPieces front ++ candidate.rename.key :: Text.pieces right),
              wordEnds, member, ?_⟩
            rw [spelled, whole]
            simp
      · refine ⟨word, name, (Text.pieces left.reverse ++ qualifierPieces front) ++
          candidate.rename.key :: between, after, wordEnds, member, ?_⟩
        rw [spelled, behind]
        simp

theorem Text.HasCleanPackages.not_standsTwice (clean : HasCleanPackages (first :: others) line) :
    ¬StandsTwice first others names line := by
  rintro ⟨word, name, before, after, _, _, pieces⟩
  have dotted : ∃ more, '.' :: qualifierOf others = more ++ ['.'] := by
    cases others with
    | nil => exact ⟨[], rfl⟩
    | cons second rest =>
        obtain ⟨more, ends⟩ := exists_qualifierOf_eq_append_dot (List.cons_ne_nil second rest)
        exact ⟨'.' :: more, by simp [ends]⟩
  obtain ⟨more, ends⟩ := dotted
  have whole := congrArg List.flatten pieces
  simp only [flatten_pieces, List.flatten_append, doubledPieces, List.flatten_cons,
    flatten_qualifierPieces] at whole
  have here : line = (before.flatten ++ (word ++ ('.' :: qualifierOf others))) ++
      (qualifierOf (first :: others) ++ (name ++ after.flatten)) := by simpa using whole
  have notName := (clean _ _ here '.' (by simp [ends])).2
  exact absurd notName (by decide)

theorem Candidate.IsDoubledIn.standsTwice (shared : ArePackages (first :: others))
    (plain : candidate.rename.IsPlain (first :: others)) (isName : candidate.rename.key ∈ names)
    (token : candidate.token = qualifierOf (first :: others) ++ candidate.rename.key)
    (doubled : candidate.IsDoubledIn context rules line) :
    Text.StandsTwice first others names line := by
  obtain ⟨left, right, rfl, accepted, follows⟩ := doubled
  have standalone := isStandalone_of_accepts accepted
  have firstRun := shared.letterRuns first (by simp)
  have otherRuns : ∀ package ∈ others, IsLetterRun package :=
    fun package member => shared.letterRuns package (List.mem_cons_of_mem first member)
  rw [plain.qualifier, followsQualifier_iff] at follows
  obtain ⟨front, leftEq⟩ := follows
  obtain ⟨before, word, lastPiece, wordEnds⟩ := Text.exists_pieces_append_run firstRun front
  have leftPieces : Text.pieces left.reverse =
      before ++ word :: ['.'] :: qualifierPieces others := by
    have otherPieces := Text.pieces_qualifierOf_append others otherRuns []
    rw [Text.pieces_nil, List.append_nil, List.append_nil] at otherPieces
    rw [← leftEq, Text.qualifierOf_cons, ← List.append_assoc,
      Text.pieces_append (Or.inr (by simp [Text.isAlphabetic_dot])), lastPiece,
      Text.pieces_cons Text.isAlphabetic_dot, otherPieces]
    simp
  refine ⟨word, candidate.rename.key, before, Text.pieces right, wordEnds, isName, ?_⟩
  rw [token, Text.pieces_spelled shared.letterRuns plain.key_run.isLetterRun standalone, leftPieces]
  simp [Text.doubledPieces]

theorem Migration.IsPlain.not_isDoubledIn {migration : Migration} {lines : List Text}
    (plain : migration.IsPlain (first :: others))
    (unlike : ∀ rename ∈ migration.mapping.flat, ¬first <:+ rename.target.name)
    (clean : Text.HasCleanPackages (first :: others) line)
    (inFlat : candidate.rename ∈ migration.mapping.flat)
    (token : candidate.token = qualifierOf (first :: others) ++ candidate.rename.key) :
    ¬candidate.IsDoubledIn context rules (applyCandidates (migration.context lines).candidates
      (migration.context lines) migration.rules line).1 := by
  have namesApart : ∀ name ∈ migration.mapping.flat.map Rename.key,
      IsLetterRun name ∧ name ∉ first :: others := by
    intro name member
    obtain ⟨rename, ofMapping, rfl⟩ := List.mem_map.mp member
    exact ⟨(plain.plain rename ofMapping).key_run.isLetterRun, (plain.plain rename ofMapping).key_notMem⟩
  have single : ¬Text.StandsTwice first others (migration.mapping.flat.map Rename.key)
      (applyCandidates (migration.context lines).candidates (migration.context lines)
        migration.rules line).1 := by
    refine applyCandidates_preserves (motive := fun text =>
      ¬Text.StandsTwice first others (migration.mapping.flat.map Rename.key) text) ?_
      clean.not_standsTwice
    intro other member before after splices singleBefore twice
    have otherInFlat := plain.mem_flat member
    exact singleBefore (splices.standsTwice_origin plain.shared (plain.candidate member)
      plain.legacyStyle (List.mem_map.mpr ⟨_, otherInFlat, rfl⟩) namesApart (unlike _ otherInFlat)
      twice)
  intro doubled
  exact single (doubled.standsTwice plain.shared (plain.plain _ inFlat)
    (List.mem_map.mpr ⟨_, inFlat, rfl⟩) token)

end NameMigration
