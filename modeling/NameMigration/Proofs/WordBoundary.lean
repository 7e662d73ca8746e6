import Mathlib
import NameMigration.Proofs.LetterRuns
import NameMigration.Proofs.Scan
import NameMigration.Proofs.UnitCandidates

/-!
The flat pass leaves words outside the mapping alone. A replacement only happens between two
boundaries, so the words in front of it and behind it stay as they are, and both what it takes out
and what it puts in are made of words of the mapping.
-/

namespace NameMigration

open Text (isAlphabetic IsLetterRun qualifierOf)

structure Rename.IsLettered (rename : Rename) : Prop where
  qualifier : ∃ packages, rename.legacy.qualifier = qualifierOf packages ∧
    ∀ package ∈ packages, IsLetterRun package
  legacyName : Text.IsLettered rename.legacy.name
  targetName : Text.IsLettered rename.target.name

def Rename.vocabulary (rename : Rename) : List Text :=
  rename.legacy.qualified.segments ++ rename.target.name.segments

def vocabulary (candidates : List Candidate) : List Text :=
  candidates.flatMap (·.rename.vocabulary)

/-- The words of a line that do not belong to the given ones, from left to right. -/
def Text.foreignRuns (own : List Text) (line : Text) : List Text :=
  line.letterRuns.filter (!own.contains ·)

theorem Text.foreignRuns_append {own : List Text} {left right : Text}
    (apart : left.getLast?.any isAlphabetic = false ∨ right.head?.any isAlphabetic = false) :
    foreignRuns own (left ++ right) = left.foreignRuns own ++ right.foreignRuns own := by
  simp [foreignRuns, letterRuns_append apart]

theorem Text.IsLettered.foreignRuns {own : List Text} {text : Text} (lettered : text.IsLettered)
    (contained : text.segments ⊆ own) : text.foreignRuns own = [] := by
  rw [Text.foreignRuns, lettered.letterRuns, List.filter_eq_nil_iff]
  intro part member
  simpa using contained member

namespace Rename

variable {rename : Rename}

theorem IsLettered.qualified_append (lettered : rename.IsLettered) {name : Text}
    (nameLettered : name.IsLettered) : (rename.legacy.qualifier ++ name).IsLettered := by
  obtain ⟨packages, qualifier, areRuns⟩ := lettered.qualifier
  intro part member
  rw [qualifier, Text.segments_qualifierOf_append packages areRuns] at member
  rcases List.mem_append.mp member with inQualifier | inName
  · exact areRuns part inQualifier
  · exact nameLettered part inName

theorem IsLettered.segments_qualified_subset (lettered : rename.IsLettered) :
    (rename.legacy.qualifier ++ rename.target.name).segments ⊆ rename.vocabulary := by
  obtain ⟨packages, qualifier, areRuns⟩ := lettered.qualifier
  intro part member
  rw [vocabulary, ClassName.qualified]
  rw [qualifier, Text.segments_qualifierOf_append packages areRuns] at member ⊢
  rcases List.mem_append.mp member with inQualifier | inName
  · exact List.mem_append_left _ (List.mem_append_left _ inQualifier)
  · exact List.mem_append_right _ inName

theorem IsLettered.segments_legacyName_subset (lettered : rename.IsLettered) :
    rename.legacy.name.segments ⊆ rename.vocabulary := by
  obtain ⟨packages, qualifier, areRuns⟩ := lettered.qualifier
  intro part member
  rw [vocabulary, ClassName.qualified, qualifier, Text.segments_qualifierOf_append packages areRuns]
  exact List.mem_append_left _ (List.mem_append_right _ member)

theorem IsLettered.searchToken (lettered : rename.IsLettered) (isImported : Bool) :
    (rename.searchToken isImported).IsLettered ∧
      (rename.searchToken isImported).segments ⊆ rename.vocabulary := by
  have whole : ∀ token : Text,
      token = (if isImported then rename.legacy.name else rename.legacy.qualified) →
      token.IsLettered ∧ token.segments ⊆ rename.vocabulary := by
    intro token chosen
    subst chosen
    cases isImported with
    | true => exact ⟨lettered.legacyName, lettered.segments_legacyName_subset⟩
    | false => exact ⟨lettered.qualified_append lettered.legacyName, List.subset_append_left _ _⟩
  obtain ⟨areRuns, contained⟩ := whole _ rfl
  simp only [Rename.searchToken]
  split
  · rename_i first last parts
    have lastMember : last ∈ [first, last] := by simp
    rw [← parts] at lastMember
    have lastRun := areRuns last lastMember
    refine ⟨lastRun.isLettered, ?_⟩
    rw [lastRun.segments]
    intro part member
    exact List.mem_singleton.mp member ▸ contained lastMember
  · exact ⟨areRuns, contained⟩

theorem IsLettered.placeBehind (lettered : rename.IsLettered) (left : Text) :
    ∃ inserted : Text, rename.placeBehind .legacy left = inserted.reverse ++ left ∧
      inserted.IsLettered ∧ inserted.segments ⊆ rename.vocabulary := by
  by_cases follows : followsQualifier rename.legacy.qualifier left = true
  · exact ⟨rename.target.name, by simp [Rename.placeBehind, follows], lettered.targetName,
      List.subset_append_right _ _⟩
  · exact ⟨rename.legacy.qualifier ++ rename.target.name, by simp [Rename.placeBehind, follows],
      lettered.qualified_append lettered.targetName, lettered.segments_qualified_subset⟩

end Rename

theorem Candidate.Splices.foreignRuns_eq {candidate : Candidate} {context : UnitContext}
    {rules : Rules} {own : List Text} {line changed : Text} {isImported : Bool}
    (legacyStyle : rules.style = .legacy)
    (lettered : candidate.rename.IsLettered)
    (searched : candidate.token = candidate.rename.searchToken isImported)
    (contained : candidate.rename.vocabulary ⊆ own)
    (splices : candidate.Splices context rules line changed) :
    changed.foreignRuns own = line.foreignRuns own := by
  cases splices with
  | @intro left right accepted =>
      obtain ⟨leftApart, rightApart⟩ := isStandalone_iff.mp (isStandalone_of_accepts accepted)
      have leftEnd : left.reverse.getLast?.any isAlphabetic = false := by
        rwa [List.getLast?_reverse]
      obtain ⟨tokenLettered, tokenOwn⟩ := lettered.searchToken isImported
      rw [← searched] at tokenLettered tokenOwn
      have tokenSilent := tokenLettered.foreignRuns (List.Subset.trans tokenOwn contained)
      obtain ⟨inserted, placed, insertedLettered, insertedOwn⟩ := lettered.placeBehind left
      have insertedSilent := insertedLettered.foreignRuns
        (List.Subset.trans insertedOwn contained)
      rw [legacyStyle, placed, List.reverse_append, List.reverse_reverse, List.append_assoc,
        Text.foreignRuns_append (Or.inl leftEnd), Text.foreignRuns_append (Or.inr rightApart),
        Text.foreignRuns_append (Or.inl leftEnd), Text.foreignRuns_append (Or.inr rightApart),
        insertedSilent, tokenSilent]

/-- The words of a line outside the mapping come through the flat pass unchanged and in order. -/
theorem foreignRuns_applyCandidates (context : UnitContext) (rules : Rules)
    (legacyStyle : rules.style = .legacy)
    (lettered : ∀ candidate ∈ context.candidates, candidate.rename.IsLettered) (line : Text) :
    (applyCandidates context.candidates context rules line).1.foreignRuns
        (vocabulary context.candidates) =
      line.foreignRuns (vocabulary context.candidates) := by
  have step : ∀ candidate ∈ context.candidates, ∀ before after,
      candidate.Splices context rules before after →
      before.foreignRuns (vocabulary context.candidates) =
        line.foreignRuns (vocabulary context.candidates) →
      after.foreignRuns (vocabulary context.candidates) =
        line.foreignRuns (vocabulary context.candidates) := by
    intro candidate member before after splices kept
    obtain ⟨isImported, _, searched⟩ := UnitContext.mem_candidates_iff.mp member
    have contained : candidate.rename.vocabulary ⊆ vocabulary context.candidates :=
      fun word ofRename => List.mem_flatMap.mpr ⟨candidate, member, ofRename⟩
    rw [splices.foreignRuns_eq legacyStyle (lettered candidate member) searched contained, kept]
  exact applyCandidates_preserves step rfl

def worldContext : UnitContext where
  explicit := [⟨⟨"a.b.".toList, "World".toList⟩, ⟨"c.".toList, "Level".toList⟩⟩]
  implicit := [⟨⟨"a.b.".toList, "World.Type".toList⟩, ⟨"c.".toList, "Level.Kind".toList⟩⟩]
  foreign := []

def worldRules : Rules := ⟨"a.b".toList, [], [], .legacy⟩

theorem foreignRuns_worldSettings :
    worldRules.style = .legacy ∧
      (∀ candidate ∈ worldContext.candidates, candidate.rename.IsLettered) ∧
      (applyCandidates worldContext.candidates worldContext worldRules
          "World2 a.b.World.Type WorldSettings".toList).1.foreignRuns
            (vocabulary worldContext.candidates) =
        ["WorldSettings".toList] := by
  have lettered : ∀ candidate ∈ worldContext.candidates, candidate.rename.IsLettered := by
    intro candidate member
    rcases UnitContext.rename_mem_of_mem_candidates member with imported | mentioned
    · rw [List.mem_singleton.mp imported]
      exact ⟨⟨["a".toList, "b".toList], by decide, by decide⟩, by decide, by decide⟩
    · rw [List.mem_singleton.mp mentioned]
      exact ⟨⟨["a".toList, "b".toList], by decide, by decide⟩, by decide, by decide⟩
  refine ⟨rfl, lettered, ?_⟩
  rw [foreignRuns_applyCandidates worldContext worldRules rfl lettered]
  cbv

end NameMigration
