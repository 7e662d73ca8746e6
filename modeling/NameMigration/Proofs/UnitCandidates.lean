import NameMigration.Substitution.Candidate

/-!
Where the renames and the candidates of a unit come from: every rename of a unit is one of the
mapping, every rename of a mapping file has names without empty parts, and the candidates of a unit
are those of its renames, the longest token first.
-/

namespace NameMigration

theorem ClassName.nil_notMem_segments_of_ofPath? {path : Text} {className : ClassName}
    (read : ClassName.ofPath? path = some className) : [] ∉ className.name.segments := by
  simp only [ClassName.ofPath?] at read
  split at read
  · exact absurd read (by simp)
  · rename_i proper
    rw [Option.some.injEq] at read
    subst className
    exact fun empty => proper (Or.inr empty)

theorem Rename.ofPath?_of_ofEntry? {line : Text} {rename : Rename}
    (read : Rename.ofEntry? line = some rename) :
    ∃ legacyPath targetPath, ClassName.ofPath? legacyPath = some rename.legacy ∧
      ClassName.ofPath? targetPath = some rename.target := by
  unfold Rename.ofEntry? at read
  split at read
  · rename_i legacyPath targetPath twoWords
    simp only [Option.bind_eq_bind, Option.bind_eq_some_iff] at read
    obtain ⟨legacy, legacyRead, target, targetRead, whole⟩ := read
    split at whole
    · rw [Option.some.injEq] at whole
      subst rename
      exact ⟨legacyPath, targetPath, legacyRead, targetRead⟩
    · exact absurd whole (by simp)
  · exact absurd read (by simp)

theorem Rename.nil_notMem_segments_of_ofEntry? {line : Text} {rename : Rename}
    (read : Rename.ofEntry? line = some rename) :
    [] ∉ rename.legacy.name.segments ∧ [] ∉ rename.target.name.segments := by
  obtain ⟨legacyPath, targetPath, legacyRead, targetRead⟩ := Rename.ofPath?_of_ofEntry? read
  exact ⟨ClassName.nil_notMem_segments_of_ofPath? legacyRead,
    ClassName.nil_notMem_segments_of_ofPath? targetRead⟩

theorem MappingLine.ofEntry?_of_entry {line : Text} {rename : Rename}
    (isEntry : MappingLine.ofText line = .entry rename) :
    ∃ content, Rename.ofEntry? content = some rename := by
  unfold MappingLine.ofText at isEntry
  split at isEntry
  · exact absurd isEntry (by simp)
  · split at isEntry
    · exact absurd isEntry (by simp)
    · exact absurd isEntry (by simp)
    · split at isEntry
      · rename_i read
        rw [MappingLine.entry.injEq] at isEntry
        exact ⟨_, isEntry ▸ read⟩
      · exact absurd isEntry (by simp)

theorem Mapping.mem_addLine {mapping : Mapping} {line : Text} {rename : Rename}
    (member : rename ∈ (mapping.addLine line).renames) :
    rename ∈ mapping.renames ∨ MappingLine.ofText line = .entry rename := by
  unfold Mapping.addLine at member
  split at member
  · exact Or.inl member
  · exact Or.inl member
  · rename_i added isEntry
    rcases mapping.ordered.mem_put_iff.mp member with ⟨-, old⟩ | same
    · exact Or.inl old
    · exact Or.inr (same ▸ isEntry)

theorem Mapping.ofEntry?_of_mem_ofLines {lines : List Text} {rename : Rename}
    (member : rename ∈ (Mapping.ofLines lines).renames) :
    ∃ content, Rename.ofEntry? content = some rename := by
  unfold Mapping.ofLines at member
  have general : ∀ mapping : Mapping, rename ∈ (lines.foldl Mapping.addLine mapping).renames →
      rename ∈ mapping.renames ∨ ∃ content, Rename.ofEntry? content = some rename := by
    clear member
    induction lines with
    | nil => exact fun mapping member => Or.inl member
    | cons line rest ih =>
        intro mapping member
        rcases ih (mapping.addLine line) member with old | read
        · rcases Mapping.mem_addLine old with older | isEntry
          · exact Or.inl older
          · exact Or.inr (MappingLine.ofEntry?_of_entry isEntry)
        · exact Or.inr read
  rcases general Mapping.empty member with impossible | read
  · exact absurd impossible (by simp [Mapping.empty])
  · exact read

theorem Mapping.mem_of_mem_inPackage {mapping : Mapping} {qualifier : Text} {rename : Rename}
    (member : rename ∈ mapping.inPackage qualifier) : rename ∈ mapping.renames := by
  simp only [Mapping.inPackage, Mapping.flat, List.mem_filter] at member
  exact member.1.1

theorem Mapping.mem_of_find? {mapping : Mapping} {name : Text} {rename : Rename}
    (found : mapping.find? name = some rename) : rename ∈ mapping.renames :=
  List.mem_of_find?_eq_some found

theorem Mapping.mem_of_findImported? {mapping : Mapping} {path : Text} {rename : Rename}
    (found : mapping.findImported? path = some rename) : rename ∈ mapping.renames := by
  unfold Mapping.findImported? at found
  split at found
  · exact absurd found (by simp)
  · split at found
    · exact absurd found (by simp)
    · rcases Option.or_eq_some_iff.mp found with inner | ⟨_, plain⟩
      · obtain ⟨outer, _, nested⟩ := Option.bind_eq_some_iff.mp inner
        exact Mapping.mem_of_find? (Option.filter_eq_some_iff.mp nested).1
      · exact Mapping.mem_of_find? plain

theorem Mapping.mem_of_mem_importedBy {mapping : Mapping} {statement : ImportStatement}
    {rename : Rename} (member : rename ∈ mapping.importedBy statement) :
    rename ∈ mapping.renames := by
  unfold Mapping.importedBy at member
  split at member
  · exact Mapping.mem_of_mem_inPackage member
  · exact Mapping.mem_of_findImported? (Option.mem_toList.mp member)

namespace UnitContext

variable {mapping : Mapping} {space : Text} {lines : List Text} {rename : Rename}

theorem mem_of_mem_explicit (member : rename ∈ (ofLines mapping space lines).explicit) :
    rename ∈ mapping.renames := by
  simp only [ofLines, List.mem_eraseDups, List.mem_flatMap] at member
  obtain ⟨statement, _, imported⟩ := member
  exact Mapping.mem_of_mem_importedBy imported

theorem mem_of_mem_implicit (member : rename ∈ (ofLines mapping space lines).implicit) :
    rename ∈ mapping.renames := by
  simp only [ofLines, List.mem_filter, List.mem_flatMap, Mapping.mentionedIn,
    List.mem_eraseDups] at member
  obtain ⟨⟨qualifier, _, line, _, inPackage, _⟩, _⟩ := member
  exact Mapping.mem_of_mem_inPackage inPackage

end UnitContext

theorem Rename.searchToken_of_simple {rename : Rename}
    (simple : rename.key.segments.length = 1) : rename.searchToken true = rename.key := by
  simp only [searchToken, if_true]
  split
  · rename_i first last parts
    rw [key, parts] at simple
    exact absurd simple (by simp)
  · rfl

theorem Candidate.ofRename?_eq_some_iff {rename : Rename} {isImported : Bool}
    {candidate : Candidate} :
    Candidate.ofRename? rename isImported = some candidate ↔
      candidate.rename = rename ∧ candidate.token = rename.searchToken isImported := by
  unfold Candidate.ofRename?
  constructor
  · intro made
    split at made
    · rw [Option.some.injEq] at made
      subst candidate
      exact ⟨rfl, rfl⟩
    · exact absurd made (by simp)
  · rintro ⟨sameRename, sameToken⟩
    have nonempty : rename.searchToken isImported ≠ [] := sameToken ▸ candidate.token_ne_nil
    rw [dif_pos nonempty]
    subst sameRename
    simp only [← sameToken]

namespace UnitContext

variable {context : UnitContext}

theorem mem_candidates_iff {candidate : Candidate} :
    candidate ∈ context.candidates ↔ ∃ isImported, (candidate.rename, isImported) ∈ context.renames ∧
      candidate.token = candidate.rename.searchToken isImported := by
  simp only [candidates, List.mem_mergeSort, List.mem_filterMap, Prod.exists]
  constructor
  · rintro ⟨rename, isImported, member, made⟩
    obtain ⟨sameRename, sameToken⟩ := Candidate.ofRename?_eq_some_iff.mp made
    subst sameRename
    exact ⟨isImported, member, sameToken⟩
  · rintro ⟨isImported, member, sameToken⟩
    exact ⟨candidate.rename, isImported, member, Candidate.ofRename?_eq_some_iff.mpr ⟨rfl, sameToken⟩⟩

theorem mem_renames_iff {rename : Rename} {isImported : Bool} :
    (rename, isImported) ∈ context.renames ↔
      (isImported = true ∧ rename ∈ context.explicit) ∨
        (isImported = false ∧ rename ∈ context.implicit) := by
  cases isImported with
  | true => simp [renames]
  | false => simp [renames]

theorem rename_mem_of_mem_candidates {candidate : Candidate}
    (member : candidate ∈ context.candidates) :
    candidate.rename ∈ context.explicit ∨ candidate.rename ∈ context.implicit := by
  obtain ⟨isImported, ofContext, _⟩ := mem_candidates_iff.mp member
  rcases mem_renames_iff.mp ofContext with ⟨_, imported⟩ | ⟨_, mentioned⟩
  · exact Or.inl imported
  · exact Or.inr mentioned

theorem rename_mem_of_mem_candidates_ofLines {mapping : Mapping} {space : Text} {lines : List Text}
    {candidate : Candidate} (member : candidate ∈ (ofLines mapping space lines).candidates) :
    candidate.rename ∈ mapping.renames := by
  rcases rename_mem_of_mem_candidates member with imported | mentioned
  · exact mem_of_mem_explicit imported
  · exact mem_of_mem_implicit mentioned

theorem candidates_ordered (context : UnitContext) :
    context.candidates.Pairwise fun first second =>
      second.token.utf8Length ≤ first.token.utf8Length := by
  have sorted := @List.pairwise_mergeSort Candidate
    (fun first second => decide (second.token.utf8Length ≤ first.token.utf8Length))
    (by intro first second third; simp only [decide_eq_true_eq]; omega)
    (by intro first second; simp only [Bool.or_eq_true, decide_eq_true_eq]; omega)
    (context.renames.filterMap fun pair => Candidate.ofRename? pair.1 pair.2)
  simpa only [candidates, decide_eq_true_eq] using sorted

end UnitContext

end NameMigration
