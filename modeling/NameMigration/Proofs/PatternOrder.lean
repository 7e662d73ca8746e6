import NameMigration.Proofs.QualifierStyles
import NameMigration.Proofs.QuietLines

/-!
The nested pass without its groups. A group is left out on a line in which its qualifier does not stand,
and the line that it meets is the one that the groups before it have made. A line without the qualifier
has none of the group's patterns, so the pass does the same as all the patterns one after the other, by
qualifier and then by legacy name.
-/

namespace NameMigration

/-! ### Groups that are left out -/

namespace NestedGroup

variable {group : NestedGroup} {groups : List NestedGroup}

/-- A group that is left out would have found nothing. -/
theorem apply_eq_applyAll (uniform : group.IsUniform) (style : QualifierStyle) (line : Text) :
    group.apply style line = NestedPattern.applyAll style group.patterns line := by
  by_cases occurs : Text.occurs group.qualifier line = true
  · rw [apply, if_pos occurs]
  · have leftOut : group.apply style line = (line, 0) := if_neg occurs
    have noneFound := (apply_count_eq_zero_iff uniform).mp (congrArg Prod.snd leftOut)
    have idle : (NestedPattern.applyAll style group.patterns line).2 = 0 :=
      NestedPattern.applyAll_count_eq_zero_iff.mpr noneFound
    rw [leftOut]
    exact (inSequence_of_count_eq_zero (fun _ _ => NestedPattern.apply_of_count_eq_zero) idle).symm

/-- The line that a group meets is that of the patterns before it, so the groups can be taken apart one
by one. -/
theorem applyAll_eq_patterns (uniform : ∀ group ∈ groups, group.IsUniform) (style : QualifierStyle)
    (line : Text) :
    applyAll style groups line = NestedPattern.applyAll style (groups.flatMap (·.patterns)) line := by
  induction groups generalizing line with
  | nil => rfl
  | cons group rest ih =>
      have first := apply_eq_applyAll (uniform group List.mem_cons_self) style line
      have others := ih fun other member => uniform other (List.mem_cons_of_mem group member)
      simp only [applyAll, NestedPattern.applyAll] at first others ⊢
      rw [List.flatMap_cons, inSequence_append, inSequence_cons, ← first, ← others]

end NestedGroup

/-! ### The order of the patterns -/

namespace NestedPattern

def ComesBefore (first second : NestedPattern) : Prop :=
  first.qualifier < second.qualifier ∨
    first.qualifier = second.qualifier ∧ first.rename.key < second.rename.key

instance (first second : NestedPattern) : Decidable (first.ComesBefore second) :=
  inferInstanceAs (Decidable (_ ∨ _))

/-- The order of the patterns is that of the pairs of qualifier and legacy name. -/
theorem comesBefore_iff {first second : NestedPattern} : first.ComesBefore second ↔
    toLex (first.qualifier, first.rename.key) < toLex (second.qualifier, second.rename.key) := by
  rw [Prod.Lex.toLex_lt_toLex]
  rfl

theorem ComesBefore.asymm {first second : NestedPattern} (before : first.ComesBefore second) :
    ¬second.ComesBefore first := by
  rw [comesBefore_iff] at before ⊢
  exact before.asymm

end NestedPattern

namespace Mapping

variable {mapping : Mapping} {style : QualifierStyle}

def nestedPatterns (mapping : Mapping) (style : QualifierStyle) : List NestedPattern :=
  mapping.nested.filterMap (NestedPattern.ofRename? style)

def sortedPatterns (mapping : Mapping) (style : QualifierStyle) : List NestedPattern :=
  (mapping.nestedPatterns style).mergeSort fun first second => !decide (second.ComesBefore first)

theorem nestedPatterns_pairwise (mapping : Mapping) (style : QualifierStyle) :
    (mapping.nestedPatterns style).Pairwise fun first second =>
      first.rename.key < second.rename.key := by
  refine List.pairwise_filterMap.mpr ((mapping.ordered.filter _).imp ?_)
  intro rename other before pattern made next madeNext
  rwa [NestedPattern.rename_of_ofRename? made, NestedPattern.rename_of_ofRename? madeNext]

theorem sortedPatterns_perm (mapping : Mapping) (style : QualifierStyle) :
    (mapping.sortedPatterns style).Perm (mapping.nestedPatterns style) :=
  List.mergeSort_perm _ _

/-- No two patterns have one legacy name, so of any two one comes before the other. -/
theorem sortedPatterns_pairwise (mapping : Mapping) (style : QualifierStyle) :
    (mapping.sortedPatterns style).Pairwise NestedPattern.ComesBefore := by
  have sorted : (mapping.sortedPatterns style).Pairwise fun first second =>
      ¬second.ComesBefore first := by
    refine (List.pairwise_mergeSort ?_ ?_ _).imp (fun before => by simpa using before)
    · intro first second third before after
      simp only [Bool.not_eq_true', decide_eq_false_iff_not, NestedPattern.comesBefore_iff,
        not_lt] at *
      exact before.trans after
    · intro first second
      simp only [Bool.or_eq_true, Bool.not_eq_true', decide_eq_false_iff_not,
        NestedPattern.comesBefore_iff, not_lt]
      exact le_total _ _
  have distinct : (mapping.sortedPatterns style).Pairwise fun first second =>
      first.rename.key ≠ second.rename.key :=
    ((mapping.nestedPatterns_pairwise style).imp ne_of_lt).perm
      (mapping.sortedPatterns_perm style).symm Ne.symm
  refine (sorted.and distinct).imp ?_
  rintro first second ⟨notAfter, different⟩
  rw [NestedPattern.comesBefore_iff] at notAfter ⊢
  refine lt_of_le_of_ne (not_lt.mp notAfter) ?_
  intro same
  exact different (Prod.ext_iff.mp (toLex.injective same)).2

/-- The groups are in the order of their qualifiers, and each has its patterns in the order of the
renames. -/
theorem flatMap_nestedGroups_pairwise (mapping : Mapping) (style : QualifierStyle) :
    ((mapping.nestedGroups style).flatMap (·.patterns)).Pairwise NestedPattern.ComesBefore := by
  rw [nestedGroups, List.flatMap_map, List.pairwise_flatMap]
  constructor
  · intro qualifier _
    refine ((mapping.nestedPatterns_pairwise style).filter _).imp_of_mem ?_
    intro first second isFirst isSecond before
    have ofFirst : first.qualifier = qualifier := by simpa using (List.mem_filter.mp isFirst).2
    have ofSecond : second.qualifier = qualifier := by simpa using (List.mem_filter.mp isSecond).2
    exact Or.inr ⟨ofFirst.trans ofSecond.symm, before⟩
  · refine (Text.ordered_pairwise _).imp ?_
    intro qualifier other below first isFirst second isSecond
    have ofFirst : first.qualifier = qualifier := by simpa using (List.mem_filter.mp isFirst).2
    have ofSecond : second.qualifier = other := by simpa using (List.mem_filter.mp isSecond).2
    exact Or.inl (ofFirst ▸ ofSecond ▸ below)

theorem mem_flatMap_nestedGroups {pattern : NestedPattern} :
    pattern ∈ (mapping.nestedGroups style).flatMap (·.patterns) ↔
      pattern ∈ mapping.nestedPatterns style := by
  simp only [nestedGroups, List.flatMap_map, List.mem_flatMap, Text.mem_ordered, List.mem_map,
    List.mem_filter, decide_eq_true_eq]
  constructor
  · rintro ⟨_, _, isPattern, _⟩
    exact isPattern
  · intro isPattern
    exact ⟨pattern.qualifier, ⟨pattern, isPattern, rfl⟩, isPattern, rfl⟩

theorem flatMap_nestedGroups (mapping : Mapping) (style : QualifierStyle) :
    (mapping.nestedGroups style).flatMap (·.patterns) = mapping.sortedPatterns style := by
  refine eq_of_pairwise_of_mem_iff (fun _ _ => NestedPattern.ComesBefore.asymm)
    (mapping.flatMap_nestedGroups_pairwise style) (mapping.sortedPatterns_pairwise style) ?_
  intro pattern
  rw [mem_flatMap_nestedGroups, (mapping.sortedPatterns_perm style).mem_iff]

end Mapping

/-- The nested pass gives every line and count that its patterns give when all of them are tried, by
qualifier and then by legacy name, whether their qualifier stands in the line or not. -/
theorem nestedGroups_applyAll_eq (mapping : Mapping) (style : QualifierStyle) :
    (mapping.sortedPatterns style).Perm (mapping.nested.filterMap (NestedPattern.ofRename? style)) ∧
      (mapping.sortedPatterns style).Pairwise NestedPattern.ComesBefore ∧
      ∀ line, NestedGroup.applyAll style (mapping.nestedGroups style) line =
        NestedPattern.applyAll style (mapping.sortedPatterns style) line := by
  refine ⟨mapping.sortedPatterns_perm style, mapping.sortedPatterns_pairwise style, ?_⟩
  intro line
  rw [NestedGroup.applyAll_eq_patterns (fun _ => Mapping.isUniform_of_mem_nestedGroups) style line,
    mapping.flatMap_nestedGroups style]

/-- The first group makes the qualifier `b.` that the second one is looked up by. -/
example :
    let groups := (Mapping.ofLines
      ["a/Jar$Lid q/Pot$b".toList, "b/Box$Top q/Crate$Cap".toList]).nestedGroups .legacy
    groups.map (·.qualifier) = ["a.".toList, "b.".toList] ∧
      Text.occurs "b.".toList "a.Pot.Lid.Crate.Top".toList = false ∧
      NestedGroup.applyAll .legacy groups "a.Pot.Lid.Crate.Top".toList =
        ("a.Pot.b.Crate.Cap".toList, 2) := by
  refine ⟨?_, ?_, ?_⟩ <;> cbv

end NameMigration
