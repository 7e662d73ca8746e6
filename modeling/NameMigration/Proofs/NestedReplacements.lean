import NameMigration.Proofs.MemberReferences
import NameMigration.Proofs.PlainMentions
import NameMigration.Proofs.QualifierStyles

/-!
The replacements of a nested pass, one by one. The pass looks at the character behind a reference before
it replaces that, and never at the one in front. So a reference that goes on with a letter stays, while
one that ends a longer name is replaced like a whole one, and every mapping with a nested pattern has
lines where this happens.
-/

namespace NameMigration

open Text (isAlphabetic)

/-- What has been written behind a replacement ends like the new name. -/
theorem Rename.head?_placeBehind (rename : Rename) (style : QualifierStyle) (left : Text)
    (named : rename.target.name ≠ []) :
    (rename.placeBehind style left).head? = rename.target.name.getLast? := by
  have isLast := List.getLast?_eq_some_getLast named
  by_cases follows : followsQualifier rename.legacy.qualifier left = true <;> cases style <;>
    simp [placeBehind, follows, ClassName.qualified, List.head?_append, isLast]

/-! ### The replacements of one pattern -/

namespace NestedPattern

variable {pattern : NestedPattern} {style : QualifierStyle} {left rest behind source line result : Text}
  {c : Char} {count : Nat} {replacement : Replacement}

def Replaces (pattern : NestedPattern) (line behind : Text) : Prop :=
  behind ∈ Text.followers pattern.token line ∧ behind.head?.any isAlphabetic = false

instance (pattern : NestedPattern) (line behind : Text) : Decidable (pattern.Replaces line behind) :=
  inferInstanceAs (Decidable (_ ∧ _))

theorem replaces_iff_mem (style : QualifierStyle) (left : Text) : pattern.Replaces line behind ↔
    ∃ replacement ∈ (pattern.search style).replacements left line, replacement.right = behind := by
  rw [← List.mem_map, replacements_right ((pattern.search style).scans_scan left line),
    List.mem_filter, Replaces, Bool.not_eq_true']

/-- The character that is in front of a reference when it is replaced. The end of another reference
directly in front of it has been replaced by then. -/
def charBefore? (pattern : NestedPattern) (line front behind : Text) : Option Char :=
  if pattern.Replaces line (pattern.token ++ behind) then pattern.rename.target.name.getLast?
  else front.getLast?

theorem not_replaces_self : ¬pattern.Replaces line line := by
  rintro ⟨member, _⟩
  obtain ⟨front, longer⟩ := Text.eq_of_mem_followers member
  have positive := List.length_pos_iff.mpr pattern.token_ne_nil
  have lengths := congrArg List.length longer
  simp only [List.length_append] at lengths
  omega

theorem replaces_cons_iff (notFront : ∀ behind, c :: rest ≠ pattern.token ++ behind) :
    pattern.Replaces (c :: rest) behind ↔ pattern.Replaces rest behind := by
  rw [Replaces, Text.followers_passed notFront, Replaces]

theorem replaces_token_iff {text : Text} : pattern.Replaces (pattern.token ++ text) behind ↔
    behind = text ∧ text.head?.any isAlphabetic = false ∨ pattern.Replaces text behind := by
  rw [Replaces, Text.followers_append pattern.token_ne_nil, List.mem_cons, Replaces]
  constructor
  · rintro ⟨rfl | later, apart⟩
    · exact Or.inl ⟨rfl, apart⟩
    · exact Or.inr ⟨later, apart⟩
  · rintro (⟨rfl, apart⟩ | ⟨later, apart⟩)
    · exact ⟨Or.inl rfl, apart⟩
    · exact ⟨Or.inr later, apart⟩

theorem charBefore?_cons {front : Text} (notFront : ∀ behind, c :: rest ≠ pattern.token ++ behind)
    (nonempty : front ≠ []) : pattern.charBefore? (c :: rest) (c :: front) behind =
      pattern.charBefore? rest front behind := by
  obtain ⟨first, others, rfl⟩ := List.exists_cons_of_ne_nil nonempty
  simp only [charBefore?, replaces_cons_iff notFront, List.getLast?_cons_cons]

theorem charBefore?_token {front text : Text} (here : text = front ++ (pattern.token ++ behind))
    (nonempty : front ≠ []) :
    pattern.charBefore? (pattern.token ++ text) (pattern.token ++ front) behind =
      pattern.charBefore? text front behind := by
  have farther : pattern.token ++ behind ≠ text := by
    intro same
    have lengths := congrArg List.length (same.trans here)
    have positive := List.length_pos_iff.mpr nonempty
    simp only [List.length_append] at lengths
    omega
  have isLast := List.getLast?_eq_some_getLast nonempty
  simp only [charBefore?, replaces_token_iff, farther, false_and, false_or,
    List.getLast?_append, isLast, Option.some_or]

theorem charBefore?_singleton
    (notFront : ∀ other, c :: (pattern.token ++ behind) ≠ pattern.token ++ other) :
    pattern.charBefore? (c :: (pattern.token ++ behind)) [c] behind = some c := by
  have notReplaced : ¬pattern.Replaces (c :: (pattern.token ++ behind)) (pattern.token ++ behind) := by
    rw [replaces_cons_iff notFront]
    exact not_replaces_self
  rw [charBefore?, if_neg notReplaced]
  rfl

theorem charBefore?_twice (pattern : NestedPattern) (behind : Text) :
    pattern.charBefore? (pattern.token ++ (pattern.token ++ behind)) pattern.token behind =
      if (pattern.token ++ behind).head?.any isAlphabetic then pattern.token.getLast?
      else pattern.rename.target.name.getLast? := by
  cases goesOn : (pattern.token ++ behind).head?.any isAlphabetic with
  | true =>
      have notReplaced :
          ¬pattern.Replaces (pattern.token ++ (pattern.token ++ behind)) (pattern.token ++ behind) := by
        rw [replaces_token_iff, goesOn]
        simp [not_replaces_self]
      rw [charBefore?, if_neg notReplaced, if_pos rfl]
  | false =>
      have replaced :
          pattern.Replaces (pattern.token ++ (pattern.token ++ behind)) (pattern.token ++ behind) :=
        replaces_token_iff.mpr (Or.inl ⟨rfl, goesOn⟩)
      rw [charBefore?, if_pos replaced]
      rfl

/-- A reference is replaced behind the character that the line has in front of it, or behind a new
name. -/
theorem head?_left_of_mem (named : pattern.rename.target.name ≠ [])
    (scans : (pattern.search style).Scans left source result count)
    (member : replacement ∈ (pattern.search style).replacements left source) :
    ∃ front, source = front ++ (pattern.token ++ replacement.right) ∧
      replacement.left.head? =
        if front = [] then left.head? else pattern.charBefore? source front replacement.right := by
  have whole (behind : Text) : (pattern.search style).token ++ behind = pattern.token ++ behind := rfl
  induction scans with
  | finished => simp [Search.replacements] at member
  | @passed left rest result c count notFront _ ih =>
      rw [Search.replacements_passed notFront] at member
      obtain ⟨front, here, head⟩ := ih member
      refine ⟨c :: front, by rw [here]; rfl, ?_⟩
      rw [head, if_neg (List.cons_ne_nil c front)]
      by_cases first : front = []
      · subst first
        rw [List.nil_append] at here
        subst here
        rw [if_pos rfl, charBefore?_singleton notFront]
        rfl
      · rw [if_neg first, charBefore?_cons notFront first]
  | @refused left behind result count refused _ ih =>
      have goesOn : behind.head?.any isAlphabetic = true := by simpa [search] using refused
      rw [Search.replacements_refused refused] at member
      obtain ⟨front, here, head⟩ := ih member
      have here : behind = front ++ (pattern.token ++ replacement.right) := here
      have passed : pattern.token ++ front ≠ [] := by simp [pattern.token_ne_nil]
      refine ⟨pattern.token ++ front, by rw [whole, here, List.append_assoc], ?_⟩
      rw [head, whole, if_neg passed]
      by_cases first : front = []
      · subst first
        rw [List.nil_append] at here
        subst here
        rw [if_pos rfl, List.append_nil, charBefore?_twice, if_pos goesOn]
        simp [search, List.getLast?_eq_some_getLast pattern.token_ne_nil]
      · rw [if_neg first, charBefore?_token here first]
        rfl
  | @taken left behind result count taken _ ih =>
      have notOn : ¬behind.head?.any isAlphabetic = true := by simpa [search] using taken
      rw [Search.replacements_taken taken] at member
      rcases List.mem_cons.mp member with rfl | later
      · exact ⟨[], rfl, rfl⟩
      · obtain ⟨front, here, head⟩ := ih later
        have passed : pattern.token ++ front ≠ [] := by simp [pattern.token_ne_nil]
        refine ⟨pattern.token ++ front, by rw [whole, here, List.append_assoc], ?_⟩
        rw [head, whole, if_neg passed]
        by_cases first : front = []
        · subst first
          rw [List.nil_append] at here
          subst here
          rw [if_pos rfl, List.append_nil, charBefore?_twice, if_neg notOn]
          exact pattern.rename.head?_placeBehind style left named
        · rw [if_neg first, charBefore?_token here first]

def FindsWholeNames (pattern : NestedPattern) (line : Text) : Prop :=
  ∀ front behind, line = front ++ (pattern.token ++ behind) → pattern.Replaces line behind →
    (pattern.charBefore? line front behind).any isAlphabetic = false

instance (pattern : NestedPattern) (line : Text) : Decidable (pattern.FindsWholeNames line) :=
  inferInstanceAs (Decidable (∀ front behind, line = front ++ (pattern.token ++ behind) → _))

theorem findsWholeNames_iff (style : QualifierStyle) (named : pattern.rename.target.name ≠ []) :
    pattern.FindsWholeNames line ↔ ∀ replacement ∈ (pattern.search style).replacements [] line,
      replacement.left.head?.any isAlphabetic = false := by
  constructor
  · intro whole replacement member
    obtain ⟨front, here, head⟩ :=
      head?_left_of_mem named ((pattern.search style).scans_apply line) member
    have replaced := (replaces_iff_mem style []).mpr ⟨replacement, member, rfl⟩
    rw [head]
    split
    · rfl
    · exact whole front replacement.right here replaced
  · intro each front behind here replaced
    obtain ⟨replacement, member, rfl⟩ := (replaces_iff_mem style []).mp replaced
    obtain ⟨other, again, head⟩ :=
      head?_left_of_mem named ((pattern.search style).scans_apply line) member
    obtain rfl : front = other := List.append_cancel_right (here.symm.trans again)
    have apart := each replacement member
    rw [head] at apart
    by_cases first : front = []
    · rw [first, List.nil_append] at here
      simp [charBefore?, first, ← here, not_replaces_self]
    · rwa [if_neg first] at apart

end NestedPattern

/-! ### The replacements of the whole pass -/

namespace NestedGroup

def patternTurns (group : NestedGroup) (style : QualifierStyle) (line : Text) :
    List (NestedPattern × Text) :=
  if Text.occurs group.qualifier line then turns (·.apply style) group.patterns line else []

def replacements (group : NestedGroup) (style : QualifierStyle) (line : Text) : List Replacement :=
  (group.patternTurns style line).flatMap fun turn =>
    (turn.1.search style).replacements [] turn.2

theorem apply_lead (group : NestedGroup) (style : QualifierStyle) (line : Text) :
    Replacement.Lead style (group.replacements style line) line (group.apply style line).1 ∧
      (group.replacements style line).length = (group.apply style line).2 := by
  by_cases occurs : Text.occurs group.qualifier line = true
  · rw [replacements, patternTurns, if_pos occurs, apply, if_pos occurs]
    exact turns_lead (fun pattern line => (pattern.search style).apply_lead line) group.patterns line
  · rw [replacements, patternTurns, if_neg occurs, apply, if_neg occurs]
    exact ⟨rfl, rfl⟩

end NestedGroup

def nestedTurns (groups : List NestedGroup) (style : QualifierStyle) (line : Text) :
    List (NestedPattern × Text) :=
  (turns (·.apply style) groups line).flatMap fun turn => turn.1.patternTurns style turn.2

def nestedReplacements (groups : List NestedGroup) (style : QualifierStyle) (line : Text) :
    List Replacement :=
  (nestedTurns groups style line).flatMap fun turn =>
    (turn.1.search style).replacements [] turn.2

variable {groups : List NestedGroup} {style : QualifierStyle} {line : Text}

theorem nestedReplacements_lead (groups : List NestedGroup) (style : QualifierStyle) (line : Text) :
    Replacement.Lead style (nestedReplacements groups style line) line
        (NestedGroup.applyAll style groups line).1 ∧
      (nestedReplacements groups style line).length =
        (NestedGroup.applyAll style groups line).2 := by
  rw [nestedReplacements, nestedTurns, List.flatMap_assoc]
  exact turns_lead (fun group line => group.apply_lead style line) groups line

theorem exists_group_of_mem_nestedTurns {turn : NestedPattern × Text}
    (member : turn ∈ nestedTurns groups style line) :
    ∃ group ∈ groups, turn.1 ∈ group.patterns := by
  obtain ⟨groupTurn, inGroups, ofGroup⟩ := List.mem_flatMap.mp member
  refine ⟨groupTurn.1, mem_of_mem_turns inGroups, ?_⟩
  unfold NestedGroup.patternTurns at ofGroup
  split at ofGroup
  · exact mem_of_mem_turns ofGroup
  · exact absurd ofGroup (by simp)

theorem mem_nestedReplacements_iff {replacement : Replacement} :
    replacement ∈ nestedReplacements groups style line ↔ ∃ turn ∈ nestedTurns groups style line,
      replacement ∈ (turn.1.search style).replacements [] turn.2 :=
  List.mem_flatMap

/-! ### The patterns of a mapping -/

theorem NestedPattern.named_of_ofRename? {rename : Rename} {pattern : NestedPattern}
    (made : ofRename? style rename = some pattern) : pattern.rename.target.name ≠ [] := by
  rw [rename_of_ofRename? made]
  intro empty
  have unnested : rename.target.nesting? = none := by simp [ClassName.nesting?, empty, Text.segments]
  simp [ofRename?, unnested] at made

namespace Mapping

variable {mapping : Mapping} {group : NestedGroup}

theorem named_of_mem_nestedGroups {pattern : NestedPattern}
    (inGroups : group ∈ mapping.nestedGroups style) (inGroup : pattern ∈ group.patterns) :
    pattern.rename.target.name ≠ [] := by
  simp only [nestedGroups, List.mem_map] at inGroups
  obtain ⟨qualifier, _, rfl⟩ := inGroups
  obtain ⟨rename, _, made⟩ := List.mem_filterMap.mp (List.mem_of_mem_filter inGroup)
  exact NestedPattern.named_of_ofRename? made

theorem patterns_ne_nil_of_mem_nestedGroups (inGroups : group ∈ mapping.nestedGroups style) :
    group.patterns ≠ [] := by
  simp only [nestedGroups, List.mem_map, Text.mem_ordered] at inGroups
  obtain ⟨qualifier, ⟨pattern, isPattern, sameQualifier⟩, rfl⟩ := inGroups
  refine List.ne_nil_of_mem (a := pattern) ?_
  simp [isPattern, sameQualifier]

end Mapping

/-- The first pattern is replaced behind a lone letter. -/
theorem NestedPattern.mem_replacements_letter (pattern : NestedPattern) (style : QualifierStyle) :
    ⟨pattern.candidate, ['x'], []⟩ ∈ (pattern.search style).replacements [] ('x' :: pattern.token) := by
  refine Search.mem_replacements_behind (fun behind shifted => ?_) rfl
  have isLetter := Text.eq_of_mem_of_cons_eq_append shifted '.' (by simp [search, candidate, token])
  exact absurd isLetter (by decide)

theorem exists_replacement_letter (style : QualifierStyle)
    (uniform : ∀ group ∈ groups, group.IsUniform)
    (inhabited : ∀ group ∈ groups, group.patterns ≠ []) (someGroup : groups ≠ []) :
    ∃ line, ∃ replacement ∈ nestedReplacements groups style line, replacement.left = ['x'] := by
  obtain ⟨group, others, rfl⟩ := List.exists_cons_of_ne_nil someGroup
  obtain ⟨pattern, more, patterns⟩ :=
    List.exists_cons_of_ne_nil (inhabited group List.mem_cons_self)
  have qualifier : pattern.qualifier = group.qualifier :=
    uniform group List.mem_cons_self pattern (by simp [patterns])
  have occurs : Text.occurs group.qualifier ('x' :: pattern.token) = true := by
    refine Text.occurs_iff_isInfix.mpr ⟨['x'], pattern.newOuter ++ '.' :: pattern.legacyInner, ?_⟩
    simp [NestedPattern.token, qualifier]
  have isTurn : (pattern, 'x' :: pattern.token) ∈
      nestedTurns (group :: others) style ('x' :: pattern.token) := by
    refine List.mem_flatMap.mpr ⟨(group, 'x' :: pattern.token), List.mem_cons_self, ?_⟩
    rw [NestedGroup.patternTurns, if_pos occurs, patterns]
    exact List.mem_cons_self
  exact ⟨_, _, mem_nestedReplacements_iff.mpr ⟨_, isTurn, pattern.mem_replacements_letter style⟩, rfl⟩

theorem apart_of_mem_nestedReplacements {replacement : Replacement}
    (member : replacement ∈ nestedReplacements groups style line) :
    replacement.right.head?.any isAlphabetic = false := by
  obtain ⟨turn, _, ofTurn⟩ := mem_nestedReplacements_iff.mp member
  exact ((NestedPattern.replaces_iff_mem style []).mpr ⟨replacement, ofTurn, rfl⟩).2

theorem isStandalone_iff_of_mem_nestedReplacements {replacement : Replacement}
    (member : replacement ∈ nestedReplacements groups style line) :
    isStandalone replacement.left replacement.right = true ↔
      replacement.left.head?.any isAlphabetic = false := by
  simp [isStandalone, apart_of_mem_nestedReplacements member]

namespace Mapping

theorem standalone_everywhere_iff (mapping : Mapping) (style : QualifierStyle) :
    (∀ line, ∀ replacement ∈ nestedReplacements (mapping.nestedGroups style) style line,
      isStandalone replacement.left replacement.right = true) ↔ mapping.nestedGroups style = [] := by
  constructor
  · intro allStandalone
    by_contra someGroup
    obtain ⟨line, replacement, member, left⟩ := exists_replacement_letter style
      (fun group => isUniform_of_mem_nestedGroups)
      (fun group => patterns_ne_nil_of_mem_nestedGroups) someGroup
    have apart := (isStandalone_iff_of_mem_nestedReplacements member).mp
      (allStandalone line replacement member)
    rw [left] at apart
    exact absurd apart (by decide)
  · intro noGroup line replacement member
    rw [noGroup] at member
    exact absurd member (by simp [nestedReplacements, nestedTurns, turns])

theorem standalone_iff_findsWholeNames (mapping : Mapping) (style : QualifierStyle) (line : Text) :
    (∀ replacement ∈ nestedReplacements (mapping.nestedGroups style) style line,
      isStandalone replacement.left replacement.right = true) ↔
        ∀ turn ∈ nestedTurns (mapping.nestedGroups style) style line,
          turn.1.FindsWholeNames turn.2 := by
  have named : ∀ turn ∈ nestedTurns (mapping.nestedGroups style) style line,
      turn.1.rename.target.name ≠ [] := by
    intro turn isTurn
    obtain ⟨group, inGroups, inGroup⟩ := exists_group_of_mem_nestedTurns isTurn
    exact named_of_mem_nestedGroups inGroups inGroup
  constructor
  · intro allStandalone turn isTurn
    refine (NestedPattern.findsWholeNames_iff style (named turn isTurn)).mpr ?_
    intro replacement ofTurn
    have member := mem_nestedReplacements_iff.mpr ⟨turn, isTurn, ofTurn⟩
    exact (isStandalone_iff_of_mem_nestedReplacements member).mp (allStandalone replacement member)
  · intro wholeNames replacement member
    obtain ⟨turn, isTurn, ofTurn⟩ := mem_nestedReplacements_iff.mp member
    refine (isStandalone_iff_of_mem_nestedReplacements member).mpr ?_
    exact (NestedPattern.findsWholeNames_iff style (named turn isTurn)).mp (wholeNames turn isTurn)
      replacement ofTurn

end Mapping

/-- The nested pass replaces references that do not go on with a letter. In some lines it replaces one
behind a letter as well, unless the mapping has no nested pattern at all; it does so just in those
lines where some pattern, in the line as the patterns before it leave that, finds a reference that is
no whole name. -/
theorem nestedReplacements_standalone_iff (mapping : Mapping) (style : QualifierStyle) :
    let groups := mapping.nestedGroups style
    ((∀ line, ∀ replacement ∈ nestedReplacements groups style line,
        isStandalone replacement.left replacement.right = true) ↔ groups = []) ∧
    ∀ line,
      Replacement.Lead style (nestedReplacements groups style line) line
        (NestedGroup.applyAll style groups line).1 ∧
      (nestedReplacements groups style line).length =
        (NestedGroup.applyAll style groups line).2 ∧
      (∀ replacement ∈ nestedReplacements groups style line,
        replacement.right.head?.any isAlphabetic = false) ∧
      ((∀ replacement ∈ nestedReplacements groups style line,
          isStandalone replacement.left replacement.right = true) ↔
        ∀ turn ∈ nestedTurns groups style line, turn.1.FindsWholeNames turn.2) := by
  refine ⟨mapping.standalone_everywhere_iff style, fun line => ?_⟩
  obtain ⟨leads, counted⟩ := nestedReplacements_lead (mapping.nestedGroups style) style line
  exact ⟨leads, counted, fun _ member => apart_of_mem_nestedReplacements member,
    mapping.standalone_iff_findsWholeNames style line⟩

/-! A class inside another one; both get new names. -/

def lidGroups (entry : Text) (style : QualifierStyle) : List NestedGroup :=
  (Mapping.ofLines [entry]).nestedGroups style

theorem superCrate_renamed :
    (NestedGroup.applyAll .legacy (lidGroups "Box$Lid Crate$Cover".toList .legacy)
        "SuperCrate.Lid lid;".toList = ("SuperCrate.Cover lid;".toList, 1) ∧
      ∃ replacement ∈ nestedReplacements (lidGroups "Box$Lid Crate$Cover".toList .legacy) .legacy
          "SuperCrate.Lid lid;".toList,
        isStandalone replacement.left replacement.right = false) ∧
    NestedGroup.applyAll .mapped (lidGroups "p/Box$Lid q/Crate$Cover".toList .mapped)
        "xq.Crate.Lid lid;".toList = ("xq.Crate.Cover lid;".toList, 1) ∧
      ∃ replacement ∈ nestedReplacements (lidGroups "p/Box$Lid q/Crate$Cover".toList .mapped) .mapped
          "xq.Crate.Lid lid;".toList,
        isStandalone replacement.left replacement.right = false := by
  have ofDefault : (nestedReplacements (lidGroups "Box$Lid Crate$Cover".toList .legacy) .legacy
      "SuperCrate.Lid lid;".toList).any
        (fun replacement => !isStandalone replacement.left replacement.right) = true := by cbv
  have ofPackage : (nestedReplacements (lidGroups "p/Box$Lid q/Crate$Cover".toList .mapped) .mapped
      "xq.Crate.Lid lid;".toList).any
        (fun replacement => !isStandalone replacement.left replacement.right) = true := by cbv
  exact ⟨⟨by cbv, by simpa using ofDefault⟩, by cbv, by simpa using ofPackage⟩

end NameMigration
