import Mathlib
import NameMigration.Proofs.ImportReading
import NameMigration.Proofs.Replacements
import NameMigration.Proofs.UnitContext
import NameMigration.Unit.Migration

/-!
Replacements behind a dot. The flat pass looks for the legacy package in front of a name only to know
whether it has to write one, or whether a name from elsewhere is meant after all; a name behind any
other dot is replaced like one that stands alone. So it keeps to names behind their package in just
those units whose classes all have a package and share their names with imports from elsewhere. Of a
name imported from elsewhere, only a class of the default package takes occurrences that stand alone.
-/

namespace NameMigration

open Text (isBlank isPathChar qualifierOf)

/-! ### Names as a mapping file gives them -/

structure ClassName.IsProper (className : ClassName) : Prop where
  qualifier : ∃ packages, [] ∉ packages ∧ className.qualifier = qualifierOf packages
  name : [] ∉ className.name.segments

theorem ClassName.isProper_of_ofPath? {path : Text} {className : ClassName}
    (read : ClassName.ofPath? path = some className) : className.IsProper := by
  refine ⟨?_, ClassName.nil_notMem_segments_of_ofPath? read⟩
  simp only [ClassName.ofPath?] at read
  split at read
  · exact absurd read (by simp)
  · rename_i proper
    rw [Option.some.injEq] at read
    subst className
    exact ⟨_, fun empty => proper (Or.inl empty), rfl⟩

namespace ClassName.IsProper

variable {className : ClassName} {left : Text}

/-- A package ends in a dot and has something in front of it. -/
theorem left_eq_of_follows (proper : className.IsProper) (packaged : className.qualifier ≠ [])
    (follows : followsQualifier className.qualifier left = true) :
    ∃ c rest, left = '.' :: c :: rest := by
  obtain ⟨packages, noneEmpty, qualifier⟩ := proper.qualifier
  rw [qualifier] at packaged follows
  obtain ⟨others, last, rfl⟩ := (List.eq_nil_or_concat packages).resolve_left fun empty =>
    packaged (by simp [empty])
  have lastNonempty : last ≠ [] := by
    rintro rfl
    simp at noneEmpty
  obtain ⟨letters, c, rfl⟩ := (List.eq_nil_or_concat last).resolve_left lastNonempty
  obtain ⟨more, rfl⟩ := List.isPrefixOf_iff_prefix.mp follows
  exact ⟨c, letters.reverse ++ ((qualifierOf others).reverse ++ more), by simp [qualifierOf]⟩

theorem name_ne_nil (proper : className.IsProper) : className.name ≠ [] := by
  intro empty
  exact proper.name (by simp [empty, Text.segments])

theorem getLast?_name (proper : className.IsProper) : className.name.getLast? ≠ some '.' := by
  intro dotted
  obtain ⟨front, spelled⟩ := List.getLast?_eq_some_iff.mp dotted
  have parts : className.name.segments = Text.segments front ++ [[]] := by
    rw [spelled]
    exact Text.segments_append_dot front []
  exact proper.name (by simp [parts])

end ClassName.IsProper

theorem Rename.getLast?_searchToken {rename : Rename} (proper : rename.legacy.IsProper)
    (isImported : Bool) : (rename.searchToken isImported).getLast? ≠ some '.' := by
  simp only [Rename.searchToken]
  split
  · rename_i first last parts
    have undotted : '.' ∉ last := Text.dot_notMem_of_mem_segments (by rw [parts]; simp)
    exact fun dotted => undotted (List.mem_of_getLast? dotted)
  · cases isImported with
    | true => exact proper.getLast?_name
    | false =>
        have isLast := List.getLast?_eq_some_getLast proper.name_ne_nil
        have undotted := proper.getLast?_name
        simpa [ClassName.qualified, List.getLast?_append, isLast] using undotted

theorem Mapping.isProper_of_mem_ofLines {entries : List Text} {rename : Rename}
    (member : rename ∈ (ofLines entries).renames) : rename.legacy.IsProper := by
  obtain ⟨content, read⟩ := ofEntry?_of_mem_ofLines member
  obtain ⟨legacyPath, _, legacyRead, _⟩ := Rename.ofPath?_of_ofEntry? read
  exact ClassName.isProper_of_ofPath? legacyRead

namespace UnitContext

variable {entries lines : List Text} {space : Text} {candidate : Candidate}

theorem isProper_of_mem_candidates
    (member : candidate ∈ (ofLines (.ofLines entries) space lines).candidates) :
    candidate.rename.legacy.IsProper :=
  Mapping.isProper_of_mem_ofLines (rename_mem_of_mem_candidates_ofLines member)

/-- The first candidate of a kind, and those that come before it. -/
theorem exists_first_candidate (context : UnitContext) {kind : Candidate → Prop}
    (some : ∃ candidate ∈ context.candidates, kind candidate) :
    ∃ earlier first later, context.candidates = earlier ++ first :: later ∧ kind first ∧
      ∀ other ∈ earlier, ¬kind other ∧ first.token.utf8Length ≤ other.token.utf8Length := by
  classical
  obtain ⟨candidate, member, ofKind⟩ := some
  have found : (context.candidates.find? fun candidate => decide (kind candidate)).isSome := by
    rw [List.find?_isSome]
    exact ⟨candidate, member, by simpa using ofKind⟩
  obtain ⟨first, isFirst⟩ := Option.isSome_iff_exists.mp found
  obtain ⟨firstOfKind, earlier, later, split, before⟩ := List.find?_eq_some_iff_append.mp isFirst
  refine ⟨earlier, first, later, split, by simpa using firstOfKind, ?_⟩
  intro other inEarlier
  have ordered := context.candidates_ordered
  rw [split, List.pairwise_append] at ordered
  exact ⟨by simpa using before other inEarlier, ordered.2.2 other inEarlier first (by simp)⟩

end UnitContext

/-! ### Behind a dot -/

theorem Text.eq_of_mem_of_cons_eq_append {c : Char} {text rest : Text}
    (shifted : c :: text = text ++ rest) : ∀ d ∈ text, d = c := by
  induction text generalizing c with
  | nil => simp
  | cons first others ih =>
      rw [List.cons_append, List.cons.injEq] at shifted
      obtain ⟨rfl, later⟩ := shifted
      intro d member
      rcases List.mem_cons.mp member with same | inOthers
      · exact same
      · exact ih later d inOthers

theorem qualifierBefore?_dot {roots : List Text} (noDotRoot : ['.'] ∉ roots) :
    (qualifierBefore? ['.']).any (isProtected roots) = false := by
  have before : qualifierBefore? ['.'] = some ['.'] := by decide
  rw [before, Option.any_some]
  apply Bool.eq_false_iff.mpr
  intro within
  obtain ⟨root, member, nonempty, inside⟩ := isProtected_iff.mp within
  rcases inNamespace_iff.mp inside with rfl | ⟨rest, spelled⟩
  · exact noDotRoot member
  · obtain ⟨c, others, rfl⟩ := List.exists_cons_of_ne_nil nonempty
    simp at spelled

namespace Candidate

variable {candidate : Candidate} {context : UnitContext} {rules : Rules}

/-- A foreign name is replaced behind the legacy package only. -/
theorem followsQualifier_of_foreign {left right : Text}
    (accepted : candidate.accepts context rules left right = true)
    (foreign : context.isForeign candidate.token = true) :
    followsQualifier candidate.rename.legacy.qualifier left = true := by
  simp only [accepts, foreign, Bool.not_true, Bool.or_false, Bool.and_eq_true] at accepted
  exact accepted.1.2

theorem not_refersIn_of_foreign {line : Text} (proper : candidate.rename.legacy.IsProper)
    (packaged : candidate.rename.legacy.qualifier ≠ [])
    (foreign : context.isForeign candidate.token = true)
    (long : line.utf8Length ≤ candidate.token.utf8Length + 1) :
    ¬candidate.RefersIn context rules line := by
  rintro ⟨left, right, here, accepted⟩
  obtain ⟨c, rest, rfl⟩ :=
    proper.left_eq_of_follows packaged (followsQualifier_of_foreign accepted foreign)
  have dotSize : '.'.utf8Size = 1 := by decide
  have positive := c.utf8Size_pos
  have measured := congrArg Text.utf8Length here
  simp only [Text.utf8Length, Text.utf8Length_append, List.reverse_cons, dotSize] at measured
  omega

theorem mem_replacements_dot
    (ends : candidate.token.getLast? ≠ some '.')
    (accepted : candidate.accepts context rules ['.'] [] = true) :
    ⟨candidate, ['.'], []⟩ ∈
      (candidate.search context rules).replacements [] ('.' :: candidate.token) := by
  refine Search.mem_replacements_behind (fun behind shifted => ?_) accepted
  have isLast := List.getLast?_eq_some_getLast candidate.token_ne_nil
  have isDot := Text.eq_of_mem_of_cons_eq_append shifted _ (List.mem_of_getLast? isLast)
  exact ends (isDot ▸ isLast)

end Candidate

theorem isImportLine_dot (rest : Text) : isImportLine ('.' :: rest) = false := by
  have notBlank : isBlank '.' = false := by decide
  simp [isImportLine, Text.trimStart, notBlank, ImportStatement.importKeyword, Text.after?]

/-- Whether no package has to stand in front of the name: the class has none, or no other class is
imported with this name. -/
def Candidate.NeedsNoPackage (candidate : Candidate) (context : UnitContext) : Prop :=
  candidate.rename.legacy.qualifier = [] ∨ context.isForeign candidate.token = false

instance (candidate : Candidate) (context : UnitContext) :
    Decidable (candidate.NeedsNoPackage context) :=
  inferInstanceAs (Decidable (_ ∨ _))

namespace UnitContext

variable {entries lines : List Text} {space : Text} {rules : Rules}

/-- The first candidate that needs no package replaces its token behind a lone dot. -/
theorem exists_replacement_dot (noDotRoot : ['.'] ∉ rules.protectedRoots)
    (unneeded : ∃ candidate ∈ (ofLines (.ofLines entries) space lines).candidates,
      candidate.NeedsNoPackage (ofLines (.ofLines entries) space lines)) :
    let context := ofLines (.ofLines entries) space lines
    ∃ candidate ∈ context.candidates,
      ⟨candidate, ['.'], []⟩ ∈
        flatReplacements context.candidates context rules ('.' :: candidate.token) := by
  intro context
  obtain ⟨earlier, first, later, split, needsNone, before⟩ :=
    context.exists_first_candidate unneeded
  have member : first ∈ context.candidates := by rw [split]; simp
  have proper := isProper_of_mem_candidates member
  have silent : ∀ other ∈ earlier, ¬other.RefersIn context rules ('.' :: first.token) := by
    intro other inEarlier
    obtain ⟨needs, long⟩ := before other inEarlier
    simp only [Candidate.NeedsNoPackage, not_or, Bool.not_eq_false] at needs
    have otherMember : other ∈ context.candidates := by rw [split]; simp [inEarlier]
    have dotSize : '.'.utf8Size = 1 := by decide
    refine Candidate.not_refersIn_of_foreign (isProper_of_mem_candidates otherMember) needs.1
      needs.2 ?_
    simp only [Text.utf8Length, dotSize]
    omega
  have qualified : (followsQualifier first.rename.legacy.qualifier ['.'] ||
      !context.isForeign first.token) = true := by
    rcases needsNone with unpackaged | native
    · simp [followsQualifier, unpackaged]
    · simp [context, native]
  have standalone : isStandalone ['.'] [] = true := by decide
  have accepted : first.accepts context rules ['.'] [] = true := by
    simp [Candidate.accepts, standalone, qualified, qualifierBefore?_dot noDotRoot]
  have ends : first.token.getLast? ≠ some '.' := by
    obtain ⟨isImported, _, token⟩ := mem_candidates_iff.mp member
    exact token ▸ Rename.getLast?_searchToken proper isImported
  refine ⟨first, member, ?_⟩
  have replaced := mem_flatReplacements_of_not_refersIn silent later
    (Candidate.mem_replacements_dot ends accepted)
  rwa [← split] at replaced

end UnitContext

/-- A name behind a dot that is replaced although its package does not stand there needs none, and
what stands there is not protected. -/
theorem Replacement.needsNoPackage {replacement : Replacement} {candidates : List Candidate}
    {context : UnitContext} {rules : Rules} {line : Text}
    (inPass : replacement ∈ flatReplacements candidates context rules line)
    (isMember : replacement.IsMember) (noPackage : ¬replacement.IsBehindPackage) :
    replacement.candidate.NeedsNoPackage context ∧
      ∃ qualifier, qualifierBefore? replacement.left = some qualifier ∧
        isProtected rules.protectedRoots qualifier = false := by
  have accepted := (accepts_of_mem_flatReplacements inPass).2
  refine ⟨?_, ?_⟩
  · by_cases unpackaged : replacement.candidate.rename.legacy.qualifier = []
    · exact Or.inl unpackaged
    · refine Or.inr (Bool.eq_false_iff.mpr fun foreign => noPackage ⟨unpackaged, ?_⟩)
      exact Candidate.followsQualifier_of_foreign accepted foreign
  · obtain ⟨rest, left⟩ := List.head?_eq_some_iff.mp isMember
    simp only [Candidate.accepts, Bool.and_eq_true, Bool.not_eq_true'] at accepted
    exact ⟨_, by rw [left, qualifierBefore?], by simpa [left, qualifierBefore?] using accepted.2⟩

/-- The flat pass replaces names behind a dot only behind their own package exactly if every candidate
of the unit has a package and a name that is imported from elsewhere. Any other name behind a dot that
it replaces belongs to nothing protected, and it is the name of a class without a package or is
imported from nowhere else. -/
theorem memberReplacements_behindPackage_iff (entries lines : List Text) (rules : Rules)
    (noDotRoot : ['.'] ∉ rules.protectedRoots) :
    let context := UnitContext.ofLines (.ofLines entries) rules.legacyNamespace lines
    ((∀ line, isImportLine line = false →
        ∀ replacement ∈ flatReplacements context.candidates context rules line,
          replacement.IsMember → replacement.IsBehindPackage) ↔
      ∀ candidate ∈ context.candidates, ¬candidate.NeedsNoPackage context) ∧
    ∀ line, ∀ replacement ∈ flatReplacements context.candidates context rules line,
      replacement.IsMember → ¬replacement.IsBehindPackage →
        replacement.candidate.NeedsNoPackage context ∧
          ∃ qualifier, qualifierBefore? replacement.left = some qualifier ∧
            isProtected rules.protectedRoots qualifier = false := by
  intro context
  refine ⟨⟨?_, ?_⟩, fun _ _ inPass => Replacement.needsNoPackage inPass⟩
  · intro allBehind candidate member needsNone
    obtain ⟨first, firstMember, inPass⟩ :=
      UnitContext.exists_replacement_dot noDotRoot ⟨candidate, member, needsNone⟩
    obtain ⟨packaged, follows⟩ := allBehind _ (isImportLine_dot first.token) _ inPass rfl
    obtain ⟨c, rest, longer⟩ :=
      (UnitContext.isProper_of_mem_candidates firstMember).left_eq_of_follows packaged follows
    exact absurd longer (by simp)
  · intro allNeed line _ replacement inPass isMember
    by_contra noPackage
    exact allNeed _ (accepts_of_mem_flatReplacements inPass).1
      (Replacement.needsNoPackage inPass isMember noPackage).1

def drawerEntries : List Text :=
  ["p/q/Drawer r/Tray".toList, "p/q/Drawer$Knob r/Tray$Grip".toList]

def drawerRules : Rules := ⟨"p".toList, [], [], .legacy⟩

def drawerContext (lines : List Text) : UnitContext :=
  .ofLines (.ofLines drawerEntries) drawerRules.legacyNamespace lines

def twoDrawers : List Text :=
  ["import p.q.Drawer;".toList, "import s.Drawer;".toList]

theorem memberReplacements_twoDrawers :
    ['.'] ∉ drawerRules.protectedRoots ∧ (drawerContext twoDrawers).candidates.length = 1 ∧
      ∀ line, isImportLine line = false →
        ∀ replacement ∈ flatReplacements (drawerContext twoDrawers).candidates
            (drawerContext twoDrawers) drawerRules line,
          replacement.IsMember → replacement.IsBehindPackage := by
  have noDotRoot : ['.'] ∉ drawerRules.protectedRoots := by decide
  have needed : ∀ candidate ∈ (drawerContext twoDrawers).candidates,
      ¬candidate.NeedsNoPackage (drawerContext twoDrawers) := by decide +kernel
  exact ⟨noDotRoot, by cbv,
    (memberReplacements_behindPackage_iff drawerEntries twoDrawers drawerRules noDotRoot).1.mpr needed⟩

def drawerAndKnob : List Text :=
  ["import p.q.Drawer;".toList, "import p.q.Drawer.Knob;".toList, "Drawer.Knob knob;".toList]

/-- The package is written once for the inner name and once more for the outer one in front of it. -/
theorem memberReplacements_drawerAndKnob :
    (∃ replacement ∈ flatReplacements (drawerContext drawerAndKnob).candidates
        (drawerContext drawerAndKnob) drawerRules "Drawer.Knob knob;".toList,
      replacement.IsMember ∧ ¬replacement.IsBehindPackage) ∧
    (Migration.migrateLines ⟨.ofLines drawerEntries, drawerRules⟩ drawerAndKnob).1 =
      ["p.q.Tray.p.q.Tray.Grip knob;".toList] := by
  have found : (flatReplacements (drawerContext drawerAndKnob).candidates
      (drawerContext drawerAndKnob) drawerRules "Drawer.Knob knob;".toList).any
        (fun replacement => decide (replacement.IsMember ∧ ¬replacement.IsBehindPackage)) = true := by
    cbv
  exact ⟨by simpa using found, by cbv⟩

/-! ### Names from elsewhere -/

namespace UnitContext

variable {entries lines : List Text} {space name : Text} {rules : Rules}

theorem isForeign_of_imported
    (imported : ∃ statement ∈ lines.flatMap importsOn, statement.isFrom space = false ∧
      statement.simpleName? = some name) {mapping : Mapping} :
    (ofLines mapping space lines).isForeign name = true := by
  obtain ⟨statement, inLines, elsewhere, named⟩ := imported
  obtain ⟨nonempty, single, isLast⟩ := ImportStatement.simpleName?_eq_some_iff.mp named
  exact (isForeign_ofLines_iff name).mpr
    ⟨nonempty, statement, inLines, elsewhere, single, isLast⟩

/-- The first candidate of the default package with the name takes it where it stands alone. -/
theorem exists_replacement_alone
    (foreign : (ofLines (.ofLines entries) space lines).isForeign name = true)
    (unpackaged : ∃ candidate ∈ (ofLines (.ofLines entries) space lines).candidates,
      candidate.token = name ∧ candidate.rename.legacy.qualifier = []) :
    let context := ofLines (.ofLines entries) space lines
    ∃ candidate ∈ context.candidates, candidate.token = name ∧
      ⟨candidate, [], []⟩ ∈ flatReplacements context.candidates context rules name := by
  intro context
  obtain ⟨earlier, first, later, split, ⟨rfl, isDefault⟩, before⟩ :=
    context.exists_first_candidate unpackaged
  have silent : ∀ other ∈ earlier, ¬other.RefersIn context rules first.token := by
    intro other inEarlier
    obtain ⟨packaged, long⟩ := before other inEarlier
    by_cases sameToken : other.token = first.token
    · have otherMember : other ∈ context.candidates := by rw [split]; simp [inEarlier]
      refine Candidate.not_refersIn_of_foreign (isProper_of_mem_candidates otherMember)
        (fun empty => packaged ⟨sameToken, empty⟩) (sameToken ▸ foreign) ?_
      omega
    · exact Candidate.not_refersIn_of_long sameToken long
  have accepted : first.accepts context rules [] [] = true := by
    simp [Candidate.accepts, isStandalone, followsQualifier, isDefault, qualifierBefore?]
  have replaced : ⟨first, [], []⟩ ∈ (first.search context rules).replacements [] first.token :=
    Search.mem_replacements_alone accepted
  refine ⟨first, by rw [split]; simp, rfl, ?_⟩
  have inPass := mem_flatReplacements_of_not_refersIn silent later replaced
  rwa [← split] at inPass

end UnitContext

theorem isImportLine_simpleName {lines : List Text} {name : Text}
    (imported : ∃ statement ∈ lines.flatMap importsOn, statement.simpleName? = some name) :
    isImportLine name = false := by
  obtain ⟨statement, inLines, named⟩ := imported
  obtain ⟨line, _, onLine⟩ := List.mem_flatMap.mp inLines
  obtain ⟨_, _, isLast⟩ := ImportStatement.simpleName?_eq_some_iff.mp named
  apply isImportLine_of_no_blank
  intro c inName
  have inPath := (Text.mem_of_mem_segments (List.mem_of_getLast? isLast) inName).1
  exact (Text.isPathChar_cases ((isProper_of_mem_importsOn onLine).path_chars c inPath)).1

/-- A name that is imported from elsewhere is replaced behind the legacy package only. So the unit keeps
all its uses without a dot exactly if no candidate with this name is a class of the default package,
which needs nothing in front of it. -/
theorem foreignReplacements_member_iff (entries lines : List Text) (rules : Rules) (name : Text)
    (imported : ∃ statement ∈ lines.flatMap importsOn,
      statement.isFrom rules.legacyNamespace = false ∧ statement.simpleName? = some name) :
    let context := UnitContext.ofLines (.ofLines entries) rules.legacyNamespace lines
    ((∀ line, isImportLine line = false →
        ∀ replacement ∈ flatReplacements context.candidates context rules line,
          replacement.candidate.token = name → replacement.IsMember) ↔
      ∀ candidate ∈ context.candidates, candidate.token = name →
        candidate.rename.legacy.qualifier ≠ []) ∧
    ∀ line, ∀ replacement ∈ flatReplacements context.candidates context rules line,
      replacement.candidate.token = name →
        followsQualifier replacement.candidate.rename.legacy.qualifier replacement.left = true := by
  intro context
  have foreign : context.isForeign name = true := UnitContext.isForeign_of_imported imported
  have behindPackage {line : Text} {replacement : Replacement}
      (inPass : replacement ∈ flatReplacements context.candidates context rules line)
      (sameName : replacement.candidate.token = name) :=
    Candidate.followsQualifier_of_foreign (accepts_of_mem_flatReplacements inPass).2
      (sameName ▸ foreign)
  refine ⟨⟨?_, ?_⟩, fun _ _ => behindPackage⟩
  · intro allMembers candidate member sameName isDefault
    obtain ⟨first, _, firstName, inPass⟩ := UnitContext.exists_replacement_alone foreign
      ⟨candidate, member, sameName, isDefault⟩
    have noImport : isImportLine name = false := by
      obtain ⟨statement, inLines, _, named⟩ := imported
      exact isImportLine_simpleName ⟨statement, inLines, named⟩
    have isMember := allMembers name noImport _ inPass firstName
    exact absurd isMember (by simp [Replacement.IsMember])
  · intro packaged line _ replacement inPass sameName
    have member := (accepts_of_mem_flatReplacements inPass).1
    obtain ⟨c, rest, left⟩ := (UnitContext.isProper_of_mem_candidates member).left_eq_of_follows
      (packaged _ member sameName) (behindPackage inPass sameName)
    simp [Replacement.IsMember, left]

theorem foreignReplacements_twoDrawers :
    (∃ statement ∈ twoDrawers.flatMap importsOn,
      statement.isFrom drawerRules.legacyNamespace = false ∧
        statement.simpleName? = some "Drawer".toList) ∧
    (drawerContext twoDrawers).candidates.map (·.token) = ["Drawer".toList] ∧
      ∀ line, isImportLine line = false →
        ∀ replacement ∈ flatReplacements (drawerContext twoDrawers).candidates
            (drawerContext twoDrawers) drawerRules line,
          replacement.candidate.token = "Drawer".toList → replacement.IsMember := by
  have imported : ∃ statement ∈ twoDrawers.flatMap importsOn,
      statement.isFrom drawerRules.legacyNamespace = false ∧
        statement.simpleName? = some "Drawer".toList := by decide +kernel
  have packaged : ∀ candidate ∈ (drawerContext twoDrawers).candidates,
      candidate.token = "Drawer".toList → candidate.rename.legacy.qualifier ≠ [] := by
    decide +kernel
  exact ⟨imported, by cbv,
    (foreignReplacements_member_iff drawerEntries twoDrawers drawerRules _ imported).1.mpr packaged⟩

/-- A class of the default package takes the name that the unit imports from elsewhere. -/
theorem foreignDrawer_replaced :
    (∃ statement ∈ importsOn "import s.Drawer;".toList,
      statement.isFrom drawerRules.legacyNamespace = false ∧
        statement.simpleName? = some "Drawer".toList) ∧
    (Migration.migrateLines ⟨.ofLines ["Drawer r/Tray".toList], drawerRules⟩
        ["import s.Drawer;".toList, "Drawer drawer;".toList]).1 =
      ["import s.Drawer;".toList, "Tray drawer;".toList] :=
  ⟨by decide +kernel, by cbv⟩

end NameMigration
