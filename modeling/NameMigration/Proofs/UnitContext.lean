import NameMigration.Proofs.LastEntry
import NameMigration.Proofs.OrderedTexts
import NameMigration.Unit.Context

/-!
The context of a unit, read off its import statements and its body lines: which renames are imported,
which are only mentioned and in what order, and which names belong to other classes. The statements and
the body lines are all that counts, not how they stand between each other.
-/

namespace NameMigration

/-! ### Lists without repetition -/

section Repetitions

variable {α : Type} [BEq α] [LawfulBEq α]

theorem nodup_eraseDups (items : List α) : items.eraseDups.Nodup := by
  generalize measured : items.length = length
  induction length using Nat.strongRecOn generalizing items with
  | ind length ih =>
      cases items with
      | nil => simp
      | cons first rest =>
          have shorter := List.length_filter_le (fun item => !item == first) rest
          rw [List.eraseDups_cons, List.nodup_cons]
          refine ⟨by simp, ih _ ?_ _ rfl⟩
          simp only [← measured, List.length_cons]
          omega

theorem eraseDups_of_nodup {items : List α} (distinct : items.Nodup) : items.eraseDups = items := by
  induction items with
  | nil => rfl
  | cons first rest ih =>
      obtain ⟨fresh, tail⟩ := List.nodup_cons.mp distinct
      have kept : rest.filter (fun item => !item == first) = rest := by
        rw [List.filter_eq_self]
        intro item member
        have different : item ≠ first := fun same => fresh (same ▸ member)
        simpa using different
      rw [List.eraseDups_cons, kept, ih tail]

end Repetitions

/-! ### The order of the mentioned classes -/

def mentions (isMentioned : Rename → Text → Bool) (classes : List Rename) (lines : List Text) :
    List Rename :=
  lines.flatMap fun line => classes.filter (isMentioned · line)

/-- Earlier by the first line with a mention, or on the same line by name. -/
def IsMentionedEarlier (isMentioned : Rename → Text → Bool) (lines : List Text)
    (first second : Rename) : Prop :=
  lines.findIdx (isMentioned first) < lines.findIdx (isMentioned second) ∨
    lines.findIdx (isMentioned first) = lines.findIdx (isMentioned second) ∧ first.key < second.key

variable {isMentioned : Rename → Text → Bool} {classes : List Rename} {line : Text}
  {lines : List Text}

/-- The first line settles the classes that it mentions; the other lines are left to the rest. -/
theorem eraseDups_mentions_cons (distinct : classes.Nodup) :
    (mentions isMentioned classes (line :: lines)).eraseDups =
      classes.filter (isMentioned · line) ++
        (mentions isMentioned (classes.filter (!isMentioned · line)) lines).eraseDups := by
  have settled := eraseDups_of_nodup (distinct.filter (isMentioned · line))
  have others : (mentions isMentioned classes lines).removeAll (classes.filter (isMentioned · line)) =
      mentions isMentioned (classes.filter (!isMentioned · line)) lines := by
    simp only [List.removeAll, mentions, List.filter_flatMap, List.filter_filter]
    congr 1
    funext other
    apply List.filter_congr
    intro rename member
    simp [member, Bool.and_comm]
  rw [mentions, List.flatMap_cons, List.eraseDups_append, settled]
  exact congrArg (fun rest => classes.filter (isMentioned · line) ++ rest.eraseDups) others

theorem eraseDups_mentions_pairwise (ordered : Rename.Ordered classes) :
    (mentions isMentioned classes lines).eraseDups.Pairwise (IsMentionedEarlier isMentioned lines) := by
  induction lines generalizing classes with
  | nil => simp [mentions]
  | cons line rest ih =>
      have atOnce : ∀ rename, isMentioned rename line = true →
          (line :: rest).findIdx (isMentioned rename) = 0 := by
        intro rename here
        simp [List.findIdx_cons, here]
      have later : ∀ rename, isMentioned rename line = false →
          (line :: rest).findIdx (isMentioned rename) = rest.findIdx (isMentioned rename) + 1 := by
        intro rename notHere
        simp [List.findIdx_cons, notHere]
      have ofRest : ∀ rename ∈ (mentions isMentioned
          (classes.filter (!isMentioned · line)) rest).eraseDups, isMentioned rename line = false := by
        intro rename member
        simp only [List.mem_eraseDups, mentions, List.mem_flatMap, List.mem_filter] at member
        obtain ⟨_, _, ⟨_, notHere⟩, _⟩ := member
        simpa using notHere
      rw [eraseDups_mentions_cons ordered.nodup, List.pairwise_append]
      refine ⟨?_, ?_, ?_⟩
      · refine (List.Pairwise.filter _ ordered).imp_of_mem ?_
        intro first second firstHere secondHere before
        right
        rw [atOnce first (List.mem_filter.mp firstHere).2, atOnce second (List.mem_filter.mp secondHere).2]
        exact ⟨rfl, before⟩
      · refine (ih (List.Pairwise.filter _ ordered)).imp_of_mem ?_
        intro first second firstLater secondLater before
        rw [IsMentionedEarlier, later first (ofRest first firstLater),
          later second (ofRest second secondLater)]
        rcases before with sooner | ⟨same, less⟩
        · exact Or.inl (by omega)
        · exact Or.inr ⟨by omega, less⟩
      · intro first firstHere second secondLater
        left
        rw [atOnce first (List.mem_filter.mp firstHere).2, later second (ofRest second secondLater)]
        exact Nat.succ_pos _

/-! ### The parts of a context -/

def bodyLines (lines : List Text) : List Text :=
  lines.filter fun line => (importsOn line).isEmpty

/-- The order of the mentioned renames: by package, then by the first line with a mention, then by
name. -/
def Rename.PrecedesIn (lines : List Text) (first second : Rename) : Prop :=
  first.legacy.qualifier < second.legacy.qualifier ∨
    first.legacy.qualifier = second.legacy.qualifier ∧
      IsMentionedEarlier Rename.isMentionedOn lines first second

namespace Mapping

variable {mapping : Mapping} {qualifier : Text} {rename : Rename}

theorem mem_inPackage_iff : rename ∈ mapping.inPackage qualifier ↔
    rename ∈ mapping.flat ∧ rename.legacy.qualifier = qualifier := by
  simp [inPackage]

theorem inPackage_ordered (mapping : Mapping) (qualifier : Text) :
    Rename.Ordered (mapping.inPackage qualifier) :=
  (mapping.ordered.filter _).filter _

theorem mentionedIn_eq (mapping : Mapping) (qualifier : Text) (lines : List Text) :
    mapping.mentionedIn qualifier lines =
      (mentions Rename.isMentionedOn (mapping.inPackage qualifier) lines).eraseDups := by
  simp only [mentionedIn, mentions]
  congr 2
  funext line
  apply List.filter_congr
  intro rename member
  rw [Rename.isMentionedOn, (mem_inPackage_iff.mp member).2]

theorem mem_mentionedIn_iff : rename ∈ mapping.mentionedIn qualifier lines ↔
    rename ∈ mapping.flat ∧ rename.legacy.qualifier = qualifier ∧
      ∃ line ∈ lines, rename.isMentionedOn line = true := by
  simp only [mentionedIn_eq, List.mem_eraseDups, mentions, List.mem_flatMap, List.mem_filter,
    mem_inPackage_iff]
  constructor
  · rintro ⟨line, inLines, ⟨inFlat, ofPackage⟩, mentioned⟩
    exact ⟨inFlat, ofPackage, line, inLines, mentioned⟩
  · rintro ⟨inFlat, ofPackage, line, inLines, mentioned⟩
    exact ⟨line, inLines, ⟨inFlat, ofPackage⟩, mentioned⟩

theorem mem_packages_of_mem_flat (member : rename ∈ mapping.flat) :
    rename.legacy.qualifier ∈ mapping.packages :=
  Text.mem_ordered.mpr (List.mem_map.mpr ⟨rename, member, rfl⟩)

theorem mentionedIn_pairwise (mapping : Mapping) (qualifier : Text) (lines : List Text) :
    (mapping.mentionedIn qualifier lines).Pairwise (Rename.PrecedesIn lines) := by
  have earlier : (mentions Rename.isMentionedOn (mapping.inPackage qualifier) lines).eraseDups.Pairwise
      (IsMentionedEarlier Rename.isMentionedOn lines) :=
    eraseDups_mentions_pairwise (mapping.inPackage_ordered qualifier)
  rw [← mentionedIn_eq] at earlier
  refine earlier.imp_of_mem ?_
  intro first second firstHere secondHere before
  right
  rw [(mem_mentionedIn_iff.mp firstHere).2.1, (mem_mentionedIn_iff.mp secondHere).2.1]
  exact ⟨rfl, before⟩

theorem mentioned_pairwise (mapping : Mapping) (lines : List Text) :
    (mapping.packages.flatMap fun qualifier => mapping.mentionedIn qualifier lines).Pairwise
      (Rename.PrecedesIn lines) := by
  rw [List.pairwise_flatMap]
  refine ⟨fun qualifier _ => mapping.mentionedIn_pairwise qualifier lines, ?_⟩
  refine (Text.ordered_pairwise _).imp ?_
  intro first second before one ofFirst other ofSecond
  left
  rwa [(mem_mentionedIn_iff.mp ofFirst).2.1, (mem_mentionedIn_iff.mp ofSecond).2.1]

end Mapping

theorem Rename.PrecedesIn.asymm {first second : Rename} (before : first.PrecedesIn lines second) :
    ¬second.PrecedesIn lines first := by
  rintro (less | ⟨same, sooner | ⟨sameLine, lessName⟩⟩)
  · rcases before with more | ⟨same, _⟩
    · exact List.lt_irrefl _ (List.lt_trans less more)
    · exact List.lt_irrefl _ (same ▸ less)
  · rcases before with more | ⟨_, later | ⟨sameLine, _⟩⟩
    · exact List.lt_irrefl _ (same ▸ more)
    · omega
    · omega
  · rcases before with more | ⟨_, later | ⟨_, moreName⟩⟩
    · exact List.lt_irrefl _ (same ▸ more)
    · omega
    · exact List.lt_irrefl _ (List.lt_trans lessName moreName)

theorem Rename.PrecedesIn.ne {first second : Rename} (before : first.PrecedesIn lines second) :
    first ≠ second := by
  rintro rfl
  exact before.asymm before

theorem ImportStatement.simpleName?_eq_some_iff {statement : ImportStatement} {name : Text} :
    statement.simpleName? = some name ↔ name ≠ [] ∧ statement.isWildcard = false ∧
      statement.path.segments.getLast? = some name := by
  cases isWildcard : statement.isWildcard with
  | true => simp [simpleName?, isWildcard]
  | false => simp [simpleName?, isWildcard, Option.filter_eq_some_iff, and_comm]

structure UnitContext.IsContextOf (mapping : Mapping) (space : Text)
    (statements : List ImportStatement) (body : List Text) (context : UnitContext) : Prop where
  explicit : context.explicit = ((statements.filter (·.isFrom space)).flatMap fun statement =>
    if statement.isWildcard then mapping.inPackage (statement.path ++ ['.'])
    else (mapping.findImported? statement.path).toList).eraseDups
  explicit_nodup : context.explicit.Nodup
  isForeign_iff : ∀ name, context.isForeign name = true ↔ name ≠ [] ∧
    ∃ statement ∈ statements, statement.isFrom space = false ∧ statement.isWildcard = false ∧
      statement.path.segments.getLast? = some name
  mem_implicit_iff : ∀ rename, rename ∈ context.implicit ↔ rename ∈ mapping.flat ∧
    rename ∉ context.explicit ∧ ∃ line ∈ body, rename.isMentionedOn line = true
  implicit_nodup : context.implicit.Nodup
  implicit_pairwise : context.implicit.Pairwise (Rename.PrecedesIn body)

namespace UnitContext

variable {mapping : Mapping} {space : Text}

theorem mem_implicit_ofLines_iff {rename : Rename} :
    rename ∈ (ofLines mapping space lines).implicit ↔ rename ∈ mapping.flat ∧
      rename ∉ (ofLines mapping space lines).explicit ∧
        ∃ line ∈ bodyLines lines, rename.isMentionedOn line = true := by
  simp only [ofLines, bodyLines, List.mem_filter, List.mem_flatMap, Mapping.mem_mentionedIn_iff]
  constructor
  · rintro ⟨⟨qualifier, _, inFlat, _, mentioned⟩, notImported⟩
    exact ⟨inFlat, by simpa using notImported, mentioned⟩
  · rintro ⟨inFlat, notImported, mentioned⟩
    exact ⟨⟨_, Mapping.mem_packages_of_mem_flat inFlat, inFlat, rfl, mentioned⟩,
      by simpa using notImported⟩

theorem isForeign_ofLines_iff (name : Text) :
    (ofLines mapping space lines).isForeign name = true ↔ name ≠ [] ∧
      ∃ statement ∈ lines.flatMap importsOn, statement.isFrom space = false ∧
        statement.isWildcard = false ∧ statement.path.segments.getLast? = some name := by
  simp only [isForeign, ofLines, List.contains_iff_mem, Text.mem_ordered, List.mem_filterMap,
    ImportStatement.simpleName?_eq_some_iff, List.partition_eq_filter_filter, List.mem_filter]
  constructor
  · rintro ⟨statement, ⟨inLines, elsewhere⟩, nonempty, single, isLast⟩
    exact ⟨nonempty, statement, inLines, by simpa using elsewhere, single, isLast⟩
  · rintro ⟨nonempty, statement, inLines, elsewhere, single, isLast⟩
    exact ⟨statement, ⟨inLines, by simpa using elsewhere⟩, nonempty, single, isLast⟩

theorem ofLines_isContext (mapping : Mapping) (space : Text) (lines : List Text) :
    (ofLines mapping space lines).IsContextOf mapping space (lines.flatMap importsOn)
      (bodyLines lines) where
  explicit := by
    simp only [ofLines, List.partition_eq_filter_filter]
    rfl
  explicit_nodup := nodup_eraseDups _
  isForeign_iff := isForeign_ofLines_iff
  mem_implicit_iff _ := mem_implicit_ofLines_iff
  implicit_nodup := by
    have distinct := (mapping.mentioned_pairwise (bodyLines lines)).imp Rename.PrecedesIn.ne
    exact List.Pairwise.filter _ distinct
  implicit_pairwise := (mapping.mentioned_pairwise (bodyLines lines)).filter _

theorem ofLines_eq_of_same_parts {others : List Text}
    (sameStatements : others.flatMap importsOn = lines.flatMap importsOn)
    (sameBody : bodyLines others = bodyLines lines) :
    ofLines mapping space others = ofLines mapping space lines := by
  unfold bodyLines at sameBody
  simp only [ofLines, sameStatements, sameBody]

/-- The context of a unit in closed form. Two units with the same import statements and the same body
lines, each in the same order, have the same context. -/
theorem ofLines_isContextOf (mapping : Mapping) (space : Text) (lines : List Text) :
    (ofLines mapping space lines).IsContextOf mapping space (lines.flatMap importsOn)
        (bodyLines lines) ∧
      ∀ others : List Text, others.flatMap importsOn = lines.flatMap importsOn →
        bodyLines others = bodyLines lines →
          ofLines mapping space others = ofLines mapping space lines :=
  ⟨ofLines_isContext mapping space lines,
    fun _ sameStatements sameBody => ofLines_eq_of_same_parts sameStatements sameBody⟩

end UnitContext

def boxUnit : List Text :=
  ["import p.q.Box;".toList, "p.q.Lid lid;".toList, "import p.q.*; import r.Box;".toList,
    "p.q.Hinge hinge;".toList]

def boxUnitShuffled : List Text :=
  ["p.q.Lid lid;".toList, "p.q.Hinge hinge;".toList, "import p.q.Box; import p.q.*;".toList,
    "import r.Box;".toList]

theorem boxUnit_context (mapping : Mapping) :
    boxUnitShuffled.flatMap importsOn = boxUnit.flatMap importsOn ∧
      bodyLines boxUnitShuffled = bodyLines boxUnit ∧
        UnitContext.ofLines mapping "p.q".toList boxUnitShuffled =
          UnitContext.ofLines mapping "p.q".toList boxUnit := by
  have sameStatements : boxUnitShuffled.flatMap importsOn = boxUnit.flatMap importsOn := by
    decide +kernel
  have sameBody : bodyLines boxUnitShuffled = bodyLines boxUnit := by decide +kernel
  exact ⟨sameStatements, sameBody,
    (UnitContext.ofLines_isContextOf mapping _ boxUnit).2 boxUnitShuffled sameStatements sameBody⟩

end NameMigration
