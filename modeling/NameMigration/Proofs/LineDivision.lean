import NameMigration.Proofs.ImportAccounting

/-!
An import line as its statements and the text around them. A line that loses imports is written again
from the statements that it keeps, so nothing is made up and the statements stay in order, but the text
around them is only kept if there is nothing to see in it.
-/

namespace NameMigration

open Text (isBlank isWord)

/-- A text cut at its import statements: each of them with the text in front of it, and what stands
behind the last one. -/
structure Division where
  passages : List (Text × ImportStatement)
  ending : Text
  deriving DecidableEq, Repr

namespace Division

def statements (division : Division) : List ImportStatement :=
  division.passages.map Prod.snd

def gaps (division : Division) : List Text :=
  division.passages.map Prod.fst ++ [division.ending]

def without (drops : ImportStatement → Bool) (division : Division) : Text :=
  division.passages.flatMap (fun (gap, statement) =>
    gap ++ if drops statement then [] else statement.text) ++ division.ending

def addChar (c : Char) (division : Division) : Division :=
  match division.passages with
  | [] => ⟨[], c :: division.ending⟩
  | (gap, statement) :: others => ⟨(c :: gap, statement) :: others, division.ending⟩

def addStatement (statement : ImportStatement) (division : Division) : Division :=
  ⟨([], statement) :: division.passages, division.ending⟩

@[simp] theorem statements_addChar (c : Char) (division : Division) :
    (division.addChar c).statements = division.statements := by
  unfold addChar
  split <;> simp_all [statements]

@[simp] theorem statements_addStatement (statement : ImportStatement) (division : Division) :
    (division.addStatement statement).statements = statement :: division.statements := rfl

@[simp] theorem without_addChar (drops : ImportStatement → Bool) (c : Char) (division : Division) :
    (division.addChar c).without drops = c :: division.without drops := by
  unfold addChar
  split <;> simp_all [without]

@[simp] theorem without_addStatement (drops : ImportStatement → Bool) (statement : ImportStatement)
    (division : Division) : (division.addStatement statement).without drops =
      (if drops statement then [] else statement.text) ++ division.without drops := by
  simp [without, addStatement]

end Division

namespace ImportStatement

def divide (afterWord : Bool) (source : Text) : Division :=
  match source with
  | [] => ⟨[], []⟩
  | c :: behind =>
      if afterWord then (divide (isWord c) behind).addChar c
      else
        match found : ofFront? (c :: behind) with
        | none => (divide (isWord c) behind).addChar c
        | some (statement, rest) =>
            have _shorter := length_lt_of_ofFront? found
            (divide false rest).addStatement statement
  termination_by source.length
  decreasing_by all_goals simp only [List.length_cons] at *; omega

theorem divide_of_notFound {c : Char} {behind : Text} (notFound : ofFront? (c :: behind) = none) :
    divide false (c :: behind) = (divide (isWord c) behind).addChar c := by
  rw [divide, if_neg (by decide)]
  split
  · rfl
  · rename_i found
    exact absurd (notFound.symm.trans found) (by simp)

theorem divide_of_found {c : Char} {behind rest : Text} {statement : ImportStatement}
    (found : ofFront? (c :: behind) = some (statement, rest)) :
    divide false (c :: behind) = (divide false rest).addStatement statement := by
  rw [divide, if_neg (by decide)]
  split
  · rename_i notFound
    exact absurd (found.symm.trans notFound) (by simp)
  · rename_i other more foundAgain
    have same := found.symm.trans foundAgain
    simp only [Option.some.injEq, Prod.mk.injEq] at same
    rw [same.1, same.2]

theorem statements_divide (afterWord : Bool) (source : Text) :
    (divide afterWord source).statements = allIn afterWord source := by
  induction afterWord, source using allIn.induct with
  | case1 afterWord => simp [divide, allIn, Division.statements]
  | case2 c behind ih => simp [divide, allIn, ih]
  | case3 afterWord c behind notAfterWord notFound ih =>
      rw [Bool.not_eq_true] at notAfterWord
      rw [notAfterWord, divide_of_notFound notFound, allIn_cons_of_notFound notFound,
        Division.statements_addChar, ih]
  | case4 afterWord c behind notAfterWord statement rest found shorter ih =>
      rw [Bool.not_eq_true] at notAfterWord
      rw [notAfterWord, divide_of_found found, allIn_of_found found,
        Division.statements_addStatement, ih]

/-- Nothing of the text is lost in its division. -/
theorem without_none_divide (afterWord : Bool) (source : Text) :
    (divide afterWord source).without (fun _ => false) = source := by
  induction afterWord, source using divide.induct with
  | case1 afterWord => simp [divide, Division.without]
  | case2 c behind ih => simp [divide, ih]
  | case3 afterWord c behind notAfterWord notFound ih =>
      rw [Bool.not_eq_true] at notAfterWord
      rw [notAfterWord, divide_of_notFound notFound, Division.without_addChar, ih]
  | case4 afterWord c behind notAfterWord statement rest found shorter ih =>
      rw [Bool.not_eq_true] at notAfterWord
      rw [notAfterWord, divide_of_found found, Division.without_addStatement, ih, ofFront?_text found]
      simp

end ImportStatement

def divisionOf (line : Text) : Division :=
  if isImportLine line then ImportStatement.divide false line else ⟨[], line⟩

theorem statements_divisionOf (line : Text) : (divisionOf line).statements = importsOn line := by
  unfold divisionOf importsOn
  split
  · exact ImportStatement.statements_divide false line
  · rfl

theorem without_none_divisionOf (line : Text) :
    (divisionOf line).without (fun _ => false) = line := by
  unfold divisionOf
  split
  · exact ImportStatement.without_none_divide false line
  · rfl

namespace Text

def visible (text : Text) : Text :=
  text.filter (!isBlank ·)

theorem visible_append (left right : Text) : visible (left ++ right) = visible left ++ visible right :=
  List.filter_append left right

theorem visible_eq_nil_iff {text : Text} : text.visible = [] ↔ ∀ c ∈ text, isBlank c = true := by
  simp [visible, List.filter_eq_nil_iff]

theorem visible_joinWith_blank (parts : List Text) :
    visible (joinWith [' '] parts) = parts.flatMap visible := by
  have noSpace : visible [' '] = [] := by decide
  induction parts with
  | nil => rfl
  | cons first others ih =>
      cases others with
      | nil => simp [joinWith]
      | cons second more =>
          rw [joinWith, List.intercalate_cons_cons, visible_append, visible_append, noSpace,
            List.append_nil, List.flatMap_cons]
          exact congrArg (visible first ++ ·) ih

theorem visible_sublist_iff {first second : Text} :
    first.visible.Sublist second ↔ first.visible.Sublist second.visible := by
  constructor
  · intro kept
    have filtered := kept.filter (!isBlank ·)
    simpa only [visible, List.filter_filter, Bool.and_self] using filtered
  · intro kept
    exact kept.trans List.filter_sublist

end Text

namespace Division

variable {drops : ImportStatement → Bool}

theorem without_cons (gap : Text) (statement : ImportStatement) (others : List (Text × ImportStatement))
    (ending : Text) : without drops ⟨(gap, statement) :: others, ending⟩ =
      gap ++ ((if drops statement then [] else statement.text) ++ without drops ⟨others, ending⟩) := by
  simp [without]

def keptVisible (drops : ImportStatement → Bool) (division : Division) : Text :=
  (division.statements.filter (!drops ·)).flatMap (·.text.visible)

theorem keptVisible_cons (gap : Text) (statement : ImportStatement)
    (others : List (Text × ImportStatement)) (ending : Text) :
    keptVisible drops ⟨(gap, statement) :: others, ending⟩ =
      Text.visible (if drops statement then [] else statement.text) ++
        keptVisible drops ⟨others, ending⟩ := by
  cases dropped : drops statement with
  | true => simp [keptVisible, statements, dropped, Text.visible]
  | false => simp [keptVisible, statements, dropped]

theorem keptVisible_sublist (division : Division) :
    (division.keptVisible drops).Sublist (division.without drops).visible := by
  obtain ⟨passages, ending⟩ := division
  induction passages with
  | nil => simp [keptVisible, statements]
  | cons passage others ih =>
      obtain ⟨gap, statement⟩ := passage
      rw [without_cons, keptVisible_cons, Text.visible_append, Text.visible_append]
      exact (ih.append_left _).trans (List.sublist_append_right _ _)

theorem length_visible_without (division : Division) :
    (division.without drops).visible.length =
      (division.keptVisible drops).length + (division.gaps.flatMap Text.visible).length := by
  obtain ⟨passages, ending⟩ := division
  induction passages with
  | nil => simp [keptVisible, statements, without, gaps]
  | cons passage others ih =>
      obtain ⟨gap, statement⟩ := passage
      have gapsCons : gaps ⟨(gap, statement) :: others, ending⟩ = gap :: gaps ⟨others, ending⟩ := rfl
      rw [without_cons, keptVisible_cons, gapsCons, Text.visible_append, Text.visible_append,
        List.flatMap_cons]
      simp only [List.length_append] at ih ⊢
      omega

/-- Where nothing is to be seen around the statements, those that are kept are all there is. -/
theorem visible_without_sublist_iff (division : Division) :
    (division.without drops).visible.Sublist (division.keptVisible drops) ↔
      ∀ gap ∈ division.gaps, ∀ c ∈ gap, isBlank c = true := by
  have measured : (division.without drops).visible.length =
      (division.keptVisible drops).length + (division.gaps.flatMap Text.visible).length :=
    division.length_visible_without
  have noneSeen : division.gaps.flatMap Text.visible = [] ↔
      ∀ gap ∈ division.gaps, ∀ c ∈ gap, isBlank c = true := by
    simp only [List.flatMap_eq_nil_iff, Text.visible_eq_nil_iff]
  rw [← noneSeen, ← List.length_eq_zero_iff]
  constructor
  · intro kept
    have short := kept.length_le
    omega
  · intro empty
    have sameLength :
        (division.keptVisible drops).length = (division.without drops).visible.length := by omega
    have same := division.keptVisible_sublist.eq_of_length sameLength
    rw [same]

end Division

variable {space line rest : Text} {dropped : Nat}

theorem visible_of_withoutImportsFrom? (found : withoutImportsFrom? space line = some (dropped, rest)) :
    rest.visible = (divisionOf line).keptVisible (·.isFrom space) := by
  have lostSome : importsFromElsewhere space line ≠ importsOn line := by
    intro keptAll
    rw [withoutImportsFrom?_eq_none_iff.mpr keptAll] at found
    exact absurd found (by simp)
  have kept : (divisionOf line).keptVisible (·.isFrom space) =
      (importsFromElsewhere space line).flatMap (·.text.visible) := by
    rw [Division.keptVisible, statements_divisionOf, importsFromElsewhere]
  rw [withoutImportsFrom?_eq_some lostSome, Option.some.injEq, Prod.mk.injEq] at found
  rw [kept, ← found.2]
  split
  · rename_i keptNone
    rw [keptNone]
    rfl
  · have indentUnseen : Text.visible (line.takeWhile isBlank) = [] :=
      Text.visible_eq_nil_iff.mpr fun c member => List.mem_takeWhile_imp member
    rw [keptLine, Text.visible_append, indentUnseen, Text.visible_joinWith_blank, List.flatMap_map]
    rfl

/-- What is left of a line that loses imports has nothing that did not stand outside of them, in the
old order. All of that is left exactly when there is nothing but blanks around the statements. -/
theorem visible_sublist_rest_iff (found : withoutImportsFrom? space line = some (dropped, rest)) :
    let division := divisionOf line
    let outside := division.without (·.isFrom space)
    (division.without (fun _ => false) = line ∧ division.statements = importsOn line) ∧
      rest.visible.Sublist outside.visible ∧
      (outside.visible.Sublist rest ↔ ∀ gap ∈ division.gaps, ∀ c ∈ gap, isBlank c = true) := by
  intro division outside
  have seen := visible_of_withoutImportsFrom? found
  refine ⟨⟨without_none_divisionOf line, statements_divisionOf line⟩, ?_, ?_⟩
  · rw [seen]
    exact division.keptVisible_sublist
  · rw [Text.visible_sublist_iff, seen]
    exact division.visible_without_sublist_iff

theorem visible_sublist_rest_twoImports :
    let line := "  import p.q.World;  import java.util.List; ".toList
    let rest := "  import java.util.List;".toList
    withoutImportsFrom? "p.q".toList line = some (1, rest) ∧
      ((divisionOf line).without (·.isFrom "p.q".toList)).visible.Sublist rest := by
  intro line rest
  have found : withoutImportsFrom? "p.q".toList line = some (1, rest) := by decide +kernel
  have blankAround : ∀ gap ∈ (divisionOf line).gaps, ∀ c ∈ gap, isBlank c = true := by
    have gaps : (divisionOf line).gaps = [[' ', ' '], [' ', ' '], [' ']] := by decide +kernel
    have blank : isBlank ' ' = true := by decide
    rw [gaps]
    simp [blank]
  exact ⟨found, (visible_sublist_rest_iff found).2.2.mpr blankAround⟩

/-- Of a class that starts behind a dropped import on the same line, nothing is left. -/
theorem visible_not_sublist_rest_class :
    let line := "import net.minecraft.server.World; class Sky \x7b".toList
    withoutImportsFrom? "net.minecraft".toList line = some (1, []) ∧
      ((divisionOf line).without (·.isFrom "net.minecraft".toList)) = " class Sky \x7b".toList ∧
      ¬((divisionOf line).without (·.isFrom "net.minecraft".toList)).visible.Sublist [] := by
  intro line
  have outside : (divisionOf line).without (·.isFrom "net.minecraft".toList) =
      " class Sky \x7b".toList := by decide +kernel
  refine ⟨by decide +kernel, outside, ?_⟩
  rw [outside]
  decide

end NameMigration
