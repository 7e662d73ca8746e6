import Mathlib.Data.List.TakeWhile
import NameMigration.Import.Line
import NameMigration.Proofs.LetterRuns

/-!
Reading import statements back. A statement that was read has parts of fixed kinds, and any statement
with such parts is read from its own text, whatever stands behind it. So statements that are joined
by blanks on one line are found again, each of them and nothing else.
-/

namespace NameMigration

namespace Text

theorem isBlank_cases {c : Char} (blank : isBlank c = true) :
    isPathChar c = false ∧ isWord c = false ∧ c ≠ '*' ∧ c ≠ ';' ∧ c ≠ 'i' ∧ isNameChar c = false := by
  have every : ∀ code ∈ [0x9, 0xa, 0xb, 0xc, 0xd, 0x20, 0x85, 0xa0, 0x1680, 0x2000, 0x2001, 0x2002,
      0x2003, 0x2004, 0x2005, 0x2006, 0x2007, 0x2008, 0x2009, 0x200a, 0x2028, 0x2029, 0x202f, 0x205f,
      0x3000], isPathChar (Char.ofNat code) = false ∧ isWord (Char.ofNat code) = false ∧
        Char.ofNat code ≠ '*' ∧ Char.ofNat code ≠ ';' ∧ Char.ofNat code ≠ 'i' ∧
        isNameChar (Char.ofNat code) = false := by
    decide +kernel
  have listed := every c.toNat (by simpa [isBlank] using blank)
  rwa [Char.ofNat_toNat] at listed

theorem isPathChar_cases {c : Char} (pathChar : isPathChar c = true) :
    isBlank c = false ∧ c ≠ '*' ∧ c ≠ ';' := by
  refine ⟨?_, ?_, ?_⟩
  · apply Bool.eq_false_iff.mpr
    intro blank
    rw [(isBlank_cases blank).1] at pathChar
    exact absurd pathChar (by decide)
  · rintro rfl
    exact absurd pathChar (by decide)
  · rintro rfl
    exact absurd pathChar (by decide)

end Text

open Text (isBlank isPathChar isWord)

namespace ImportStatement

structure IsProper (statement : ImportStatement) : Prop where
  gap_ne_nil : statement.gap ≠ []
  gap_blank : ∀ c ∈ statement.gap, isBlank c = true
  staticGap : ∀ gap ∈ statement.staticGap, gap ≠ [] ∧ ∀ c ∈ gap, isBlank c = true
  path_ne_nil : statement.path ≠ []
  path_chars : ∀ c ∈ statement.path, isPathChar c = true
  endGap_blank : ∀ c ∈ statement.endGap, isBlank c = true

def target (statement : ImportStatement) : Text :=
  statement.path ++ (if statement.isWildcard then ['.', '*'] else []) ++ statement.endGap

theorem text_eq (statement : ImportStatement) :
    statement.text = importKeyword ++ (statement.gap ++
      ((match statement.staticGap with
        | some gap => staticKeyword ++ gap
        | none => []) ++ (statement.target ++ [';']))) := by
  cases isStatic : statement.staticGap <;> simp [text, target, isStatic]

theorem stops_path {gap : Text} (blank : ∀ c ∈ gap, isBlank c = true) (rest : Text) :
    ∀ c ∈ (gap ++ ';' :: rest).head?, isPathChar c = false := by
  cases gap with
  | nil => simp; decide
  | cons first others =>
      intro c isFirst
      rw [List.cons_append, List.head?_cons, Option.mem_some_iff] at isFirst
      exact (Text.isBlank_cases (blank c (by simp [isFirst]))).1

theorem span_target {statement : ImportStatement} (proper : statement.IsProper) (rest : Text) :
    (statement.target ++ ';' :: rest).takeWhile isPathChar =
        statement.path ++ (if statement.isWildcard then ['.'] else []) ∧
      (statement.target ++ ';' :: rest).dropWhile isPathChar =
        (if statement.isWildcard then ['*'] else []) ++ (statement.endGap ++ ';' :: rest) := by
  have chars := proper.path_chars
  cases isWildcard : statement.isWildcard with
  | true =>
      have source : statement.target ++ ';' :: rest =
          (statement.path ++ ['.']) ++ '*' :: (statement.endGap ++ ';' :: rest) := by
        simp [target, isWildcard]
      have dotted : ∀ c ∈ statement.path ++ ['.'], isPathChar c = true := by
        intro c member
        rcases List.mem_append.mp member with inPath | isDot
        · exact chars c inPath
        · rw [List.mem_singleton.mp isDot]
          decide
      have star : ∀ c ∈ ('*' :: (statement.endGap ++ ';' :: rest)).head?, isPathChar c = false := by
        simp; decide
      rw [source, Text.takeWhile_append_stop dotted star, Text.dropWhile_append_stop dotted star]
      exact ⟨rfl, rfl⟩
  | false =>
      have source : statement.target ++ ';' :: rest =
          statement.path ++ (statement.endGap ++ ';' :: rest) := by simp [target, isWildcard]
      have stops := stops_path proper.endGap_blank rest
      rw [source, Text.takeWhile_append_stop chars stops, Text.dropWhile_append_stop chars stops]
      exact ⟨(List.append_nil _).symm, rfl⟩

theorem span_endGap {statement : ImportStatement} (proper : statement.IsProper) (rest : Text) :
    (statement.endGap ++ ';' :: rest).takeWhile isBlank = statement.endGap ∧
      (statement.endGap ++ ';' :: rest).dropWhile isBlank = ';' :: rest := by
  have ends : ∀ c ∈ (';' :: rest).head?, isBlank c = false := by simp; decide
  exact ⟨Text.takeWhile_append_stop proper.endGap_blank ends,
    Text.dropWhile_append_stop proper.endGap_blank ends⟩

theorem targetOf?_target {statement : ImportStatement} (proper : statement.IsProper) (rest : Text) :
    targetOf? statement.gap statement.staticGap (statement.target ++ ';' :: rest) =
      some (statement, rest) := by
  obtain ⟨pathPart, behindPath⟩ := span_target proper rest
  obtain ⟨gapPart, behindGap⟩ := span_endGap proper rest
  have nonempty := proper.path_ne_nil
  simp only [targetOf?, pathPart, behindPath]
  obtain ⟨gap, staticGap, path, isWildcard, endGap⟩ := statement
  cases isWildcard with
  | true => simp [gapPart, behindGap, nonempty]
  | false =>
      cases endGap with
      | nil =>
          simp only [List.nil_append] at gapPart behindGap
          simp [gapPart, behindGap, nonempty]
      | cons first others =>
          have noStar : first ≠ '*' :=
            (Text.isBlank_cases (proper.endGap_blank first (by simp))).2.2.1
          simp only [List.cons_append] at gapPart behindGap
          simp [noStar, gapPart, behindGap, nonempty]

theorem targetOf?_semicolon (gap : Text) (staticGap : Option Text) (rest : Text) :
    targetOf? gap staticGap (';' :: rest) = none := by
  have noPath : isPathChar ';' = false := by decide
  have noBlank : isBlank ';' = false := by decide
  simp [targetOf?, noPath, noBlank]

theorem target_head {statement : ImportStatement} (proper : statement.IsProper) (rest : Text) :
    ∀ c ∈ (statement.target ++ ';' :: rest).head?, isBlank c = false := by
  obtain ⟨first, others, path⟩ := List.exists_cons_of_ne_nil proper.path_ne_nil
  intro c isFirst
  simp only [target, path, List.cons_append, List.head?_cons, Option.mem_some_iff] at isFirst
  exact (Text.isPathChar_cases (proper.path_chars c (by simp [path, isFirst]))).1

/-- The keyword `static` with blanks behind it is followed by no target, where a target is read from
its start on: it is then the whole path. -/
theorem staticTargetOf?_target {statement : ImportStatement} (proper : statement.IsProper)
    (gap rest : Text) : staticTargetOf? gap (statement.target ++ ';' :: rest) = none := by
  unfold staticTargetOf?
  split
  · rfl
  · rename_i behind keyword
    split
    · rfl
    · rename_i blankBehind
      have here := Text.after?_eq_some_iff.mp keyword
      have staticChars : ∀ c ∈ staticKeyword, isPathChar c = true :=
        List.all_eq_true.mp (by decide)
      have blankFirst : ∀ c ∈ behind.head?, isPathChar c = false := by
        intro c isFirst
        obtain ⟨others, split⟩ := List.head?_eq_some_iff.mp isFirst
        rw [split, List.takeWhile_cons] at blankBehind
        split at blankBehind
        · rename_i blank
          exact (Text.isBlank_cases blank).1
        · exact absurd rfl blankBehind
      have wholePath := (span_target proper rest).1
      have behindPath := (span_target proper rest).2
      rw [here, Text.takeWhile_append_stop staticChars blankFirst] at wholePath
      rw [here, Text.dropWhile_append_stop staticChars blankFirst] at behindPath
      cases isWildcard : statement.isWildcard with
      | true =>
          rw [isWildcard, if_pos rfl] at wholePath
          have lastDot := congrArg List.getLast? wholePath
          rw [List.getLast?_concat] at lastDot
          exact absurd lastDot (by decide)
      | false =>
          rw [isWildcard, if_neg (by decide), List.nil_append] at behindPath
          rw [behindPath, (span_endGap proper rest).2]
          exact targetOf?_semicolon _ _ rest

/-- A proper statement is read from its own text, whatever follows. -/
theorem ofFront?_text_append {statement : ImportStatement} (proper : statement.IsProper)
    (rest : Text) : ofFront? (statement.text ++ rest) = some (statement, rest) := by
  have read := targetOf?_target proper rest
  have gapBlank := proper.gap_blank
  have gapNonempty := proper.gap_ne_nil
  have head := target_head proper rest
  rw [text_eq]
  simp only [ofFront?, List.append_assoc, List.cons_append, List.nil_append, Text.after?_append]
  cases isStatic : statement.staticGap with
  | none =>
      rw [isStatic] at read
      simp only [List.nil_append, Text.takeWhile_append_stop gapBlank head,
        Text.dropWhile_append_stop gapBlank head, staticTargetOf?_target proper, read]
      simp [gapNonempty]
  | some gap =>
      obtain ⟨staticNonempty, staticBlank⟩ := proper.staticGap gap (by simp [isStatic])
      rw [isStatic] at read
      have noBlank : ∀ c ∈ (staticKeyword ++ (gap ++ (statement.target ++ ';' :: rest))).head?,
          isBlank c = false := by
        simp [staticKeyword]
        decide
      simp only [List.append_assoc, Text.takeWhile_append_stop gapBlank noBlank,
        Text.dropWhile_append_stop gapBlank noBlank, staticTargetOf?, Text.after?_append,
        Text.takeWhile_append_stop staticBlank head, Text.dropWhile_append_stop staticBlank head,
        read]
      simp [gapNonempty, staticNonempty]

theorem isProper_of_targetOf? {gap source rest : Text} {staticGap : Option Text}
    {statement : ImportStatement} (gapNonempty : gap ≠ []) (gapBlank : ∀ c ∈ gap, isBlank c = true)
    (staticProper : ∀ gap ∈ staticGap, gap ≠ [] ∧ ∀ c ∈ gap, isBlank c = true)
    (found : targetOf? gap staticGap source = some (statement, rest)) : statement.IsProper := by
  have blanks : ∀ text : Text, ∀ c ∈ text.takeWhile isBlank, isBlank c = true :=
    fun _ _ member => List.mem_takeWhile_imp member
  have chars : ∀ c ∈ source.takeWhile isPathChar, isPathChar c = true :=
    fun _ member => List.mem_takeWhile_imp member
  unfold targetOf? at found
  simp only at found
  split at found
  · split at found
    · split at found
      · rename_i dotted
        simp only [Option.some.injEq, Prod.mk.injEq] at found
        obtain ⟨rfl, rfl⟩ := found
        exact ⟨gapNonempty, gapBlank, staticProper, dotted.2,
          fun c member => chars c (List.dropLast_subset _ member), blanks _⟩
      · exact absurd found (by simp)
    · exact absurd found (by simp)
  · split at found
    · split at found
      · rename_i nonempty
        simp only [Option.some.injEq, Prod.mk.injEq] at found
        obtain ⟨rfl, rfl⟩ := found
        exact ⟨gapNonempty, gapBlank, staticProper, nonempty, chars, blanks _⟩
      · exact absurd found (by simp)
    · exact absurd found (by simp)

theorem isProper_of_ofFront? {source rest : Text} {statement : ImportStatement}
    (found : ofFront? source = some (statement, rest)) : statement.IsProper := by
  unfold ofFront? at found
  split at found
  · exact absurd found (by simp)
  · rename_i behind keyword
    simp only at found
    split at found
    · exact absurd found (by simp)
    · rename_i gapNonempty
      have gapBlank : ∀ c ∈ behind.takeWhile isBlank, isBlank c = true :=
        fun c member => List.mem_takeWhile_imp member
      rcases Option.or_eq_some_iff.mp found with staticFound | ⟨_, plainFound⟩
      · unfold staticTargetOf? at staticFound
        split at staticFound
        · exact absurd staticFound (by simp)
        · rename_i more staticWord
          split at staticFound
          · exact absurd staticFound (by simp)
          · rename_i staticNonempty
            refine isProper_of_targetOf? gapNonempty gapBlank ?_ staticFound
            intro staticGap same
            rw [Option.mem_some_iff] at same
            subst staticGap
            exact ⟨staticNonempty, fun c member => List.mem_takeWhile_imp member⟩
      · exact isProper_of_targetOf? gapNonempty gapBlank (by simp) plainFound

theorem allIn_cons_of_notFound {c : Char} {behind : Text} (notFound : ofFront? (c :: behind) = none) :
    allIn false (c :: behind) = allIn (isWord c) behind := by
  rw [allIn, if_neg (by decide)]
  split
  · rfl
  · rename_i found
    exact absurd (notFound.symm.trans found) (by simp)

theorem allIn_of_found {source rest : Text} {statement : ImportStatement}
    (found : ofFront? source = some (statement, rest)) :
    allIn false source = statement :: allIn false rest := by
  cases source with
  | nil =>
      have shorter := length_lt_of_ofFront? found
      exact absurd shorter (by simp)
  | cons c behind =>
      rw [allIn, if_neg (by decide)]
      split
      · rename_i notFound
        exact absurd (found.symm.trans notFound) (by simp)
      · rename_i other more foundAgain
        have same := found.symm.trans foundAgain
        simp only [Option.some.injEq, Prod.mk.injEq] at same
        rw [same.1, same.2]

theorem isProper_of_mem_allIn {afterWord : Bool} {source : Text} {statement : ImportStatement}
    (member : statement ∈ allIn afterWord source) : statement.IsProper := by
  induction afterWord, source using allIn.induct with
  | case1 afterWord =>
      rw [allIn] at member
      exact absurd member (by simp)
  | case2 c behind ih =>
      rw [allIn] at member
      exact ih (by simpa using member)
  | case3 afterWord c behind notAfterWord notFound ih =>
      rw [Bool.not_eq_true] at notAfterWord
      rw [notAfterWord, allIn_cons_of_notFound notFound] at member
      exact ih member
  | case4 afterWord c behind notAfterWord first rest found shorter ih =>
      rw [Bool.not_eq_true] at notAfterWord
      rw [notAfterWord, allIn_of_found found] at member
      rcases List.mem_cons.mp member with here | later
      · exact here ▸ isProper_of_ofFront? found
      · exact ih later

theorem ofFront?_blank {c : Char} (blank : isBlank c = true) (behind : Text) :
    ofFront? (c :: behind) = none := by
  obtain ⟨-, -, -, -, notFirst, -⟩ := Text.isBlank_cases blank
  simp [ofFront?, importKeyword, Text.after?, notFirst.symm]

theorem allIn_blanks_append {blanks : Text} (blank : ∀ c ∈ blanks, isBlank c = true) (rest : Text) :
    allIn false (blanks ++ rest) = allIn false rest := by
  induction blanks with
  | nil => rfl
  | cons c others ih =>
      have here := blank c (by simp)
      rw [List.cons_append, allIn_cons_of_notFound (ofFront?_blank here _), (Text.isBlank_cases here).2.1]
      exact ih fun other member => blank other (by simp [member])

theorem allIn_text_append {statement : ImportStatement} (proper : statement.IsProper) (rest : Text) :
    allIn false (statement.text ++ rest) = statement :: allIn false rest :=
  allIn_of_found (ofFront?_text_append proper rest)

theorem allIn_joined {statements : List ImportStatement}
    (proper : ∀ statement ∈ statements, statement.IsProper) :
    allIn false (Text.joinWith [' '] (statements.map text)) = statements := by
  have oneBlank : ∀ c ∈ [' '], isBlank c = true := List.all_eq_true.mp (by decide)
  induction statements with
  | nil => simp [Text.joinWith, allIn]
  | cons first others ih =>
      have firstProper := proper first (by simp)
      have othersProper := ih fun statement member => proper statement (by simp [member])
      cases others with
      | nil =>
          have alone := allIn_text_append firstProper []
          simpa [Text.joinWith, allIn] using alone
      | cons second more =>
          rw [List.map_cons, List.map_cons, Text.joinWith, List.intercalate_cons_cons,
            List.append_assoc, allIn_text_append firstProper, allIn_blanks_append oneBlank]
          exact congrArg (first :: ·) othersProper

end ImportStatement

open ImportStatement (IsProper)

structure IsImportFront (front : Text) : Prop where
  undotted : '.' ∉ front
  spelled : ∃ indent c, front = indent ++ (ImportStatement.importKeyword ++ [c]) ∧
    (∀ d ∈ indent, isBlank d = true) ∧ isBlank c = true

theorem isImportLine_iff {line : Text} :
    isImportLine line = true ↔ ∃ front, IsImportFront front ∧ front <+: line := by
  constructor
  · intro isLine
    unfold isImportLine at isLine
    split at isLine
    · rename_i c rest found
      have behind := Text.after?_eq_some_iff.mp found
      have parts := List.takeWhile_append_dropWhile (p := isBlank) (l := line)
      unfold Text.trimStart at behind
      rw [behind] at parts
      have blanks : ∀ d ∈ line.takeWhile isBlank, isBlank d = true :=
        fun d member => List.mem_takeWhile_imp member
      have notDot : ∀ d, isBlank d = true → '.' ≠ d := by
        rintro d blank rfl
        exact absurd blank (by decide)
      refine ⟨line.takeWhile isBlank ++ (ImportStatement.importKeyword ++ [c]), ⟨?_, ?_⟩, rest,
        by simpa using parts⟩
      · simp only [List.mem_append, List.mem_singleton, not_or]
        exact ⟨fun member => notDot '.' (blanks '.' member) rfl, by decide, notDot c isLine⟩
      · exact ⟨_, c, rfl, blanks, isLine⟩
    · exact absurd isLine (by decide)
  · rintro ⟨front, ⟨_, indent, c, rfl, blanks, blank⟩, rest, rfl⟩
    have stops : ∀ d ∈ (ImportStatement.importKeyword ++ (c :: rest)).head?, isBlank d = false := by
      simp [ImportStatement.importKeyword]
      decide
    have source : (indent ++ (ImportStatement.importKeyword ++ [c])) ++ rest =
        indent ++ (ImportStatement.importKeyword ++ (c :: rest)) := by simp
    rw [source, isImportLine, Text.trimStart, Text.dropWhile_append_stop blanks stops,
      Text.after?_append]
    exact blank

theorem isImportLine_of_no_blank {line : Text} (noBlank : ∀ c ∈ line, isBlank c = false) :
    isImportLine line = false := by
  apply Bool.eq_false_iff.mpr
  intro isLine
  obtain ⟨front, isFront, starts⟩ := isImportLine_iff.mp isLine
  obtain ⟨indent, c, rfl, -, blank⟩ := isFront.spelled
  rw [noBlank c (starts.subset (by simp))] at blank
  exact absurd blank (by decide)

theorem isImportLine_text_append {indent : Text} {statement : ImportStatement}
    (blank : ∀ c ∈ indent, isBlank c = true) (proper : statement.IsProper) (rest : Text) :
    isImportLine (indent ++ (statement.text ++ rest)) = true := by
  obtain ⟨first, others, gap⟩ := List.exists_cons_of_ne_nil proper.gap_ne_nil
  have noBlank : ∀ c ∈ (statement.text ++ rest).head?, isBlank c = false := by
    rw [ImportStatement.text_eq]
    simp [ImportStatement.importKeyword]
    decide
  unfold isImportLine Text.trimStart
  rw [Text.dropWhile_append_stop blank noBlank, ImportStatement.text_eq, List.append_assoc,
    Text.after?_append, gap]
  exact proper.gap_blank first (by simp [gap])

theorem importsOn_joined {indent : Text} {statements : List ImportStatement}
    (nonempty : statements ≠ []) (blank : ∀ c ∈ indent, isBlank c = true)
    (proper : ∀ statement ∈ statements, statement.IsProper) :
    importsOn (indent ++ Text.joinWith [' '] (statements.map ImportStatement.text)) = statements := by
  obtain ⟨first, others, split⟩ := List.exists_cons_of_ne_nil nonempty
  have firstProper := proper first (by simp [split])
  have startsWithFirst : ∃ rest,
      Text.joinWith [' '] (statements.map ImportStatement.text) = first.text ++ rest := by
    cases others with
    | nil => exact ⟨[], by simp [split, Text.joinWith]⟩
    | cons second more =>
        refine ⟨[' '] ++ Text.joinWith [' '] ((second :: more).map ImportStatement.text), ?_⟩
        rw [split, List.map_cons, List.map_cons, Text.joinWith, List.intercalate_cons_cons,
          List.append_assoc]
        rfl
  obtain ⟨rest, starts⟩ := startsWithFirst
  have isLine := isImportLine_text_append blank firstProper rest
  rw [← starts] at isLine
  rw [importsOn, if_pos isLine, ImportStatement.allIn_blanks_append blank,
    ImportStatement.allIn_joined proper]

theorem isProper_of_mem_importsOn {line : Text} {statement : ImportStatement}
    (member : statement ∈ importsOn line) : statement.IsProper := by
  unfold importsOn at member
  split at member
  · exact ImportStatement.isProper_of_mem_allIn member
  · exact absurd member (by simp)

end NameMigration
