import NameMigration.Proofs.ImportAccounting

/-!
Import statements as they may be written, and the ways to read one. A statement is an expression over
characters with repetitions and parts that may be missing, so a text could be divided among its parts in
several ways. It never can: where one way leads to a whole statement, all others fail. So the statements
that are written on a line are read from it again, in order and each with its own text.
-/

namespace NameMigration

open Text (isBlank isPathChar)

/-! ### The ways to read a statement -/

namespace Text

/-- The divisions of a text behind a run of such characters, the shortest run first. -/
def runs (p : Char → Bool) : Text → List (Text × Text)
  | [] => [([], [])]
  | c :: rest =>
      ([], c :: rest) ::
        if p c then (runs p rest).map fun division => (c :: division.1, division.2) else []

variable {p : Char → Bool} {front text : Text} {c : Char}

theorem runs_stop (stops : ∀ c ∈ text.head?, p c = false) : runs p text = [([], text)] := by
  cases text with
  | nil => rfl
  | cons c rest => simp [runs, stops c rfl]

/-- The runs that end in front of a text come before those that reach it. -/
theorem runs_append (all : ∀ c ∈ front, p c = true) (text : Text) :
    ∃ shorter, runs p (front ++ text) =
        shorter ++ (runs p text).map (fun division => (front ++ division.1, division.2)) ∧
      ∀ division ∈ shorter, ∃ c rest, division.2 = c :: (rest ++ text) ∧
        ∀ d ∈ c :: rest, p d = true := by
  induction front with
  | nil => exact ⟨[], by simp, by simp⟩
  | cons c others ih =>
      obtain ⟨shorter, divisions, each⟩ := ih fun d member => all d (by simp [member])
      refine ⟨([], c :: (others ++ text)) ::
        shorter.map (fun division => (c :: division.1, division.2)), ?_, ?_⟩
      · rw [List.cons_append, runs, if_pos (all c (by simp)), divisions]
        simp [Function.comp_def]
      · intro division member
        rcases List.mem_cons.mp member with rfl | later
        · exact ⟨c, others, rfl, all⟩
        · obtain ⟨shorterDivision, inShorter, rfl⟩ := List.mem_map.mp later
          exact each shorterDivision inShorter

theorem head?_dropWhile (p : Char → Bool) (text : Text) :
    ∀ c ∈ (text.dropWhile p).head?, p c = false := by
  intro c isFirst
  have nonempty : text.dropWhile p ≠ [] := by
    intro empty
    simp [empty] at isFirst
  have first := List.head_dropWhile_not p nonempty
  rw [List.head?_eq_some_head nonempty, Option.mem_some_iff] at isFirst
  rwa [← isFirst]

/-- Where nothing goes on behind a run that could be longer, only the longest run counts. -/
theorem flatMap_reverse_runs {Result : Type} {next : Text × Text → List Result}
    (ends : ∀ run c rest, p c = true → next (run, c :: rest) = []) (text : Text) :
    (runs p text).reverse.flatMap next = next (text.takeWhile p, text.dropWhile p) := by
  have all : ∀ c ∈ text.takeWhile p, p c = true := fun _ member => List.mem_takeWhile_imp member
  obtain ⟨shorter, divisions, each⟩ := runs_append all (text.dropWhile p)
  rw [List.takeWhile_append_dropWhile, runs_stop (head?_dropWhile p text)] at divisions
  have silent : shorter.reverse.flatMap next = [] := by
    rw [List.flatMap_eq_nil_iff]
    rintro ⟨run, behind⟩ member
    obtain ⟨c, rest, rfl, here⟩ := each _ (List.mem_reverse.mp member)
    exact ends run c _ (here c (by simp))
  rw [divisions, List.reverse_append, List.flatMap_append, silent]
  simp

end Text

namespace ImportStatement

def endReadings (begun : Text → ImportStatement) (text : Text) : List (ImportStatement × Text) :=
  (Text.runs isBlank text).reverse.flatMap fun (endGap, behind) =>
    match behind with
    | ';' :: rest => [(begun endGap, rest)]
    | _ => []

/-- The ways to read on behind a path: with a wildcard sooner than without. -/
def readingsBehind (gap : Text) (staticGap : Option Text) (path behind : Text) :
    List (ImportStatement × Text) :=
  (match Text.after? ['.', '*'] behind with
    | some rest => endReadings (⟨gap, staticGap, path, true, ·⟩) rest
    | none => []) ++
  endReadings (⟨gap, staticGap, path, false, ·⟩) behind

/-- The ways to read a path and the end of a statement: as short a path as possible. -/
def targetReadings (gap : Text) (staticGap : Option Text) (source : Text) :
    List (ImportStatement × Text) :=
  (Text.runs isPathChar source).flatMap fun (path, behind) =>
    if path = [] then [] else readingsBehind gap staticGap path behind

def staticReadings (gap source : Text) : List (ImportStatement × Text) :=
  match Text.after? staticKeyword source with
  | none => []
  | some behind => (Text.runs isBlank behind).reverse.flatMap fun (staticGap, target) =>
      if staticGap = [] then [] else targetReadings gap (some staticGap) target

/-- The ways to read a statement at the front of a text, in order of preference: as many blanks as
possible behind a keyword, and with `static` as a keyword sooner than without. -/
def readings (source : Text) : List (ImportStatement × Text) :=
  match Text.after? importKeyword source with
  | none => []
  | some behind => (Text.runs isBlank behind).reverse.flatMap fun (gap, target) =>
      if gap = [] then [] else staticReadings gap target ++ targetReadings gap none target

variable {gap source rest : Text} {staticGap : Option Text} {c : Char}

theorem endReadings_eq (begun : Text → ImportStatement) (text : Text) : endReadings begun text =
    match text.dropWhile isBlank with
    | ';' :: rest => [(begun (text.takeWhile isBlank), rest)]
    | _ => [] := by
  refine Text.flatMap_reverse_runs ?_ text
  intro run c rest blank
  obtain ⟨-, -, -, notSemicolon, -⟩ := Text.isBlank_cases blank
  simp [notSemicolon]

theorem endReadings_of_end {begun : Text → ImportStatement} {text : Text}
    (ended : text.dropWhile isBlank = ';' :: rest) :
    endReadings begun text = [(begun (text.takeWhile isBlank), rest)] := by
  rw [endReadings_eq, ended]
  rfl

theorem endReadings_of_not_end {begun : Text → ImportStatement} {text : Text}
    (notEnded : ∀ rest, text.dropWhile isBlank ≠ ';' :: rest) : endReadings begun text = [] := by
  rw [endReadings_eq]
  split
  · rename_i rest ended
    exact absurd ended (notEnded rest)
  · rfl

theorem endReadings_pathChar (begun : Text → ImportStatement) (pathChar : isPathChar c = true) :
    endReadings begun (c :: rest) = [] := by
  obtain ⟨notBlank, -, notSemicolon⟩ := Text.isPathChar_cases pathChar
  simp [endReadings_eq, notBlank, notSemicolon]

theorem targetOf?_of_stop (stops : ∀ c ∈ source.head?, isPathChar c = false) :
    targetOf? gap staticGap source = none := by
  have noPath : source.takeWhile isPathChar = [] := by
    cases source with
    | nil => rfl
    | cons c others => simp [stops c rfl]
  unfold targetOf?
  simp only [noPath]
  split <;> split <;> simp

theorem readingsBehind_two {path : Text} {d : Char} (first : isPathChar c = true)
    (second : isPathChar d = true) : readingsBehind gap staticGap path (c :: d :: rest) = [] := by
  have noStar : '*' ≠ d := (Text.isPathChar_cases second).2.1.symm
  simp [readingsBehind, Text.after?, noStar, endReadings_pathChar _ first]

theorem readingsBehind_stop {path : Text} (stops : ∀ c ∈ rest.head?, isPathChar c = false) :
    readingsBehind gap staticGap path rest = endReadings (⟨gap, staticGap, path, false, ·⟩) rest := by
  have noWildcard : Text.after? ['.', '*'] rest = none := by
    cases rest with
    | nil => rfl
    | cons c others =>
        have noDot : '.' ≠ c := by
          rintro rfl
          exact absurd (stops '.' rfl) (by decide)
        simp [Text.after?, noDot]
  simp [readingsBehind, noWildcard]

/-- The longest path and the one that is shorter by one character are all that counts. -/
theorem targetReadings_append {front : Text} {last : Char}
    (chars : ∀ c ∈ front ++ [last], isPathChar c = true)
    (stops : ∀ c ∈ rest.head?, isPathChar c = false) :
    targetReadings gap staticGap (front ++ [last] ++ rest) =
      (if front = [] then [] else readingsBehind gap staticGap front (last :: rest)) ++
        readingsBehind gap staticGap (front ++ [last]) rest := by
  have lastChar : isPathChar last = true := chars last (by simp)
  have lastRuns : Text.runs isPathChar (last :: rest) = [([], last :: rest), ([last], rest)] := by
    rw [Text.runs, if_pos lastChar, Text.runs_stop stops]
    rfl
  obtain ⟨shorter, divisions, each⟩ := Text.runs_append
    (fun c member => chars c (List.mem_append_left _ member)) (last :: rest)
  have silent : (shorter.flatMap fun (path, behind) =>
      if path = [] then [] else readingsBehind gap staticGap path behind) = [] := by
    rw [List.flatMap_eq_nil_iff]
    rintro ⟨path, behind⟩ member
    obtain ⟨c, others, rfl, here⟩ := each _ member
    have first : isPathChar c = true := here c (by simp)
    cases others with
    | nil => simp [readingsBehind_two first lastChar]
    | cons d more => simp [readingsBehind_two first (here d (by simp))]
  rw [targetReadings, List.append_assoc, List.singleton_append, divisions, List.flatMap_append,
    silent, lastRuns]
  simp

theorem readingsBehind_last {path : Text} (lastChar : isPathChar c = true) :
    readingsBehind gap staticGap path (c :: rest) =
      match Text.after? ['.', '*'] (c :: rest) with
      | some rest => endReadings (⟨gap, staticGap, path, true, ·⟩) rest
      | none => [] := by
  rw [readingsBehind, endReadings_pathChar _ lastChar, List.append_nil]

/-- All characters of a path belong to it, but for a last dot in front of a star. -/
theorem targetOf?_append {front : Text} {last : Char}
    (chars : ∀ c ∈ front ++ [last], isPathChar c = true)
    (stops : ∀ c ∈ rest.head?, isPathChar c = false) :
    (targetOf? gap staticGap (front ++ [last] ++ rest)).toList =
      (if front = [] then [] else readingsBehind gap staticGap front (last :: rest)) ++
        readingsBehind gap staticGap (front ++ [last]) rest := by
  rw [readingsBehind_last (chars last (by simp)), readingsBehind_stop stops]
  unfold targetOf?
  simp only [Text.takeWhile_append_stop chars stops, Text.dropWhile_append_stop chars stops]
  split
  · rename_i behind
    have noEnd : endReadings (⟨gap, staticGap, front ++ [last], false, ·⟩) ('*' :: behind) = [] := by
      have notBlank : isBlank '*' = false := by decide
      simp [endReadings_eq, notBlank]
    rw [noEnd, List.append_nil]
    split
    · rename_i ended
      by_cases dotted : last = '.'
      · by_cases alone : front = [] <;> simp [dotted, alone, Text.after?, endReadings_of_end ended]
      · simp [dotted, Text.after?, Ne.symm dotted]
    · rename_i notEnded
      by_cases dotted : last = '.'
      · simp [dotted, Text.after?, endReadings_of_not_end notEnded]
      · simp [Text.after?, Ne.symm dotted]
  · rename_i notStar
    have noWildcard : Text.after? ['.', '*'] (last :: rest) = none := by
      cases rest with
      | nil => simp [Text.after?]
      | cons c others =>
          have different : '*' ≠ c := fun same => notStar others (by rw [same])
          simp [Text.after?, different]
    rw [noWildcard]
    split
    · rename_i ended
      simp [endReadings_of_end ended]
    · rename_i notEnded
      simp [endReadings_of_not_end notEnded]

/-- A path has one way to be read only. -/
theorem targetReadings_eq (gap : Text) (staticGap : Option Text) (source : Text) :
    targetReadings gap staticGap source = (targetOf? gap staticGap source).toList := by
  have chars : ∀ c ∈ source.takeWhile isPathChar, isPathChar c = true :=
    fun _ member => List.mem_takeWhile_imp member
  have stops := Text.head?_dropWhile isPathChar source
  have whole := List.takeWhile_append_dropWhile (p := isPathChar) (l := source)
  rcases List.eq_nil_or_concat (source.takeWhile isPathChar) with empty | ⟨front, last, path⟩
  · rw [empty, List.nil_append] at whole
    rw [whole] at stops
    rw [targetOf?_of_stop stops, targetReadings, Text.runs_stop stops]
    simp
  · rw [List.concat_eq_append] at path
    rw [path] at chars whole
    rw [← whole]
    exact (targetReadings_append chars stops).trans (targetOf?_append chars stops).symm

theorem targetReadings_blank {blank : Char} (isBlank : isBlank blank = true) :
    targetReadings gap staticGap (blank :: rest) = [] := by
  rw [targetReadings_eq, targetOf?_of_stop (by simp [(Text.isBlank_cases isBlank).1])]
  rfl

theorem staticReadings_eq (gap source : Text) :
    staticReadings gap source = (staticTargetOf? gap source).toList := by
  cases keyword : Text.after? staticKeyword source with
  | none => simp [staticReadings, staticTargetOf?, keyword]
  | some behind =>
      simp only [staticReadings, staticTargetOf?, keyword]
      rw [Text.flatMap_reverse_runs fun run c rest blank => by simp [targetReadings_blank blank]]
      by_cases noGap : behind.takeWhile isBlank = []
      · simp [noGap]
      · simp only [noGap, if_false, targetReadings_eq]

theorem staticReadings_blank {blank : Char} (isBlank : isBlank blank = true) :
    staticReadings gap (blank :: rest) = [] := by
  have notFirst : 's' ≠ blank := by
    rintro rfl
    exact absurd isBlank (by decide)
  simp [staticReadings, staticKeyword, Text.after?, notFirst]

/-- Where a target stands behind the keyword `static`, the keyword is no path of its own. -/
theorem targetOf?_of_static {found : ImportStatement × Text}
    (isStatic : staticTargetOf? gap source = some found) : targetOf? gap none source = none := by
  unfold staticTargetOf? at isStatic
  split at isStatic
  · exact absurd isStatic (by simp)
  · rename_i behind keyword
    split at isStatic
    · exact absurd isStatic (by simp)
    · rename_i hasGap
      have staticChars : ∀ c ∈ staticKeyword, isPathChar c = true := List.all_eq_true.mp (by decide)
      obtain ⟨blank, blanks, gapSplit⟩ := List.exists_cons_of_ne_nil hasGap
      have gapBlank : isBlank blank = true :=
        List.mem_takeWhile_imp (by rw [gapSplit]; exact List.mem_cons_self)
      have behindSplit := List.takeWhile_append_dropWhile (p := isBlank) (l := behind)
      rw [gapSplit, List.cons_append] at behindSplit
      have stops : ∀ c ∈ behind.head?, isPathChar c = false := by
        rw [← behindSplit]
        simp [(Text.isBlank_cases gapBlank).1]
      have noStar : blank ≠ '*' := (Text.isBlank_cases gapBlank).2.2.1
      have noEnd : ∀ rest, behind.dropWhile isBlank ≠ ';' :: rest := by
        intro rest ended
        rw [ended, targetOf?_semicolon] at isStatic
        exact absurd isStatic (by simp)
      rw [Text.after?_eq_some_iff.mp keyword]
      unfold targetOf?
      simp only [Text.takeWhile_append_stop staticChars stops,
        Text.dropWhile_append_stop staticChars stops]
      split
      · exact absurd (List.cons.inj behindSplit).1 noStar
      · split
        · rename_i ended
          exact absurd ended (noEnd _)
        · rfl

/-- There is at most one way to read a statement at the front of a text, so which way comes first does
not matter. -/
theorem readings_eq (source : Text) : readings source = (ofFront? source).toList := by
  cases keyword : Text.after? importKeyword source with
  | none => simp [readings, ofFront?, keyword]
  | some behind =>
      simp only [readings, ofFront?, keyword]
      rw [Text.flatMap_reverse_runs fun run c rest blank => by
        simp [staticReadings_blank blank, targetReadings_blank blank]]
      by_cases noGap : behind.takeWhile isBlank = []
      · simp [noGap]
      · simp only [noGap, if_false, staticReadings_eq, targetReadings_eq]
        cases isStatic : staticTargetOf? (behind.takeWhile isBlank) (behind.dropWhile isBlank) with
        | none => simp
        | some found => simp [targetOf?_of_static isStatic]

theorem allIn_of_not_infix {afterWord : Bool} (noKeyword : ¬importKeyword <:+: source) :
    allIn afterWord source = [] := by
  induction source generalizing afterWord with
  | nil => rw [allIn]
  | cons c behind ih =>
      have later : ¬importKeyword <:+: behind :=
        fun inside => noKeyword (inside.trans (List.suffix_cons c behind).isInfix)
      have notFound : ofFront? (c :: behind) = none := by
        rw [Option.eq_none_iff_forall_not_mem]
        rintro ⟨statement, rest⟩ found
        refine noKeyword (List.IsPrefix.isInfix ⟨?_, ?_⟩)
        · exact statement.text.drop importKeyword.length ++ rest
        · rw [ofFront?_text found, text_eq]
          simp
      cases afterWord with
      | true => simpa [allIn] using ih later
      | false => rw [allIn_cons_of_notFound notFound, ih later]

end ImportStatement

/-! ### Written statements -/

structure ImportSpec where
  isStatic : Bool
  path : Text
  isWildcard : Bool
  deriving DecidableEq, Repr

def ImportStatement.spec (statement : ImportStatement) : ImportSpec :=
  ⟨statement.isStatic, statement.path, statement.isWildcard⟩

def Text.IsGap (text : Text) : Prop :=
  text ≠ [] ∧ ∀ c ∈ text, isBlank c = true

instance (text : Text) : Decidable text.IsGap :=
  decidable_of_iff (text ≠ [] ∧ text.all isBlank = true) (by simp [Text.IsGap])

structure ImportSpec.IsWrittenAs (spec : ImportSpec) (gap staticGap endGap text : Text) : Prop where
  path_ne_nil : spec.path ≠ []
  path_chars : ∀ c ∈ spec.path, isPathChar c = true
  isGap : gap.IsGap
  isStaticGap : spec.isStatic = true → staticGap.IsGap
  endGap_blank : ∀ c ∈ endGap, isBlank c = true
  text_eq : text = ImportStatement.importKeyword ++ gap ++
    (if spec.isStatic then ImportStatement.staticKeyword ++ staticGap else []) ++ spec.path ++
    (if spec.isWildcard then ['.', '*'] else []) ++ endGap ++ [';']

/-- A line with the statements and their texts: blanks in front of each, and behind the last one
anything without the keyword. -/
inductive IsWrittenLine : List (ImportSpec × Text) → Text → Prop
  | last {spec gap staticGap endGap text} (blanks tail : Text) : (∀ c ∈ blanks, isBlank c = true) →
      spec.IsWrittenAs gap staticGap endGap text → ¬ImportStatement.importKeyword <:+: tail →
      IsWrittenLine [(spec, text)] (blanks ++ (text ++ tail))
  | cons {spec gap staticGap endGap text others rest} (blanks : Text) : (∀ c ∈ blanks, isBlank c = true) →
      spec.IsWrittenAs gap staticGap endGap text → IsWrittenLine others rest →
      IsWrittenLine ((spec, text) :: others) (blanks ++ (text ++ rest))

theorem ImportSpec.IsWrittenAs.exists_statement {spec : ImportSpec}
    {gap staticGap endGap text : Text} (written : spec.IsWrittenAs gap staticGap endGap text) :
    ∃ statement : ImportStatement,
      statement.IsProper ∧ statement.spec = spec ∧ statement.text = text := by
  obtain ⟨isStatic, path, isWildcard⟩ := spec
  obtain ⟨pathNonempty, pathChars, isGap, isStaticGap, endGapBlank, rfl⟩ := written
  refine ⟨⟨gap, if isStatic then some staticGap else none, path, isWildcard, endGap⟩,
    ⟨isGap.1, isGap.2, ?_, pathNonempty, pathChars, endGapBlank⟩, ?_, ?_⟩
  · intro other ofStatic
    cases isStatic with
    | true => exact Option.mem_some_iff.mp ofStatic ▸ isStaticGap rfl
    | false => exact absurd ofStatic (by simp)
  · cases isStatic <;> rfl
  · cases isStatic <;> rfl

namespace IsWrittenLine

variable {written : List (ImportSpec × Text)} {line : Text}

theorem allIn_eq (isWritten : IsWrittenLine written line) :
    (ImportStatement.allIn false line).map (fun statement => (statement.spec, statement.text)) =
      written := by
  induction isWritten with
  | last blanks tail blank isText noKeyword =>
      obtain ⟨statement, proper, rfl, rfl⟩ := isText.exists_statement
      rw [ImportStatement.allIn_blanks_append blank, ImportStatement.allIn_text_append proper,
        ImportStatement.allIn_of_not_infix noKeyword]
      rfl
  | cons blanks blank isText _ ih =>
      obtain ⟨statement, proper, rfl, rfl⟩ := isText.exists_statement
      rw [ImportStatement.allIn_blanks_append blank, ImportStatement.allIn_text_append proper,
        List.map_cons, ih]

theorem isImportLine (isWritten : IsWrittenLine written line) : isImportLine line = true := by
  cases isWritten with
  | last blanks tail blank isText _ =>
      obtain ⟨statement, proper, rfl, rfl⟩ := isText.exists_statement
      exact isImportLine_text_append blank proper _
  | cons blanks blank isText _ =>
      obtain ⟨statement, proper, rfl, rfl⟩ := isText.exists_statement
      exact isImportLine_text_append blank proper _

end IsWrittenLine

/-- The statements that are written on a line are those that are read from it, each with its own text,
and no text can be read as a statement in two ways. -/
theorem importsOn_of_isWrittenLine {written : List (ImportSpec × Text)} {line : Text}
    (isWritten : IsWrittenLine written line) :
    (importsOn line).map (fun statement => (statement.spec, statement.text)) = written ∧
      ∀ source, ImportStatement.readings source = (ImportStatement.ofFront? source).toList := by
  refine ⟨?_, ImportStatement.readings_eq⟩
  rw [importsOn, if_pos isWritten.isImportLine, isWritten.allIn_eq]

def keywordImports : List (ImportSpec × Text) :=
  [(⟨true, "static".toList, false⟩, "import static static ;".toList),
    (⟨false, "import.a.".toList, true⟩, "import\timport.a..*;".toList),
    (⟨false, "static".toList, false⟩, "import static ;".toList)]

def keywordLine : Text :=
  "  import static static ;import\timport.a..*; import static ; // imp".toList

theorem importsOn_keywordImports :
    IsWrittenLine keywordImports keywordLine ∧
      (importsOn keywordLine).map (fun statement => (statement.spec, statement.text)) =
        keywordImports := by
  have staticStatic : ImportSpec.IsWrittenAs ⟨true, "static".toList, false⟩ [' '] [' '] [' ']
      "import static static ;".toList :=
    ⟨by decide, List.all_eq_true.mp (by decide +kernel), by decide +kernel,
      fun _ => by decide +kernel, List.all_eq_true.mp (by decide +kernel), by decide⟩
  have importWildcard : ImportSpec.IsWrittenAs ⟨false, "import.a.".toList, true⟩ ['\t'] [] []
      "import\timport.a..*;".toList :=
    ⟨by decide, List.all_eq_true.mp (by decide +kernel), by decide +kernel, by simp, by simp,
      by decide⟩
  have staticAlone : ImportSpec.IsWrittenAs ⟨false, "static".toList, false⟩ [' '] [] [' ']
      "import static ;".toList :=
    ⟨by decide, List.all_eq_true.mp (by decide +kernel), by decide +kernel, by simp,
      List.all_eq_true.mp (by decide +kernel), by decide⟩
  have spelled : keywordLine = "  ".toList ++ ("import static static ;".toList ++
      ([] ++ ("import\timport.a..*;".toList ++
        (" ".toList ++ ("import static ;".toList ++ " // imp".toList))))) := by decide +kernel
  have isWritten : IsWrittenLine keywordImports keywordLine := by
    rw [spelled]
    refine .cons _ (List.all_eq_true.mp (by decide +kernel)) staticStatic ?_
    refine .cons _ (by simp) importWildcard ?_
    exact .last _ _ (List.all_eq_true.mp (by decide +kernel)) staticAlone (by decide +kernel)
  exact ⟨isWritten, (importsOn_of_isWrittenLine isWritten).1⟩

end NameMigration
