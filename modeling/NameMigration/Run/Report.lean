import NameMigration.JsonValue
import NameMigration.Path
import NameMigration.Unit.Counts

/-!
The report of a run, for readers and as JSON.
-/

namespace NameMigration

structure Moment where
  year : Int
  month : Nat
  day : Nat
  hour : Nat
  minute : Nat
  second : Nat
  deriving DecidableEq, Repr

namespace Moment

def padded (width number : Nat) : Text :=
  let digits := Nat.toDigits 10 number
  List.replicate (width - digits.length) '0' ++ digits

/-- Years have four digits. One that needs more, or lies before the year zero, has a sign. -/
def yearText (year : Int) : Text :=
  if year < 0 then '-' :: padded 4 year.natAbs
  else if 9999 < year then '+' :: padded 4 year.natAbs
  else padded 4 year.natAbs

def dateText (moment : Moment) : Text :=
  Text.joinWith ['-'] [yearText moment.year, padded 2 moment.month, padded 2 moment.day]

def timeText (moment : Moment) : Text :=
  Text.joinWith [':'] [padded 2 moment.hour, padded 2 moment.minute, padded 2 moment.second]

def stamp (moment : Moment) : Text :=
  moment.dateText ++ ['T'] ++ moment.timeText ++ ['Z']

end Moment

structure Summary where
  sourceDir : Path
  outputDir : Path
  flatMappings : Nat
  nestedMappings : Nat
  malformedLines : Nat
  units : Nat
  filesWritten : Nat
  dryRun : Bool
  counts : Counts
  deriving DecidableEq, Repr

structure Clock where
  startedAt : Moment
  elapsedMilliseconds : Nat
  deriving DecidableEq, Repr

structure Report extends Summary, Clock
  deriving DecidableEq, Repr

def Summary.report (summary : Summary) (clock : Clock) : Report :=
  { toSummary := summary, toClock := clock }

def Counts.json (counts : Counts) : JsonValue :=
  .ofFields [
    ("changed_lines", .number counts.changedLines),
    ("dropped_imports", .number counts.droppedImports),
    ("flat_replacements", .number counts.flatReplacements),
    ("nested_replacements", .number counts.nestedReplacements),
    ("patches_applied", .number counts.patchesApplied)]

namespace Report

def rule : Text :=
  List.replicate 40 '-'

def numeral (number : Nat) : Text :=
  (toString number).toList

def unitsText (report : Report) : Text :=
  if report.dryRun then numeral report.units ++ " (dry run, nothing written)".toList
  else numeral report.units ++ " (".toList ++ numeral report.filesWritten ++ " written)".toList

def lines (report : Report) : List Text :=
  [ "🔁 Migration ".toList ++ report.sourceDir ++ " -> ".toList ++ report.outputDir,
    rule,
    "Started:   ".toList ++ report.startedAt.dateText ++ [' '] ++ report.startedAt.timeText,
    "Elapsed:   ".toList ++ numeral report.elapsedMilliseconds ++ " ms".toList,
    "Mapping:   ".toList ++ numeral report.flatMappings ++ " flat, ".toList ++
      numeral report.nestedMappings ++ " double, ".toList ++ numeral report.malformedLines ++
      " skipped lines".toList,
    "Units:     ".toList ++ report.unitsText,
    rule,
    "Changed lines:       ".toList ++ numeral report.counts.changedLines,
    "Dropped imports:     ".toList ++ numeral report.counts.droppedImports,
    "Flat replacements:   ".toList ++ numeral report.counts.flatReplacements,
    "Nested replacements: ".toList ++ numeral report.counts.nestedReplacements,
    "Manual patches:      ".toList ++ numeral report.counts.patchesApplied ]

def text (report : Report) : Text :=
  report.lines.flatMap (· ++ ['\n'])

def greatestNumber : Nat := 0xffffffffffffffff

def json? (report : Report) : Option JsonValue :=
  if report.elapsedMilliseconds ≤ greatestNumber then
    some <| .ofFields [
      ("double_mappings", .number report.nestedMappings),
      ("dry_run", .bool report.dryRun),
      ("elapsed_ms", .number report.elapsedMilliseconds),
      ("files_written", .number report.filesWritten),
      ("flat_mappings", .number report.flatMappings),
      ("output_dir", .text report.outputDir),
      ("skipped_mapping_lines", .number report.malformedLines),
      ("source_dir", .text report.sourceDir),
      ("started_at", .text report.startedAt.stamp),
      ("stats", report.counts.json),
      ("units", .number report.units)]
  else none

end Report

end NameMigration
