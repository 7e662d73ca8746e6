import NameMigration.Archive.Checksum
import NameMigration.Archive.CodePage
import NameMigration.Archive.Directory
import NameMigration.Archive.EndRecord
import NameMigration.Archive.Entry
import NameMigration.Archive.Extract
import NameMigration.Archive.Field
import NameMigration.Archive.Inflate
import NameMigration.Archive.PrefixCode
import NameMigration.Command.Answer
import NameMigration.Command.Basic
import NameMigration.Command.Perform
import NameMigration.Command.Switch
import NameMigration.Fault
import NameMigration.FileTree.Basic
import NameMigration.FileTree.Change
import NameMigration.FileTree.Fault
import NameMigration.FileTree.Lookup
import NameMigration.Import.Line
import NameMigration.Import.Statement
import NameMigration.JsonValue
import NameMigration.Main
import NameMigration.Mapping.Basic
import NameMigration.Mapping.Entry
import NameMigration.Mapping.Rename
import NameMigration.Path
import NameMigration.Proofs.DoubledPackages
import NameMigration.Proofs.ImportAccounting
import NameMigration.Proofs.ImportReading
import NameMigration.Proofs.LastEntry
import NameMigration.Proofs.LetterRuns
import NameMigration.Proofs.LineDivision
import NameMigration.Proofs.PassedText
import NameMigration.Proofs.OrderedTexts
import NameMigration.Proofs.OwnName
import NameMigration.Proofs.PlainMapping
import NameMigration.Proofs.QualifiedNames
import NameMigration.Proofs.Scan
import NameMigration.Proofs.SecondRun
import NameMigration.Proofs.SettledLines
import NameMigration.Proofs.UnitCandidates
import NameMigration.Proofs.UnitContext
import NameMigration.Proofs.WordBoundary
import NameMigration.Run.Basic
import NameMigration.Run.Report
import NameMigration.Settings
import NameMigration.Settings.Document
import NameMigration.Sources.Collect
import NameMigration.Sources.Prune
import NameMigration.Sources.Unit
import NameMigration.Substitution.Candidate
import NameMigration.Substitution.Nested
import NameMigration.Substitution.Patch
import NameMigration.Substitution.Position
import NameMigration.Substitution.Rules
import NameMigration.Text.AlphabeticTable
import NameMigration.Text.Basic
import NameMigration.Text.CharClass
import NameMigration.Text.CodePointRanges
import NameMigration.Text.Lines
import NameMigration.Text.Quoted
import NameMigration.Text.UnprintableTable
import NameMigration.Text.Utf8
import NameMigration.Text.WordTable
import NameMigration.Unit.Context
import NameMigration.Unit.Counts
import NameMigration.Unit.Migration
import NameMigration.Yaml.Directive
import NameMigration.Yaml.Node
import NameMigration.Yaml.Scalar
import NameMigration.Yaml.Source
import NameMigration.Yaml.Tag
import NameMigration.Yaml.Token
import NameMigration.Proofs.NestedReference
import NameMigration.Proofs.QualifierStyles
import NameMigration.Proofs.MemberReferences
import NameMigration.Proofs.NameRuns
import NameMigration.Proofs.QuietLines
import NameMigration.Proofs.UnrelatedEntries
import NameMigration.Proofs.PathNames
import NameMigration.Proofs.PathParts
import NameMigration.Proofs.Outcomes
import NameMigration.Proofs.PlainTrees
import NameMigration.Proofs.SourceWalk
import NameMigration.Proofs.RunStages
import NameMigration.Proofs.MirroredRun
import NameMigration.Proofs.EarlyFaults
import NameMigration.Proofs.KeptSources
import NameMigration.Proofs.PathLadders
import NameMigration.Proofs.OpenWays
import NameMigration.Proofs.MadeWays
import NameMigration.Proofs.FileWrites
import NameMigration.Proofs.WriteOrder
import NameMigration.Proofs.Removals
import NameMigration.Proofs.PrunedRoot
import NameMigration.Proofs.ScanDivision
import NameMigration.Proofs.ByteOffsets
import NameMigration.Proofs.LegacyScan
import NameMigration.Proofs.ImportedNames
import NameMigration.Proofs.PlainMentions
import NameMigration.Proofs.MappedScan
import NameMigration.Proofs.NestedReplacements
import NameMigration.Proofs.WrittenImports
import NameMigration.Proofs.WrittenEntries
import NameMigration.Proofs.PackageIndex
import NameMigration.Proofs.PatternOrder
import NameMigration.Proofs.CountedChanges
import NameMigration.Proofs.DecodedText
import NameMigration.Proofs.LineEnds
import NameMigration.Proofs.Extraction
import NameMigration.Proofs.CursorScan
import NameMigration.Proofs.ScanRounds
import NameMigration.Proofs.NameSegments
