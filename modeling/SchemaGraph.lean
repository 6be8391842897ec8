import SchemaGraph.Command.Directory
import SchemaGraph.Document.Lines
import SchemaGraph.Document.Written
import SchemaGraph.Main
import SchemaGraph.Session.History
import SchemaGraph.Proofs.Aliases
import SchemaGraph.Proofs.Compilation
import SchemaGraph.Proofs.Expanding
import SchemaGraph.Proofs.Compilable
import SchemaGraph.Proofs.Unfolding
import SchemaGraph.Proofs.EdgeIds
import SchemaGraph.Proofs.SoundDiagrams
import SchemaGraph.Proofs.TableNames
import SchemaGraph.Proofs.SessionSteps
import SchemaGraph.Proofs.SoundRuns
import SchemaGraph.Proofs.Redrawing
import SchemaGraph.Proofs.Reordering
import SchemaGraph.Proofs.UpdateForgets
import SchemaGraph.Proofs.Relationships
import SchemaGraph.Proofs.Remembering
import SchemaGraph.Proofs.Retention
import SchemaGraph.Proofs.Scanning
import SchemaGraph.Proofs.Readers
import SchemaGraph.Proofs.SessionReports
import SchemaGraph.Proofs.Continuation
import SchemaGraph.Proofs.LegacyDialect
import SchemaGraph.Proofs.ContinuedReaders
import SchemaGraph.Proofs.Joining
import SchemaGraph.Proofs.WrittenTokens
import SchemaGraph.Proofs.WrittenPhrases
import SchemaGraph.Proofs.WrittenDocuments
import SchemaGraph.Proofs.Catalogs
import SchemaGraph.Proofs.SpellingOut
import SchemaGraph.Document.Layout
import SchemaGraph.Proofs.CompletionScope
import SchemaGraph.Proofs.LaidOutTables
import SchemaGraph.Proofs.OutlineAgreement
import SchemaGraph.Proofs.AliasMirrors
import SchemaGraph.Proofs.ShownDiagrams
import SchemaGraph.Proofs.NodePlaces
import SchemaGraph.Proofs.Nesting
import SchemaGraph.Proofs.RemovedEdges
import SchemaGraph.Proofs.Traversal
import SchemaGraph.Proofs.TraversedReaders
import SchemaGraph.Proofs.BalancedDocuments
import SchemaGraph.Proofs.LineRanges
import SchemaGraph.Proofs.ReportedLines
import SchemaGraph.Proofs.DiagnosticPlaces
import SchemaGraph.Proofs.Recompiling
import SchemaGraph.Proofs.Ports
import SchemaGraph.Proofs.FailedEdits
import SchemaGraph.Proofs.WrittenNumerals
import SchemaGraph.Proofs.WrittenJson
import SchemaGraph.Proofs.Verdicts
import SchemaGraph.Proofs.ChangesByHand
import SchemaGraph.Proofs.EdgeIdSearch
import SchemaGraph.Proofs.Overrides
import SchemaGraph.Proofs.ColumnRoles
import SchemaGraph.Proofs.PartedTexts
import SchemaGraph.Proofs.WrittenTokenLines
import SchemaGraph.Proofs.QuotedTexts
import SchemaGraph.Proofs.LineContinuation
import SchemaGraph.Document.Worded
import SchemaGraph.Proofs.Narrowing
import SchemaGraph.Proofs.StrayBraces
import SchemaGraph.Proofs.Localization
import SchemaGraph.Proofs.LocalizedReaders
import SchemaGraph.Proofs.OffendingTokens
import SchemaGraph.Proofs.WordCharacters
import SchemaGraph.Proofs.BareNames
import SchemaGraph.Proofs.WordedValues
import SchemaGraph.Proofs.TiledLines
import SchemaGraph.Proofs.TypedWords
import SchemaGraph.Grammar.Routine
import SchemaGraph.Proofs.Routines
import SchemaGraph.Proofs.RoutineReaders
import SchemaGraph.Proofs.ParserProgress
