import KeywordSurvey.Main
import KeywordSurvey.SourceTree.Memory
import KeywordSurvey.Proofs.Lexer.Occurrence
import KeywordSurvey.Proofs.Survey.Agreement
import KeywordSurvey.Proofs.Survey.Completeness
import KeywordSurvey.Proofs.Survey.FirstFailure
import KeywordSurvey.Proofs.Survey.Interleaving
import KeywordSurvey.Proofs.Survey.Overflow
import KeywordSurvey.Proofs.Survey.Repair
import KeywordSurvey.Proofs.Json.Printed
import KeywordSurvey.Proofs.Lexer.Construct
import KeywordSurvey.Proofs.Rendering.Depth
import KeywordSurvey.Proofs.Survey.Subtree
import KeywordSurvey.Proofs.FileSystem.Disk
import KeywordSurvey.Proofs.Lexer.Enclosure
import KeywordSurvey.Proofs.Lexer.Density
import KeywordSurvey.Proofs.CommandLine.Pending
import KeywordSurvey.Proofs.CommandLine.KeepGoing
import KeywordSurvey.Proofs.Program.Exit
import KeywordSurvey.Proofs.Lexer.Hidden
import KeywordSurvey.Proofs.Lexer.Spacing
import KeywordSurvey.Proofs.Survey.Change
import KeywordSurvey.Proofs.Survey.Links
import KeywordSurvey.Proofs.Report.Grouping
import KeywordSurvey.Proofs.Folder.Addresses
import KeywordSurvey.Proofs.FileSystem.Listing
import KeywordSurvey.Proofs.Rendering.Lines
import KeywordSurvey.Proofs.Survey.Remarks
import KeywordSurvey.Proofs.SourceTree.Endings
