import CallAudit.Audit.Analysis
import CallAudit.Main
import CallAudit.Report.Draft
import CallAudit.Proofs.Following
import CallAudit.Proofs.Steps
import CallAudit.Proofs.CallPaths
import CallAudit.Proofs.Runs
import CallAudit.Proofs.Escorting
import CallAudit.Proofs.Coverage
import CallAudit.Proofs.Recursion
import CallAudit.Proofs.Pruning
import CallAudit.Proofs.Genuine
import CallAudit.Proofs.Embedding
import CallAudit.Proofs.RootRemoval
import CallAudit.Proofs.Deduplication
import CallAudit.Proofs.Isomorphism
import CallAudit.Proofs.RecordOrder
import CallAudit.Proofs.Encoding
import CallAudit.Proofs.Numerals
import CallAudit.Proofs.Lexing
import CallAudit.Proofs.Reading
import CallAudit.Proofs.StoredRecords
import CallAudit.Proofs.Totality
import CallAudit.Proofs.Additivity
import CallAudit.Proofs.Analyzing
import CallAudit.Proofs.IngestedAudits
import CallAudit.Proofs.StoredMap
import CallAudit.Proofs.Handles
import CallAudit.Proofs.PrettyText
import CallAudit.Proofs.ReportDocuments
import CallAudit.Proofs.Noninterference
import CallAudit.Proofs.LawfulMarkings
import CallAudit.Proofs.RecordGraphs
import CallAudit.Proofs.FailedWrites
import CallAudit.Proofs.Refusals
import CallAudit.Proofs.IngestEffects
import CallAudit.Proofs.EntryIndependence
import CallAudit.Proofs.SortedLists
import CallAudit.Proofs.FindingOrder
import CallAudit.Proofs.CanonicalForms
import CallAudit.Proofs.Drawings
import CallAudit.Proofs.EntrySelection
import CallAudit.Proofs.LogHistories
import CallAudit.Proofs.TomlLimits
import CallAudit.Proofs.Configuration
import CallAudit.Proofs.Instantiations
import CallAudit.Proofs.SortingLinks
import CallAudit.Proofs.MergedRuns
import CallAudit.Proofs.RunSorting
import CallAudit.Proofs.SortedValues
