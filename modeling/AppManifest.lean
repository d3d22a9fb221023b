import AppManifest.Document.Growth
import AppManifest.Host.Local
import AppManifest.Main
import AppManifest.Plugin.Recording
import AppManifest.Plugin.Standard
import AppManifest.Proofs.Entity.Layout
import AppManifest.Proofs.Binary64.Integers
import AppManifest.Proofs.Entity.Codec
import AppManifest.Proofs.Entity.FreeObject
import AppManifest.Proofs.Entity.Function
import AppManifest.Proofs.Entity.Application
import AppManifest.Proofs.Entity.Decoding
import AppManifest.Proofs.Entity.Revalidation
import AppManifest.Proofs.Lint.DanglingReference
import AppManifest.Proofs.Report.Expansion
import AppManifest.Proofs.Report.Agreement
import AppManifest.Proofs.Validation.Violations
import AppManifest.Proofs.Validation.Grammar
import AppManifest.Proofs.Entity.Canonical
import AppManifest.Proofs.Binary64.Decimal
import AppManifest.Proofs.Binary64.ReadBack
import AppManifest.Proofs.Entity.WrittenForm
import AppManifest.Proofs.Json.Tokens
import AppManifest.Proofs.Json.Scalars
import AppManifest.Proofs.Json.Sequences
import AppManifest.Proofs.Json.Trees
import AppManifest.Proofs.Value.Plain
import AppManifest.Proofs.Document.Records
import AppManifest.Proofs.Document.RoundTrip
import AppManifest.Proofs.Entity.Reading
import AppManifest.Proofs.Entity.Contents
import AppManifest.Proofs.Report.Secrecy
import AppManifest.Proofs.Entity.Retention
import AppManifest.Proofs.Json.DistinctKeys
import AppManifest.Proofs.Entity.WrittenKeys
import AppManifest.Proofs.Report.Ambiguity
import AppManifest.Proofs.Report.Rearrangement
import AppManifest.Proofs.Validation.Idempotence
import AppManifest.Proofs.Validation.Paths
import AppManifest.Proofs.Lint.DuplicateBlock
import AppManifest.Proofs.Report.Growth
import AppManifest.Proofs.Path
import AppManifest.Proofs.Validation.Relocation
import AppManifest.Proofs.Report.Collapse
import AppManifest.Proofs.Value.Recognition
import AppManifest.Proofs.Document.Recognition
import AppManifest.Proofs.Entity.Reference
import AppManifest.Proofs.Json.Acceptance
import AppManifest.Proofs.Occurrences
import AppManifest.Proofs.Document.EntryPackage
import AppManifest.Proofs.Report.Candidates
import AppManifest.Proofs.Plugin.History
import AppManifest.Proofs.Plugin.Environment
import AppManifest.Proofs.Text.Position
import AppManifest.Proofs.Entity.Discretion
import AppManifest.Proofs.Path.Unambiguous
import AppManifest.Proofs.Report.Stats
