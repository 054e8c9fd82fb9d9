import CallTable.Text
import CallTable.Json
import CallTable.Entry
import CallTable.Profile
import CallTable.Reported
import CallTable.Acceptance
import CallTable.Table
import CallTable.Sources
import CallTable.FileSystem
import CallTable.FileTree
import CallTable.Storage
import CallTable.CommandLine.Reading
import CallTable.CommandLine.Run
import CallTable.Main
import CallTable.Proofs.Acceptance
import CallTable.Proofs.Placement
import CallTable.Proofs.Layout
import CallTable.Proofs.Document.Lines
import CallTable.Proofs.Document.Agreement
import CallTable.Proofs.Text.Cutting
import CallTable.Proofs.Document.Fields
import CallTable.Proofs.Policy
import CallTable.Proofs.Document.Reading
import CallTable.Proofs.Document.Names
import CallTable.Proofs.FirstFault
import CallTable.Proofs.Reordering
import CallTable.Proofs.Document.Offsets
import CallTable.Proofs.FileTree.Access
import CallTable.Proofs.FileTree.Path
import CallTable.Proofs.Storage
import CallTable.Proofs.Text.Occurrences
import CallTable.Proofs.Warnings
import CallTable.Proofs.Document.Wiring
import CallTable.Proofs.Coloring
import CallTable.Proofs.Document.Trace
import CallTable.Proofs.ParameterLists
import CallTable.Proofs.Bounds
import CallTable.Proofs.FileTree.Directories
import CallTable.Proofs.Regeneration
import CallTable.Proofs.Footprint
import CallTable.Proofs.Json
import CallTable.Proofs.Wording
