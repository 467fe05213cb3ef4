import ImportScan.Main
import ImportScan.Proofs.Occurrence
import ImportScan.Proofs.PathText
import ImportScan.Proofs.Components
import ImportScan.Proofs.Tree
import ImportScan.Proofs.Resolution
import ImportScan.Proofs.Traversal
import ImportScan.Proofs.Joining
import ImportScan.Proofs.Gathering
import ImportScan.Proofs.Mentions
import ImportScan.Proofs.CollectorRuns
import ImportScan.Proofs.Agreement
import ImportScan.Proofs.AlikeWalk
import ImportScan.Proofs.ScanReport
import ImportScan.Proofs.SourceText
import ImportScan.Proofs.Isolation
import ImportScan.Proofs.Json.Grammar
import ImportScan.Proofs.Json.Strings
import ImportScan.Proofs.Json.Numbers
import ImportScan.Proofs.Json.Values
import ImportScan.Proofs.ConfigReader
import ImportScan.Proofs.ConfigText
import ImportScan.Proofs.Utf8
import ImportScan.Proofs.StrictUtf8
import ImportScan.Proofs.ConfigFile
import ImportScan.Proofs.Truncation
import ImportScan.Proofs.ReportText
import ImportScan.Proofs.ArgumentSpelling
import ImportScan.Proofs.Delivery
import ImportScan.Proofs.RunOutcome
import ImportScan.Proofs.ListedNames
import ImportScan.Proofs.RootLists
import ImportScan.Proofs.Pruning
import ImportScan.Proofs.Additions
import ImportScan.Proofs.InertEntries
import ImportScan.Proofs.ExtensionLists
import ImportScan.Proofs.Places
import ImportScan.Proofs.LinkedRoot
import ImportScan.Proofs.WorkingDirectory
import ImportScan.Proofs.FrontOption
import ImportScan.Proofs.Verbosity
import ImportScan.Proofs.RootOption
import ImportScan.Proofs.Spellings
import ImportScan.Proofs.ResolvedRoots
import ImportScan.Proofs.SameConfig
import ImportScan.Proofs.ExtensionTest
