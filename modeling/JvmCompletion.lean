import JvmCompletion.Class
import JvmCompletion.Class.Spelling
import JvmCompletion.ClassName
import JvmCompletion.ClassPath
import JvmCompletion.CommandLine.Arguments
import JvmCompletion.CommandLine.Run
import JvmCompletion.Completer
import JvmCompletion.Descriptor
import JvmCompletion.Descriptor.Open
import JvmCompletion.Document
import JvmCompletion.FileTree
import JvmCompletion.Json
import JvmCompletion.LoadError
import JvmCompletion.Main
import JvmCompletion.NameIndex
import JvmCompletion.Names
import JvmCompletion.Proofs.ByteOrder
import JvmCompletion.Proofs.ClassNames
import JvmCompletion.Proofs.ClosedNames
import JvmCompletion.Proofs.DescriptorClasses
import JvmCompletion.Proofs.DescriptorOrder
import JvmCompletion.Proofs.LastBuild
import JvmCompletion.Proofs.MergedNames
import JvmCompletion.Proofs.OpenDescriptors
import JvmCompletion.Proofs.Runs
import JvmCompletion.Proofs.Selections
import JvmCompletion.Proofs.Trimming
import JvmCompletion.Selection
import JvmCompletion.Session
import JvmCompletion.Settings
import JvmCompletion.Snapshot
import JvmCompletion.Sources
import JvmCompletion.Table
import JvmCompletion.Text.Blank
import JvmCompletion.Text.Opening
import JvmCompletion.Toml.Parse
import JvmCompletion.Toml.Quoted
import JvmCompletion.Toml.Reader
import JvmCompletion.Toml.Scalar
import JvmCompletion.Toml.Tree
import JvmCompletion.Toml.Value
import JvmCompletion.Workspace
import JvmCompletion.Proofs.SourceHistory
import JvmCompletion.Proofs.BuildCounts
import JvmCompletion.Proofs.Members
import JvmCompletion.Proofs.TypeSpellings
import JvmCompletion.Proofs.TypedClasses
import JvmCompletion.Proofs.KnownNames
import JvmCompletion.Proofs.Reports
import JvmCompletion.Proofs.OtherCompleters
import JvmCompletion.Proofs.OtherWorkspaces
import JvmCompletion.Proofs.SnapshotClasses
import JvmCompletion.Proofs.SnapshotRequests
import JvmCompletion.Proofs.TypedDescriptors
import JvmCompletion.Proofs.ClassForms
import JvmCompletion.Proofs.Invocations
import JvmCompletion.Proofs.DistinctSignatures
import JvmCompletion.Proofs.TypeNames
import JvmCompletion.Proofs.Narrowing
import JvmCompletion.Proofs.AcceptedSuggestions
import JvmCompletion.Proofs.SurroundingBlanks
import JvmCompletion.Proofs.ContiguousNames
import JvmCompletion.Proofs.SnapshotFaults
import JvmCompletion.Proofs.ClassPathAdditions
import JvmCompletion.Proofs.MergePaths
import JvmCompletion.Proofs.WorkspaceContents
