import ScriptBundler.Main
import ScriptBundler.Proofs.Files.Normalization
import ScriptBundler.Proofs.Graph.Aliases
import ScriptBundler.Proofs.Graph.Caches
import ScriptBundler.Proofs.Graph.Crowding
import ScriptBundler.Proofs.Graph.Faults
import ScriptBundler.Proofs.Graph.Order
import ScriptBundler.Proofs.Graph.Replacements
import ScriptBundler.Proofs.Graph.Requests
import ScriptBundler.Proofs.Graph.Resolution
import ScriptBundler.Proofs.Graph.SourceOrder
import ScriptBundler.Proofs.Graph.Upkeep
import ScriptBundler.Proofs.Module.ExportTables
import ScriptBundler.Proofs.Module.Partition
import ScriptBundler.Proofs.Module.Reexports
import ScriptBundler.Proofs.Output.Agreement
import ScriptBundler.Proofs.Output.Bindings
import ScriptBundler.Proofs.Output.Capture
import ScriptBundler.Proofs.Output.Directive
import ScriptBundler.Proofs.Output.Failures
import ScriptBundler.Proofs.Output.Frames
import ScriptBundler.Proofs.Output.Globals
import ScriptBundler.Proofs.Output.Keys
import ScriptBundler.Proofs.Output.MadeNames
import ScriptBundler.Proofs.Output.Objects
import ScriptBundler.Proofs.Output.Preamble
import ScriptBundler.Proofs.Output.Redeclarations
import ScriptBundler.Proofs.Output.References
import ScriptBundler.Proofs.Output.Repetition
import ScriptBundler.Proofs.Output.Shadowing
import ScriptBundler.Proofs.Output.Writes
import ScriptBundler.Proofs.Scope.Lookups
import ScriptBundler.Proofs.Settings.Layering
import ScriptBundler.Proofs.Text.Snippets
