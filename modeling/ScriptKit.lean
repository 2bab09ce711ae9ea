import ScriptKit.Editor
import ScriptKit.Main
import ScriptKit.Proofs.Build.Refinement
import ScriptKit.Proofs.Build.Termination
import ScriptKit.Proofs.Evaluation.Agreement
import ScriptKit.Proofs.Evaluation.Registers
import ScriptKit.Proofs.Program.RoundTrip
import ScriptKit.Proofs.Token.Tokenization
import ScriptKit.Uri
import ScriptKit.Proofs.Evaluation.Frames
import ScriptKit.Proofs.Build.Flattening
import ScriptKit.Proofs.Program.Pairing
import ScriptKit.Proofs.Program.Governing
import ScriptKit.Proofs.Build.Reading
import ScriptKit.Proofs.Build.Attempts
import ScriptKit.Proofs.Build.Isolation
import ScriptKit.Proofs.FileTree.Making
import ScriptKit.Proofs.Build.Overlay
import ScriptKit.Proofs.Build.Verdict
import ScriptKit.Proofs.Build.Rendering
import ScriptKit.Proofs.Build.Ordering
import ScriptKit.Proofs.Build.Staleness
import ScriptKit.Proofs.Program.Words
import ScriptKit.Proofs.Program.Distinction
import ScriptKit.Proofs.Program.Parts
import ScriptKit.Proofs.Evaluation.DeclaredNames
import ScriptKit.Proofs.Program.ImportSites
import ScriptKit.Proofs.Evaluation.Origin
import ScriptKit.Proofs.Number.Overflow
import ScriptKit.Proofs.Evaluation.Faults
import ScriptKit.Proofs.Token.Layout
import ScriptKit.Proofs.Program.Alike
import ScriptKit.Proofs.Program.Unplaced
import ScriptKit.Proofs.Evaluation.Unplaced
import ScriptKit.Proofs.Json.Numbers
import ScriptKit.Proofs.Json.Strings
import ScriptKit.Proofs.Json.RoundTrip
import ScriptKit.Proofs.Json.Ascii
import ScriptKit.Proofs.Program.Decoding
import ScriptKit.Proofs.Program.Lossless
import ScriptKit.Proofs.Program.Precedence
import ScriptKit.Proofs.Program.Spans
import ScriptKit.Proofs.Program.Viability
import ScriptKit.Proofs.Build.WriteOrder
import ScriptKit.Proofs.Build.Footprint
import ScriptKit.Proofs.Path.Relative
import ScriptKit.Proofs.Build.Mirroring
import ScriptKit.Proofs.Number.Nearest
import ScriptKit.Proofs.Number.Division
import ScriptKit.Proofs.Build.Wrapping
import ScriptKit.Proofs.Evaluation.Comparison
import ScriptKit.Proofs.Editor.Completion
import ScriptKit.Proofs.Editor.Diagnostics
import ScriptKit.Proofs.Json.Sizes
import ScriptKit.Proofs.Build.InPlace
import ScriptKit.Proofs.Build.Configured
import ScriptKit.Proofs.Toolchain.SingleFile
import ScriptKit.Proofs.FileTree.Listing
import ScriptKit.Proofs.Number.Remainder
import ScriptKit.Proofs.FileTree.Descent
import ScriptKit.Proofs.Pattern.Selection
import ScriptKit.Proofs.Discovery.EverySource
import ScriptKit.Proofs.FileTree.Upkeep
