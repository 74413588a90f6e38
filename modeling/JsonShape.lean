import JsonShape.Document.Load
import JsonShape.Log.Desk
import JsonShape.Main
import JsonShape.Number.Reader
import JsonShape.Proofs.Alias
import JsonShape.Proofs.Binding
import JsonShape.Proofs.Erasure
import JsonShape.Proofs.FirstFault
import JsonShape.Proofs.Isolation
import JsonShape.Proofs.ItemOrder
import JsonShape.Proofs.Listing
import JsonShape.Proofs.Required
import JsonShape.Render.Format
import JsonShape.Settings.File
import JsonShape.Terminal.Highlight
import JsonShape.Terminal.Palette
import JsonShape.Proofs.Files
import JsonShape.Proofs.Precedence
import JsonShape.Proofs.Grammar
import JsonShape.Proofs.DecodeReport
import JsonShape.Proofs.YamlScalar
import JsonShape.Proofs.YamlMapping
import JsonShape.Proofs.Saved
import JsonShape.Proofs.Lattice
import JsonShape.Proofs.Folding
import JsonShape.Proofs.FileFrame
import JsonShape.Proofs.FailedRun
import JsonShape.Proofs.BreadthFirst
import JsonShape.Proofs.ModelOrder
import JsonShape.Proofs.Stability
import JsonShape.Proofs.Termination
import JsonShape.Proofs.Correspondence
import JsonShape.Proofs.Coercion
import JsonShape.Proofs.NumberText
import JsonShape.Proofs.Traversal
import JsonShape.Proofs.EarlyExit
import JsonShape.Proofs.Concatenation
import JsonShape.Proofs.EmptyInput
import JsonShape.Proofs.Handles
import JsonShape.Proofs.Words
import JsonShape.Proofs.Rotation
