import WorkerEnv.Text.Blank
import WorkerEnv.Text.Pieces
import WorkerEnv.Text.Search
import WorkerEnv.Text.Lines
import WorkerEnv.Text.Size
import WorkerEnv.Text.Word
import WorkerEnv.Text.Quoted
import WorkerEnv.Declaration.File
import WorkerEnv.Toml.Document
import WorkerEnv.Manifest.Validation
import WorkerEnv.Script.Detection
import WorkerEnv.Main
import WorkerEnv.Proofs.Storage.Segments
import WorkerEnv.Proofs.Command.Ownership
import WorkerEnv.Proofs.Manifest.Validation
import WorkerEnv.Proofs.Declaration.Mapping
import WorkerEnv.Proofs.Declaration.Distinct
import WorkerEnv.Proofs.Declaration.Shape
import WorkerEnv.Proofs.Command.Agreement
import WorkerEnv.Proofs.Declaration.Reading
import WorkerEnv.Proofs.Script.Regions
import WorkerEnv.Proofs.Script.Exports
import WorkerEnv.Proofs.Command.Failing
import WorkerEnv.Proofs.Command.Rooted
import WorkerEnv.Proofs.Command.Isolation
import WorkerEnv.Proofs.Command.Listing
import WorkerEnv.Proofs.Manifest.Position
import WorkerEnv.Proofs.Manifest.Duplicates
import WorkerEnv.Proofs.Manifest.Headers
import WorkerEnv.Proofs.Declaration.Nesting
import WorkerEnv.Proofs.Declaration.Headings
import WorkerEnv.Proofs.Storage.Ascent
import WorkerEnv.Proofs.Command.Precedence
import WorkerEnv.Proofs.Layout.Level
import WorkerEnv.Proofs.Declaration.Assembly
import WorkerEnv.Proofs.Script.Projection
