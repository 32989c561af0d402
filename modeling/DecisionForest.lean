import DecisionForest.Number.Numeral
import DecisionForest.Number.Quotient
import DecisionForest.Number.Datum
import DecisionForest.Number.Literal
import DecisionForest.Number.Fixed
import DecisionForest.Number.Shortest
import DecisionForest.Text.Blank
import DecisionForest.Text.Utf8
import DecisionForest.Text.Line
import DecisionForest.Text.Printable
import DecisionForest.Text.Quoted
import DecisionForest.Model.Node
import DecisionForest.Model.Line
import DecisionForest.Model.Catalog
import DecisionForest.Model.Scan
import DecisionForest.Error
import DecisionForest.Log
import DecisionForest.Features
import DecisionForest.FileName
import DecisionForest.Storage
import DecisionForest.Forest.Basic
import DecisionForest.Forest.Reachable
import DecisionForest.Forest.Cycle
import DecisionForest.Forest.Score
import DecisionForest.Forest.Text
import DecisionForest.Forest.Load
import DecisionForest.Row.Line
import DecisionForest.Row.Stream
import DecisionForest.Json.Basic
import DecisionForest.Json.Reader
import DecisionForest.Toml.Basic
import DecisionForest.Toml.Text
import DecisionForest.Toml.Number
import DecisionForest.Toml.Document
import DecisionForest.Settings.Basic
import DecisionForest.Settings.Field
import DecisionForest.Settings.Json
import DecisionForest.Settings.Toml
import DecisionForest.Settings.File
import DecisionForest.Settings.Environment
import DecisionForest.Settings.Profile
import DecisionForest.Settings.Notation
import DecisionForest.Predictor
import DecisionForest.Command.Arguments
import DecisionForest.Command.Run
import DecisionForest.Main
import DecisionForest.Proofs.Results
import DecisionForest.Proofs.Text.Ascii
import DecisionForest.Proofs.Text.Lines
import DecisionForest.Proofs.Text.Words
import DecisionForest.Proofs.Number.RoundTrip
import DecisionForest.Proofs.Number.Places
import DecisionForest.Proofs.Number.Nearest
import DecisionForest.Proofs.Number.Encoding
import DecisionForest.Proofs.Number.Zero
import DecisionForest.Proofs.Number.Reread
import DecisionForest.Proofs.Features
import DecisionForest.Proofs.Model.Node
import DecisionForest.Proofs.Model.Lines
import DecisionForest.Proofs.Model.Faults
import DecisionForest.Proofs.Model.Catalog
import DecisionForest.Proofs.Model.RoundTrip
import DecisionForest.Proofs.Forest.Graph
import DecisionForest.Proofs.Forest.Resolve
import DecisionForest.Proofs.Forest.Loaded
import DecisionForest.Proofs.Forest.Framing
import DecisionForest.Proofs.Forest.Cycle
import DecisionForest.Proofs.Forest.Failures
import DecisionForest.Proofs.Forest.Reachable
import DecisionForest.Proofs.Forest.Preorder
import DecisionForest.Proofs.Forest.Arena
import DecisionForest.Proofs.Forest.Evaluation
import DecisionForest.Proofs.Forest.Depth
import DecisionForest.Proofs.Forest.Embedding
import DecisionForest.Proofs.Forest.Traversal
import DecisionForest.Proofs.Forest.Rearranged
import DecisionForest.Proofs.Forest.RoundTrip
import DecisionForest.Proofs.Forest.Resave
import DecisionForest.Proofs.Row.Line
import DecisionForest.Proofs.Row.Stream
import DecisionForest.Proofs.Row.Cursor
import DecisionForest.Proofs.Row.Parts
import DecisionForest.Proofs.Predictor
import DecisionForest.Proofs.Batch
import DecisionForest.Proofs.Settings.Valid
import DecisionForest.Proofs.Settings.Fields
import DecisionForest.Proofs.Command.Run
import DecisionForest.Proofs.Agreement
import DecisionForest.Proofs.Forest.Tested
import DecisionForest.Proofs.Model.Grammar
import DecisionForest.Proofs.Settings.Variables
import DecisionForest.Proofs.Settings.Files
import DecisionForest.Proofs.Command.Layers
import DecisionForest.Proofs.Json.Written
import DecisionForest.Proofs.Storage
import DecisionForest.Proofs.Toml.Written
import DecisionForest.Proofs.Settings.RoundTrip
import DecisionForest.Proofs.Command.Arguments
