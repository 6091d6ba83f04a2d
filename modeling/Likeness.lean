import Likeness.Digest.Grams
import Likeness.Files.Tree
import Likeness.Main
import Likeness.Work.Builder
import Likeness.Proofs.Number.Weight
import Likeness.Proofs.Number.Rounding
import Likeness.Proofs.Outline.Table
import Likeness.Proofs.Outline.Selection
import Likeness.Proofs.Outline.Rounds
import Likeness.Proofs.Outline.Symmetry
import Likeness.Proofs.Outline.Conservation
import Likeness.Proofs.Outline.Limits
import Likeness.Proofs.Outline.Forest
import Likeness.Proofs.Outline.SiblingOrder
import Likeness.Proofs.Outline.Children
import Likeness.Proofs.Outline.Parents
import Likeness.Proofs.Outline.Correspondence
import Likeness.Proofs.Outline.Shape
import Likeness.Proofs.Outline.Identity
import Likeness.Proofs.Outline.Extraction
import Likeness.Proofs.Outline.TreeAlignment
import Likeness.Proofs.Sequence.Runs
import Likeness.Proofs.Sequence.Tiling
import Likeness.Proofs.Sequence.Rounds
import Likeness.Proofs.Sequence.Coverage
import Likeness.Proofs.Batch.Candidates
import Likeness.Proofs.Batch.Books
import Likeness.Proofs.Batch.Soundness
import Likeness.Proofs.Batch.Results
import Likeness.Proofs.Batch.Drive
import Likeness.Proofs.Json.Lexeme
import Likeness.Proofs.Json.Writing
import Likeness.Proofs.Calendar
import Likeness.Proofs.Text.Utf8
import Likeness.Proofs.Json.Decoding
import Likeness.Proofs.Store.Record
import Likeness.Proofs.Store.Records
import Likeness.Proofs.Batch.Keeping
import Likeness.Proofs.Batch.Rerun
import Likeness.Proofs.Files.Host
import Likeness.Proofs.Files.Tree
import Likeness.Proofs.Json.Soundness
import Likeness.Proofs.Store.File
import Likeness.Proofs.Batch.Persistence
import Likeness.Proofs.Outline.Preorder
import Likeness.Proofs.Batch.Agreement
import Likeness.Proofs.Batch.Transparency
import Likeness.Proofs.Store.Durability
import Likeness.Proofs.Ordered
import Likeness.Proofs.Json.Spelling
import Likeness.Proofs.Outline.Levels
import Likeness.Proofs.Work.Builder
import Likeness.Proofs.Work.Record
import Likeness.Proofs.Compare.Record
import Likeness.Proofs.Compare.Levels
import Likeness.Proofs.Batch.Record
import Likeness.Proofs.Compare.Counts
import Likeness.Proofs.Sequence.Window
import Likeness.Proofs.Compare.Symmetry
import Likeness.Proofs.Compare.Fitting
import Likeness.Proofs.Batch.Cancellation
import Likeness.Proofs.Files.Paths
import Likeness.Proofs.Files.Growth
import Likeness.Proofs.Files.Loading
import Likeness.Proofs.Store.Placement
import Likeness.Proofs.Batch.Restart
import Likeness.Proofs.Number.Arithmetic
import Likeness.Proofs.Compare.Mean
import Likeness.Proofs.Command.Rerun
import Likeness.Proofs.Command.Twice
import Likeness.Proofs.Sequence.CommonSubsequence
import Likeness.Proofs.Batch.Status
import Likeness.Proofs.Batch.Threshold
import Likeness.Proofs.Compare.Tokens
import Likeness.Proofs.Command.Halves
import Likeness.Proofs.Files.Cached
import Likeness.Proofs.Sequence.EditDistance
import Likeness.Proofs.Outline.Containment
import Likeness.Proofs.Number.Separation
import Likeness.Proofs.Outline.Pruning
import Likeness.Proofs.Files.Dates
import Likeness.Proofs.Compare.TokenParts
import Likeness.Proofs.Outline.Attribution
import Likeness.Proofs.Digest.Grams
import Likeness.Proofs.Outline.SinglePass
import Likeness.Proofs.Batch.Views
import Likeness.Proofs.Batch.Orientation
import Likeness.Proofs.Files.WellFormed
import Likeness.Proofs.Files.Below
import Likeness.Proofs.Files.Account
import Likeness.Proofs.Work.Labels
import Likeness.Proofs.Batch.Progress
import Likeness.Proofs.Outline.Sections
