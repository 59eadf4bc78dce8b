import GridPuzzles.Main
import GridPuzzles.Proofs.CommandLine.CellSize
import GridPuzzles.Proofs.Endings
import GridPuzzles.Proofs.Grid.Shape
import GridPuzzles.Proofs.Preview.Recovery
import GridPuzzles.Proofs.Preview.Verdict
import GridPuzzles.Proofs.Preview.Watched
import GridPuzzles.Proofs.Prune.Abort
import GridPuzzles.Proofs.Prune.Damage
import GridPuzzles.Proofs.Prune.Discovery
import GridPuzzles.Proofs.Prune.Independence
import GridPuzzles.Proofs.Prune.Logging
import GridPuzzles.Proofs.Prune.Provision
import GridPuzzles.Proofs.Prune.Remainder
import GridPuzzles.Proofs.Prune.Repetition
import GridPuzzles.Proofs.Prune.Resumption
import GridPuzzles.Proofs.Prune.Skipping
import GridPuzzles.Proofs.Prune.Vanishing
import GridPuzzles.Proofs.Puzzle.Classification
import GridPuzzles.Proofs.Puzzle.Format
import GridPuzzles.Proofs.RoundTrip
import GridPuzzles.Proofs.View.DefaultOutput
import GridPuzzles.Proofs.View.Remaining
import GridPuzzles.Proofs.View.Siblings
