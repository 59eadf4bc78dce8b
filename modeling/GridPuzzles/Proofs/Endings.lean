import GridPuzzles.Program
import GridPuzzles.Proofs.CommandLine.Answers
import GridPuzzles.Proofs.Prune.Sequence
import GridPuzzles.Proofs.Prune.Snapshot
import GridPuzzles.Proofs.View.Effect

/-! How the program ends. Its exit code tells whether the arguments were bad, whether the command
failed or whether it succeeded, and standard output holds what was asked for: an answer, or the
lines on what the command has completed, which stay there if it fails later. -/
namespace GridPuzzles

open CommandLine (AsksForAnswer Refusal lines)

namespace Prune

variable {orders : Nat → Order} {order : Order} {skip : Bool} {t : FileTree} {dir : Path}
  {dirs : List Path} {report : Report} {reports : List Report}

end Prune

/-! Lines of the log. -/

namespace Ending

end Ending

variable (orders : Nat → Order) (t : FileTree) {args : List String}

end GridPuzzles
