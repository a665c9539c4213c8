import CallerTree.Text.Numeral
import CallerTree.World

/-!
# Metrics

What is counted during requests is published as named series. The sizes of the trees handed out are
published as a histogram: their number, their sum, and for each bound how many did not exceed it.
-/

namespace CallerTree

namespace Metrics

/-- The bounds of the size histogram: the powers of two from 1 to 8192. -/
def sizeBounds : List Nat := (List.range 14).map (Nat.pow 2)

def outcomeLabel (ok : Bool) : Text := if ok then "ok" else "error"

/-- The series that one count raises, and by how much. -/
def series : Tally → List (Text × Nat)
  | .locate backend ok =>
    [("callscope_locate_total backend=" ++ backend ++ " outcome=" ++ outcomeLabel ok, 1)]
  | .build outcome => [("callscope_index_build_total outcome=" ++ outcome.label, 1)]
  | .resolve outcome =>
    [("callscope_resolve_duration_seconds outcome=" ++ outcome.label ++ " count", 1)]
  | .nodes size =>
    ("callscope_resolve_nodes count", 1) :: ("callscope_resolve_nodes sum", size) ::
      (sizeBounds.filter (size ≤ ·)).map fun bound =>
        ("callscope_resolve_nodes le=" ++ Text.ofNat bound, 1)

end Metrics

end CallerTree
