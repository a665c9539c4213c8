import CallerTree.Text.Utf8

/-!
# The lines of a file

Two readings of the same bytes are in use. The search for call sites ends lines at line feeds, with
or without a carriage return before them. The display of a file also ends them at a lone carriage
return. Both drop bytes that belong to no character, and in both a line feed at the very end starts
no further line.
-/

namespace CallerTree

namespace SourceLines

/-- Every carriage return before a line feed dropped. -/
def joinReturns : Text → Text
  | [] => []
  | .char '\r' :: .char '\n' :: t => .char '\n' :: joinReturns t
  | g :: t => g :: joinReturns t

/-- The lines between line feeds. -/
def cutLines (t : Text) : List Text := (t.dropTail "\n").split '\n'

/-- The lines in which call sites are searched. -/
def ofBytes (data : Bytes) : List Text := cutLines (joinReturns (Text.ofUtf8 data).wellFormed)

/-- The lines shown to a reader; an empty file has none. -/
def shown (data : Bytes) : List Text :=
  if data.isEmpty then []
  else cutLines ((joinReturns (Text.ofUtf8 data).wellFormed).substitute '\r' "\n")

end SourceLines

end CallerTree
