/-! Lines. A line begins after a line feed and ends before a line feed or a carriage
return, so a carriage return inside what was read so far does not begin a line. -/

namespace EscapeClause.Text

def isLineEnd (c : Char) : Bool := c == '\n' || c == '\r'

/-- The begun line: what follows the last line feed. -/
def begunLine (before : List Char) : List Char :=
  (before.reverse.takeWhile fun c => c != '\n').reverse

/-- The rest of the current line. -/
def lineRest (after : List Char) : List Char := after.takeWhile fun c => !isLineEnd c

def dropLine (after : List Char) : List Char := after.dropWhile fun c => !isLineEnd c

@[simp] theorem lineRest_append_dropLine (cs : List Char) : lineRest cs ++ dropLine cs = cs :=
  List.takeWhile_append_dropWhile

end EscapeClause.Text
