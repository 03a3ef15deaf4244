import HeaderConstants.Text.Blank

/-!
# Lines

A text is cut into lines at line feeds. A carriage return before the line feed belongs to the line
end, and a text that ends with a line feed has no further, empty line.
-/

namespace HeaderConstants.Text
set_option autoImplicit false

def splitAtFeeds (t : Text) : List Text := splitWhere (· == '\n') t

def withoutReturn (line : Text) : Text :=
  if line.getLast? = some '\r' then line.dropLast else line

/-- Every piece but the last was ended by a line feed. -/
def closeLines : List Text → List Text
  | [] => []
  | [last] => if last.isEmpty then [] else [last]
  | line :: next :: more => withoutReturn line :: closeLines (next :: more)

def lines (t : Text) : List Text := closeLines (splitAtFeeds t)

end HeaderConstants.Text
