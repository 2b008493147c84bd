/-!
# Columns

* `padded` -- a text with blanks after it, up to the width of a column.
-/

namespace GoalWatch.Text

/-- A text with blanks after it, up to the given width. A longer text stands as it is. -/
def padded (width : Nat) (text : String) : String :=
  text ++ String.ofList (List.replicate (width - text.length) ' ')

end GoalWatch.Text
