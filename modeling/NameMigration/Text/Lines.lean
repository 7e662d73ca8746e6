import NameMigration.Text.Basic

/-!
The lines of a text. A line ends at a line feed, and one carriage return directly before that line
feed belongs to the line end. Written lines end with a single line feed.
-/

namespace NameMigration.Text

/-- The lines of a text without their line ends. Text behind the last line feed is a line if it is
not empty, and keeps its carriage returns. -/
def lines : Text → List Text
  | [] => []
  | '\n' :: rest => [] :: lines rest
  | '\r' :: '\n' :: rest => [] :: lines rest
  | c :: rest =>
      match lines rest with
      | [] => [[c]]
      | line :: others => (c :: line) :: others

def ofLines (lines : List Text) : Text :=
  lines.flatMap (· ++ ['\n'])

end NameMigration.Text
