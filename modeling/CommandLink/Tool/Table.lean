/-!
# Tables

A table is drawn with box characters. Every column is as wide as its widest cell and one blank on
either side; a double rule stands below the header and a dashed one between rows.
-/

namespace CommandLink

/-- A text with blanks behind it up to `width` characters; a longer text stays as it is. -/
def Text.padRight (width : Nat) (text : String) : String :=
  text ++ String.ofList (List.replicate (width - text.length) ' ')

/-- A header and rows of as many cells. -/
structure Table where
  header : List String
  rows : List (List String)

namespace Table

/-- The characters that a horizontal rule is drawn with. -/
structure Rule where
  left : Char
  fill : Char
  crossing : Char
  right : Char

/-- The rule above the header. -/
def Rule.top : Rule := ⟨'┌', '─', '┬', '┐'⟩

/-- The rule below the header. -/
def Rule.belowHeader : Rule := ⟨'╞', '═', '╪', '╡'⟩

/-- The rule between two rows. -/
def Rule.betweenRows : Rule := ⟨'├', '╌', '┼', '┤'⟩

/-- The rule below everything. -/
def Rule.bottom : Rule := ⟨'└', '─', '┴', '┘'⟩

/-- The widths of the columns. -/
def widths (t : Table) : List Nat :=
  t.rows.foldl (fun widths row => widths.zipWith (fun width cell => max width cell.length) row)
    (t.header.map String.length)

/-- A rule across columns of the given widths. -/
def Rule.line (r : Rule) (widths : List Nat) : String :=
  let spans := widths.map fun width => String.ofList (List.replicate (width + 2) r.fill)
  r.left.toString ++ r.crossing.toString.intercalate spans ++ r.right.toString

/-- A row of cells in columns of the given widths. -/
def rowLine (widths : List Nat) (cells : List String) : String :=
  "│ " ++ " ┆ ".intercalate (widths.zipWith Text.padRight cells) ++ " │"

/-- The lines of the table. -/
def lines (t : Table) : List String :=
  let widths := t.widths
  let rows := t.rows.map (rowLine widths)
  [Rule.top.line widths, rowLine widths t.header, Rule.belowHeader.line widths]
    ++ rows.intersperse (Rule.betweenRows.line widths) ++ [Rule.bottom.line widths]

/-- The table as text; its last line is not ended. -/
def text (t : Table) : String := "\n".intercalate t.lines

end Table

end CommandLink
