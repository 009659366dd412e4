/-
# Text tables

A table in a frame with a line between all records. Every cell has a blank on either side; its
lines start at the left and at the top.
-/

import Rollup.Command.Width

namespace Rollup.Command.TextTable

/-- The width of each column: that of its widest cell. -/
def columnWidths (records : List (List String)) : List Nat :=
  records.foldl (fun widths record => widest widths (record.map textWidth)) []
where
  /-- The greater widths, column by column. -/
  widest : List Nat → List Nat → List Nat
    | [], widths => widths
    | widths, [] => widths
    | a :: as, b :: bs => max a b :: widest as bs

/-- A line between records, from the corner on the left to the corner on the right. -/
def rule (left cross right : String) (widths : List Nat) : String :=
  left ++ String.intercalate cross
    (widths.map fun width => String.ofList (List.replicate (width + 2) '─')) ++ right

/-- A line of a cell, filled up with blanks. -/
def padded (width : Nat) (line : String) : String :=
  " " ++ line ++ String.ofList (List.replicate (width - lineWidth line) ' ') ++ " "

/-- One line of a record. -/
def recordLine (widths : List Nat) (cells : List (List String)) (line : Nat) : String :=
  "│" ++ String.intercalate "│"
    (List.zipWith (fun width cell => padded width (cell.getD line "")) widths cells) ++ "│"

/-- The lines of a record; it is as high as its highest cell. -/
def recordLines (widths : List Nat) (record : List String) : List String :=
  let cells := record.map linesOf
  let height := (cells.map List.length).foldl max 0
  (List.range height).map (recordLine widths cells)

/-- A table of some records. -/
def render (records : List (List String)) : String :=
  let widths := columnWidths records
  let between := rule "├" "┼" "┤" widths
  let body := [between].intercalate (records.map (recordLines widths))
  String.intercalate "\n" ([rule "┌" "┬" "┐" widths] ++ body ++ [rule "└" "┴" "┘" widths])

end Rollup.Command.TextTable
