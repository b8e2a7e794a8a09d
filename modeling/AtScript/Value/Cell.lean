import AtScript.Value.Decimal

/-! # Array cells

An array is no container of its own: each cell is an entry of the store, named after the array and
the cell's two coordinates.
-/

namespace AtScript.Cell

/-- The start of the keys of all cells of an array. -/
def keyStart (array : String) : String :=
  array ++ "["

/-- The key of the cell in row `y` and column `x`. -/
def key (array : String) (y x : Int64) : String :=
  keyStart array ++ Decimal.ofInt64 y ++ "," ++ Decimal.ofInt64 x ++ "]"

end AtScript.Cell
