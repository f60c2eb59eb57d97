import ShardQuery.Json.Reader
import ShardQuery.Json.Writer
import ShardQuery.Json.Decode
import ShardQuery.Value.Basic
/-!
# Cells

Values as people write them into input files and read them in results: numbers,
texts and truth values as they are, timestamps as dates in a given format.
-/

namespace ShardQuery

namespace Cell

variable (format : Timestamp.Format)

def valueOf? (type : DataType) (cell : Json) : Option Value :=
  match type with
  | .boolean => cell.boolean?.map .boolean
  | .byte => cell.int8?.map .byte
  | .short => cell.int16?.map .short
  | .integer => cell.int32?.map .integer
  | .long => cell.int64?.map .long
  | .float => cell.double?.map (.float ∘ Single.ofDouble)
  | .double => cell.double?.map .double
  | .string => cell.text?.map .string
  | .timestamp =>
    match cell with
    | .text text => (format.parse? text).map .timestamp
    | cell => cell.int64?.map .timestamp
  | .undefined | .aggregationState => none

def read (type : DataType) (cell : Json) : Except String Value :=
  match cell with
  | .null => .ok .null
  | cell =>
    match valueOf? format type cell with
    | some value => .ok value
    | none => .error s!"cannot read {cell.canonical.render} as {type}"

/-- The cells of a row, as many as there are columns. -/
def readRow (types : List DataType) (cells : List Json) : Except String Row :=
  if cells.length ≠ types.length then
    .error s!"row has {cells.length} columns, expected {types.length}"
  else (cells.zip types).mapM fun (cell, type) => read format type cell

/-- A finite double; there are no cells for others. -/
def ofDouble (x : Double) : Json := if x.isFinite then .real x else .null

def ofValue : Value → Json
  | .null => .null
  | .boolean value => .boolean value
  | .byte value => .integer value.toInt
  | .short value => .integer value.toInt
  | .integer value => .integer value.toInt
  | .long value => .integer value.toInt
  | .float value => ofDouble value.toDouble
  | .double value => ofDouble value
  | .string value => .text value
  | .timestamp millis =>
    match format.render? millis with
    | some text => .text text
    | none => .integer millis.toInt
  | .state held => .text (Value.state held).display

def ofRow (row : Row) : Json := .array (row.map (ofValue format))

def ofRows (rows : List Row) : Json := .array (rows.map (ofRow format))

end Cell

end ShardQuery
