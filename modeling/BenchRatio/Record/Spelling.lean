import BenchRatio.Record.Scanner

/-!
# Writing records

A field is written as it is unless it holds a delimiter, a quote or a terminator; then it stands
between quotes with each quote doubled. A record that is one empty field is written as a pair of
quotes, since an empty line is no record.

Output comes in units of one or two bytes that a buffer never splits: a doubled quote and the pair
of quotes for an empty record are such units, and every other byte is one of its own.

* `units`: a record, its line feed included, as units.
* `encode`: a record as bytes.
-/

namespace BenchRatio.Record

/-- Whether a field has to stand between quotes. -/
def needsQuotes (d : Dialect) (field : Bytes) : Bool :=
  field.any fun b => b = d.delimiter ∨ b = d.quote ∨ isTerminator b

/-- A field's bytes with each quote doubled. -/
def doubled (d : Dialect) (field : Bytes) : List Bytes :=
  field.map fun b => if b = d.quote then [d.quote, d.quote] else [b]

/-- A field as units. -/
def fieldUnits (d : Dialect) (field : Bytes) : List Bytes :=
  if needsQuotes d field then [d.quote] :: (doubled d field ++ [[d.quote]])
  else field.map fun b => [b]

/-- The fields of a record as units, with delimiters between them. -/
def joinUnits (d : Dialect) : List Bytes → List Bytes
  | [] => []
  | [field] => fieldUnits d field
  | field :: more => fieldUnits d field ++ [d.delimiter] :: joinUnits d more

/-- A record as units. -/
def units (d : Dialect) (fields : List Bytes) : List Bytes :=
  (if fields = [[]] then [[d.quote, d.quote]] else joinUnits d fields) ++ [[0x0A]]

/-- A record as bytes. -/
def encode (d : Dialect) (fields : List Bytes) : Bytes := (units d fields).flatten

end BenchRatio.Record
