import TagTypes.Text.Lower
import TagTypes.Vocabulary

/-!
# Data types of tags

The data type of a tag follows from the type and the format of the property it stands for. Types and formats are compared without regard to letter case; a property of unknown type is a string, and an object has no data type.
-/

namespace TagTypes

inductive DataType where
  | string | int1 | int4 | int8 | float4 | float8 | boolean | dateTime | dataSet
  deriving DecidableEq, Repr

namespace DataType

instance : Vocabulary DataType where
  title := "DataType"
  terms := [
    ⟨.string, "String", "STRING"⟩, ⟨.int1, "Int1", "INT1"⟩, ⟨.int4, "Int4", "INT4"⟩,
    ⟨.int8, "Int8", "INT8"⟩, ⟨.float4, "Float4", "FLOAT4"⟩, ⟨.float8, "Float8", "FLOAT8"⟩,
    ⟨.boolean, "Boolean", "BOOLEAN"⟩, ⟨.dateTime, "DateTime", "DATETIME"⟩,
    ⟨.dataSet, "DataSet", "DATASET"⟩]

def word : DataType → String
  | .string => "String"
  | .int1 => "Int1"
  | .int4 => "Int4"
  | .int8 => "Int8"
  | .float4 => "Float4"
  | .float8 => "Float8"
  | .boolean => "Boolean"
  | .dateTime => "DateTime"
  | .dataSet => "DataSet"

/-- The formats of a string that do not mean a string. There is no type for a date alone. -/
def ofStringFormat (format : String) : DataType :=
  match format with
  | "date-time" | "datetime" | "date" => .dateTime
  | "byte" => .int1
  | _ => .string

def ofNumberFormat (format : String) : DataType :=
  match format with
  | "float" => .float4
  | "int32" | "int" => .int4
  | "int64" | "long" => .int8
  | _ => .float8

/-- The data type of a property. Without a type it is a string, whatever its format. -/
def ofProperty? (type format : Option String) : Option DataType :=
  let format := Text.asciiLower (format.getD "")
  match type.map Text.asciiLower with
  | some "string" => some (ofStringFormat format)
  | some "integer" => some .int4
  | some "number" => some (ofNumberFormat format)
  | some "boolean" => some .boolean
  | some "array" => some .dataSet
  | some "object" => none
  | some _ | none => some .string

def isNestedType (type : Option String) : Bool := type.map Text.asciiLower = some "object"

def isArrayType (type : Option String) : Bool := type.map Text.asciiLower = some "array"

end DataType

end TagTypes
