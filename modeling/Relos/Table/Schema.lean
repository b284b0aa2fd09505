import Relos.Core

set_option autoImplicit false

/-! Schemas, rows and commands of the table store, and what their encodings are
taken to be. -/

namespace Relos

inductive ColumnType where
  | int64
  | utf8
  | bytes
  | bool
  | float64
deriving DecidableEq

structure ColumnDef where
  name : String
  colType : ColumnType
  nullable : Bool
deriving DecidableEq

structure TableSchema where
  name : String
  columns : List ColumnDef
  primaryKey : List String
deriving DecidableEq

/-- Nothing computes with an `f64`: it is its 64 bits. -/
inductive Value where
  | null
  | int64 (value : Int64)
  | utf8 (text : String)
  | bytes (bytes : Bytes)
  | bool (value : Bool)
  | float64 (bits : UInt64)
deriving DecidableEq

structure Row where
  values : List Value
deriving DecidableEq

inductive TableCommand where
  | createTable (schema : TableSchema)
  | dropTable (table : String)
  | put (table : String) (row : Row)
  | delete (table : String) (key : List Value)
deriving DecidableEq

inductive TableResponse where
  | ok
  | error (message : String)
deriving DecidableEq

/-- `hex::encode`, and `bincode` at the types that the tables store and send. That
of a key value is expected to succeed, and panics otherwise. -/
structure TableCodec where
  hex : Bytes → String
  value : Value → Bytes
  row : Bincode Row
  schema : Bincode TableSchema
  command : Bincode TableCommand
  response : Bincode TableResponse

def hexDigits : List Char :=
  ['0', '1', '2', '3', '4', '5', '6', '7', '8', '9', 'a', 'b', 'c', 'd', 'e', 'f']

/-- An enum is never encoded by no bytes: its variant comes first. -/
structure TableCodec.Lawful (codec : TableCodec) : Prop where
  hex_injective : Function.Injective codec.hex
  hex_nil : codec.hex [] = ""
  hex_digits : ∀ bytes, ∀ digit ∈ (codec.hex bytes).toList, digit ∈ hexDigits
  value_ne_nil : ∀ value, codec.value value ≠ []
  row : codec.row.Lawful
  schema : codec.schema.Lawful
  command : codec.command.Lawful
  response : codec.response.Lawful

/-- What the keys of rows rest on. -/
structure TableCodec.KeysLawful (codec : TableCodec) : Prop where
  hex_injective : Function.Injective codec.hex
  hex_nil : codec.hex [] = ""
  hex_digits : ∀ bytes, ∀ digit ∈ (codec.hex bytes).toList, digit ∈ hexDigits
  value_ne_nil : ∀ value, codec.value value ≠ []

theorem TableCodec.Lawful.keys {codec : TableCodec} (lawful : codec.Lawful) : codec.KeysLawful :=
  ⟨lawful.hex_injective, lawful.hex_nil, lawful.hex_digits, lawful.value_ne_nil⟩

/-- The table that a command is applied to. -/
def TableCommand.target : TableCommand → String
  | .createTable schema => schema.name
  | .dropTable table => table
  | .put table _ => table
  | .delete table _ => table

end Relos
