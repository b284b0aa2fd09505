import Relos.Table.Schema
import Mathlib.Logic.Function.Basic

set_option autoImplicit false

/-! What the table store is for: named tables, each a schema and a map from primary
keys to rows. Keys are compared by the encodings of their values. -/

namespace Relos

/-- The values of a row in the primary key columns. -/
def TableSchema.keyOf (schema : TableSchema) (row : Row) : List Value :=
  schema.primaryKey.filterMap fun pkColName =>
    ((schema.columns.map ColumnDef.name).zip row.values).lookup pkColName

/-- Every primary key column is a column. -/
def TableSchema.KeyListed (schema : TableSchema) : Prop :=
  ∀ pkColName ∈ schema.primaryKey, pkColName ∈ schema.columns.map ColumnDef.name

instance (schema : TableSchema) : Decidable schema.KeyListed :=
  inferInstanceAs (Decidable (∀ pkColName ∈ schema.primaryKey, _))

structure Table where
  schema : TableSchema
  rows : Std.ExtTreeMap (List Bytes) Row

def Table.new (schema : TableSchema) : Table := { schema := schema, rows := ∅ }

abbrev Tables := String → Option Table

namespace Tables

variable (encode : Value → Bytes)

/-- A table is created once, dropped with all its rows, and takes rows of its length. -/
def step (tables : Tables) (command : TableCommand) : Tables × TableResponse :=
  match command, tables command.target with
  | .createTable schema, none =>
      (Function.update tables schema.name (some (.new schema)), .ok)
  | .createTable schema, some _ => (tables, .error ("table '" ++ schema.name ++ "' already exists"))
  | .dropTable name, some _ => (Function.update tables name none, .ok)
  | .put name row, some table =>
      if row.values.length = table.schema.columns.length then
        let key := (table.schema.keyOf row).map encode
        (Function.update tables name (some { table with rows := table.rows.insert key row }), .ok)
      else (tables, .error ("row has " ++ toString row.values.length ++ " values but schema has " ++
        toString table.schema.columns.length ++ " columns"))
  | .delete name key, some table =>
      (Function.update tables name
        (some { table with rows := table.rows.erase (key.map encode) }), .ok)
  | .dropTable name, none | .put name _, none | .delete name _, none =>
      (tables, .error ("table '" ++ name ++ "' does not exist"))

/-- The tables after these commands. -/
def after (commands : List TableCommand) : Tables :=
  commands.foldl (fun tables command => (step encode tables command).1) fun _ => none

theorem after_concat (commands : List TableCommand) (command : TableCommand) :
    after encode (commands ++ [command]) = (step encode (after encode commands) command).1 := by
  unfold after
  rw [List.foldl_append]
  rfl

/-- `get` -/
def find (tables : Tables) (name : String) (key : List Value) : Option Row :=
  (tables name).bind fun table => table.rows[key.map encode]?

/-- `scan`, in no particular order -/
def rows (tables : Tables) (name : String) : List Row :=
  match tables name with
  | some table => table.rows.toList.map Prod.snd
  | none => []

end Tables

/-- The tables after the first writes of an order. -/
def tablesAt (codec : TableCodec) (order : List (Nat × TableCommand)) (count : Nat) : Tables :=
  Tables.after codec.value ((order.take count).map Prod.snd)

end Relos
