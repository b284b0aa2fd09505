import Relos.Engine.BaseEngine
import Relos.Table.Schema

set_option autoImplicit false

/-! The applicator of the table store. -/

namespace Relos

namespace TableApplicator

variable (codec : TableCodec)

def schemaKey (table : String) : Bytes := utf8 ("schema/" ++ table)

def encodePrimaryKey (values : List Value) : String :=
  "\x00".intercalate (values.map fun value => codec.hex (codec.value value))

def rowKey (table : String) (pkValues : List Value) : Bytes :=
  utf8 ("data/" ++ table ++ "/" ++ encodePrimaryKey codec pkValues)

def rowPrefix (table : String) : Bytes := utf8 ("data/" ++ table ++ "/")

def loadSchema (txn : MemoryWriteTx) (table : String) : Result (Option TableSchema) :=
  match txn.get (schemaKey table) with
  | some bytes => (codec.schema.deserialize bytes).map some
  | none => .ok none

/-- The value of one primary key column. -/
def pkValue (schema : TableSchema) (row : Row) (pkColName : String) : Result Value :=
  match schema.columns.findIdx? fun column => column.name = pkColName with
  | some idx =>
      match row.values[idx]? with
      | some value => .ok value
      | none => .error (.invalidOperation ("row has " ++ toString row.values.length ++
          " values but primary key column '" ++ pkColName ++ "' is at index " ++ toString idx))
  | none => .error (.invalidOperation ("primary key column '" ++ pkColName ++
      "' not found in schema"))

def extractPk (schema : TableSchema) (row : Row) : Result (List Value) :=
  schema.primaryKey.mapM (pkValue schema row)

def makeResponse (resp : TableResponse) : Result ReturnValue :=
  (codec.response.serialize resp).map .data

/-- A rejected command leaves its transaction as it was. -/
def reject (txn : MemoryWriteTx) (message : String) : Result (MemoryWriteTx × ReturnValue) :=
  (makeResponse codec (.error message)).map (txn, ·)

def accept (txn : MemoryWriteTx) : Result (MemoryWriteTx × ReturnValue) :=
  (makeResponse codec .ok).map (txn, ·)

def applyCreateTable (txn : MemoryWriteTx) (schema : TableSchema) :
    Result (MemoryWriteTx × ReturnValue) :=
  let key := schemaKey schema.name
  if (txn.get key).isSome then
    reject codec txn ("table '" ++ schema.name ++ "' already exists")
  else
    (codec.schema.serialize schema).bind fun value => accept codec (txn.put key value)

def applyDropTable (txn : MemoryWriteTx) (table : String) : Result (MemoryWriteTx × ReturnValue) :=
  if (txn.get (schemaKey table)).isNone then
    reject codec txn ("table '" ++ table ++ "' does not exist")
  else
    let txn := txn.delete (schemaKey table)
    let rows := txn.prefixScan (rowPrefix table)
    accept codec (rows.foldl (fun txn row => txn.delete row.1) txn)

def applyPut (txn : MemoryWriteTx) (table : String) (row : Row) :
    Result (MemoryWriteTx × ReturnValue) :=
  (loadSchema codec txn table).bind fun
    | none => reject codec txn ("table '" ++ table ++ "' does not exist")
    | some schema =>
        if row.values.length ≠ schema.columns.length then
          reject codec txn ("row has " ++ toString row.values.length ++
            " values but schema has " ++ toString schema.columns.length ++ " columns")
        else
          (extractPk schema row).bind fun pkValues =>
            (codec.row.serialize row).bind fun value =>
              accept codec (txn.put (rowKey codec table pkValues) value)

def applyDelete (txn : MemoryWriteTx) (table : String) (keyValues : List Value) :
    Result (MemoryWriteTx × ReturnValue) :=
  (loadSchema codec txn table).bind fun
    | none => reject codec txn ("table '" ++ table ++ "' does not exist")
    | some _ => accept codec (txn.delete (rowKey codec table keyValues))

def applyCommand (txn : MemoryWriteTx) : TableCommand → Result (MemoryWriteTx × ReturnValue)
  | .createTable schema => applyCreateTable codec txn schema
  | .dropTable table => applyDropTable codec txn table
  | .put table row => applyPut codec txn table row
  | .delete table key => applyDelete codec txn table key

def apply (txn : MemoryWriteTx) (entry : Entry) : Result (MemoryWriteTx × ReturnValue) :=
  (codec.command.deserialize entry.payload).bind (applyCommand codec txn)

end TableApplicator

def tableApplicator (codec : TableCodec) : Applicator Unit Unit where
  apply _ _ txn entry _ := ((), TableApplicator.apply codec txn entry)

end Relos
