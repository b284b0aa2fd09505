import Relos.Table.Schema

set_option autoImplicit false

/-! The messages of the gRPC interface, their conversions from and to the types of the table
store, and the statuses that errors become. -/

namespace Relos

namespace Proto

inductive ColumnType where
  | unspecified
  | int64
  | utf8
  | bytes
  | bool
  | float64
deriving DecidableEq

def ColumnType.all : List ColumnType := [.unspecified, .int64, .utf8, .bytes, .bool, .float64]

/-- The number of a variant on the wire. -/
def ColumnType.toInt32 : ColumnType → Int32
  | .unspecified => 0
  | .int64 => 1
  | .utf8 => 2
  | .bytes => 3
  | .bool => 4
  | .float64 => 5

/-- `TryFrom<i32>`, as generated for an enumeration. -/
def ColumnType.tryFrom (ct : Int32) : Option ColumnType :=
  ColumnType.all.find? fun kind => kind.toInt32 = ct

/-- The alternatives of a value. -/
inductive Kind where
  | isNull (value : Bool)
  | int64Value (value : Int64)
  | stringValue (text : String)
  | bytesValue (bytes : Bytes)
  | boolValue (value : Bool)
  | float64Value (bits : UInt64)
deriving DecidableEq

/-- A message that sets none of its alternatives is accepted on the wire. -/
structure Value where
  kind : Option Kind
deriving DecidableEq

/-- An enumeration travels as a number, which need not be that of a variant. -/
structure ColumnDef where
  name : String
  columnType : Int32
  nullable : Bool
deriving DecidableEq

structure TableSchema where
  name : String
  columns : List ColumnDef
  primaryKey : List String
deriving DecidableEq

structure Row where
  values : List Value
deriving DecidableEq

/-- The messages of the six methods. -/
inductive Request where
  | createTable (schema : Option TableSchema)
  | dropTable (table : String)
  | put (table : String) (row : Option Row)
  | delete (table : String) (key : List Value)
  | get (table : String) (key : List Value)
  | scan (table : String)
deriving DecidableEq

inductive Response where
  | createTable
  | dropTable
  | put
  | delete
  | get (found : Bool) (row : Option Row)
  | scan (rows : List Row)
deriving DecidableEq

end Proto

inductive Code where
  | notFound
  | invalidArgument
  | internal
deriving DecidableEq

structure Status where
  code : Code
  message : String
deriving DecidableEq

def Status.notFound (message : String) : Status := ⟨.notFound, message⟩

def Status.invalidArgument (message : String) : Status := ⟨.invalidArgument, message⟩

def Status.internal (message : String) : Status := ⟨.internal, message⟩

def protoColumnTypeToRelos (ct : Int32) : Except Status ColumnType :=
  match Proto.ColumnType.tryFrom ct with
  | some .int64 => .ok .int64
  | some .utf8 => .ok .utf8
  | some .bytes => .ok .bytes
  | some .bool => .ok .bool
  | some .float64 => .ok .float64
  | some .unspecified | none => .error (.invalidArgument "unspecified or unknown column type")

def relosColumnTypeToProto : ColumnType → Proto.ColumnType
  | .int64 => .int64
  | .utf8 => .utf8
  | .bytes => .bytes
  | .bool => .bool
  | .float64 => .float64

def protoValueToRelos (v : Proto.Value) : Value :=
  match v.kind with
  | some (.isNull true) | none => .null
  | some (.isNull false) => .null
  | some (.int64Value n) => .int64 n
  | some (.stringValue s) => .utf8 s
  | some (.bytesValue b) => .bytes b
  | some (.boolValue b) => .bool b
  | some (.float64Value f) => .float64 f

def relosValueToProto (v : Value) : Proto.Value where
  kind := match v with
    | .null => some (.isNull true)
    | .int64 n => some (.int64Value n)
    | .utf8 s => some (.stringValue s)
    | .bytes b => some (.bytesValue b)
    | .bool b => some (.boolValue b)
    | .float64 f => some (.float64Value f)

def protoColumnDefToRelos (cd : Proto.ColumnDef) : Except Status ColumnDef :=
  (protoColumnTypeToRelos cd.columnType).map fun colType =>
    { name := cd.name, colType := colType, nullable := cd.nullable }

def relosColumnDefToProto (cd : ColumnDef) : Proto.ColumnDef where
  name := cd.name
  columnType := (relosColumnTypeToProto cd.colType).toInt32
  nullable := cd.nullable

def protoSchemaToRelos (s : Proto.TableSchema) : Except Status TableSchema :=
  (s.columns.mapM protoColumnDefToRelos).map fun columns =>
    { name := s.name, columns := columns, primaryKey := s.primaryKey }

def relosSchemaToProto (s : TableSchema) : Proto.TableSchema where
  name := s.name
  columns := s.columns.map relosColumnDefToProto
  primaryKey := s.primaryKey

def protoRowToRelos (r : Proto.Row) : Row where
  values := r.values.map protoValueToRelos

def relosRowToProto (r : Row) : Proto.Row where
  values := r.values.map relosValueToProto

def relosErrToStatus : RelosError → Status
  | .notFound msg => .notFound msg
  | .invalidOperation msg => .invalidArgument msg
  | .serialization msg => .internal ("serialization error: " ++ msg)
  | .store msg => .internal ("store error: " ++ msg)
  | .internal msg => .internal msg
  | other => .internal other.toString

/-! ### Round trips -/

section Lists

variable {α β ε : Type} {read : α → Except ε β}

/-- Where reading inverts writing exactly, so it does on lists. -/
theorem mapM_ok_iff {write : β → α} (exactly : ∀ item result, read item = .ok result ↔ item = write result)
    {items : List α} {results : List β} :
    items.mapM read = .ok results ↔ items = results.map write := by
  induction items generalizing results with
  | nil =>
      rw [List.mapM_nil]
      constructor
      · intro same
        cases same
        rfl
      · intro same
        rw [List.map_eq_nil_iff.mp same.symm]
        rfl
  | cons item items ih =>
      rw [List.mapM_cons]
      constructor
      · intro collected
        cases first : read item with
        | error error =>
            rw [first] at collected
            cases collected
        | ok result =>
            cases others : items.mapM read with
            | error error =>
                rw [first, others] at collected
                cases collected
            | ok rest =>
                rw [first, others] at collected
                cases collected
                rw [List.map_cons, (exactly item result).mp first, ih.mp others]
      · intro same
        cases results with
        | nil => cases same
        | cons result results =>
            rw [List.map_cons] at same
            obtain ⟨here, rest⟩ := List.cons.inj same
            rw [(exactly item result).mpr here, ih.mpr rest]
            rfl

/-- A list is refused for one of its items. -/
theorem mapM_error {items : List α} {error : ε} (refused : items.mapM read = .error error) :
    ∃ item ∈ items, read item = .error error := by
  induction items with
  | nil => cases refused
  | cons item items ih =>
      rw [List.mapM_cons] at refused
      cases first : read item with
      | error found =>
          rw [first] at refused
          cases refused
          exact ⟨item, List.mem_cons_self, first⟩
      | ok result =>
          cases others : items.mapM read with
          | ok rest =>
              rw [first, others] at refused
              cases refused
          | error found =>
              rw [first, others] at refused
              cases refused
              obtain ⟨other, member, failed⟩ := ih others
              exact ⟨other, List.mem_cons_of_mem item member, failed⟩

end Lists

theorem toInt32_of_tryFrom {ct : Int32} {kind : Proto.ColumnType}
    (found : Proto.ColumnType.tryFrom ct = some kind) : kind.toInt32 = ct := by
  have matched := List.find?_some found
  exact of_decide_eq_true matched

theorem protoColumnTypeToRelos_ok {ct : Int32} {kind : ColumnType} :
    protoColumnTypeToRelos ct = .ok kind ↔ ct = (relosColumnTypeToProto kind).toInt32 := by
  constructor
  · intro converted
    unfold protoColumnTypeToRelos at converted
    split at converted <;> rename_i found <;> cases converted <;>
      exact (toInt32_of_tryFrom found).symm
  · rintro rfl
    cases kind <;> rfl

/-- Every other number is refused in the same words. -/
theorem protoColumnTypeToRelos_error {ct : Int32} {status : Status}
    (refused : protoColumnTypeToRelos ct = .error status) :
    status = .invalidArgument "unspecified or unknown column type" := by
  unfold protoColumnTypeToRelos at refused
  split at refused <;> cases refused <;> rfl

theorem protoColumnDefToRelos_ok {cd : Proto.ColumnDef} {relos : ColumnDef} :
    protoColumnDefToRelos cd = .ok relos ↔ cd = relosColumnDefToProto relos := by
  obtain ⟨name, columnType, nullable⟩ := cd
  obtain ⟨name', colType, nullable'⟩ := relos
  unfold protoColumnDefToRelos relosColumnDefToProto
  dsimp only
  constructor
  · intro converted
    cases kind : protoColumnTypeToRelos columnType with
    | error status =>
        rw [kind] at converted
        cases converted
    | ok found =>
        rw [kind] at converted
        cases converted
        rw [protoColumnTypeToRelos_ok.mp kind]
  · intro same
    cases same
    rw [protoColumnTypeToRelos_ok.mpr rfl]
    rfl

theorem protoColumnDefToRelos_error {cd : Proto.ColumnDef} {status : Status}
    (refused : protoColumnDefToRelos cd = .error status) :
    status = .invalidArgument "unspecified or unknown column type" := by
  unfold protoColumnDefToRelos at refused
  cases kind : protoColumnTypeToRelos cd.columnType with
  | ok found =>
      rw [kind] at refused
      cases refused
  | error other =>
      rw [kind] at refused
      cases refused
      exact protoColumnTypeToRelos_error kind

/-- The schemas that are accepted are those that are sent. -/
theorem protoSchemaToRelos_ok {s : Proto.TableSchema} {relos : TableSchema} :
    protoSchemaToRelos s = .ok relos ↔ s = relosSchemaToProto relos := by
  obtain ⟨name, columns, primaryKey⟩ := s
  obtain ⟨name', columns', primaryKey'⟩ := relos
  have exactly := @mapM_ok_iff _ _ _ protoColumnDefToRelos relosColumnDefToProto
    (fun _ _ => protoColumnDefToRelos_ok) columns
  unfold protoSchemaToRelos relosSchemaToProto
  dsimp only
  constructor
  · intro converted
    cases collected : columns.mapM protoColumnDefToRelos with
    | error status =>
        rw [collected] at converted
        cases converted
    | ok found =>
        rw [collected] at converted
        cases converted
        rw [exactly.mp collected]
  · intro same
    cases same
    rw [exactly.mpr rfl]
    rfl

theorem protoSchemaToRelos_error {s : Proto.TableSchema} {status : Status}
    (refused : protoSchemaToRelos s = .error status) :
    status = .invalidArgument "unspecified or unknown column type" := by
  unfold protoSchemaToRelos at refused
  cases collected : s.columns.mapM protoColumnDefToRelos with
  | ok found =>
      rw [collected] at refused
      cases refused
  | error other =>
      rw [collected] at refused
      cases refused
      obtain ⟨cd, -, failed⟩ := mapM_error collected
      exact protoColumnDefToRelos_error failed

theorem protoValueToRelos_relosValueToProto (v : Value) :
    protoValueToRelos (relosValueToProto v) = v := by
  cases v <;> rfl

/-- A row comes back from the wire as it was sent. -/
theorem protoRowToRelos_relosRowToProto (r : Row) : protoRowToRelos (relosRowToProto r) = r := by
  obtain ⟨values⟩ := r
  unfold protoRowToRelos relosRowToProto
  dsimp only
  rw [List.map_map, Row.mk.injEq]
  exact (List.map_congr_left fun v _ => protoValueToRelos_relosValueToProto v).trans (List.map_id values)

end Relos
