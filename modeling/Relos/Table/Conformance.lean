import Relos.Table.Integrity

set_option autoImplicit false

/-! Where the rows of a table come from, and when they have the types of its columns. -/

namespace Relos

open Serial BaseEngine DelosTable

/-- The variant of the column, or null where the column may be. -/
def Value.Fits (column : ColumnDef) : Value → Prop
  | .null => column.nullable = true
  | .int64 _ => column.colType = .int64
  | .utf8 _ => column.colType = .utf8
  | .bytes _ => column.colType = .bytes
  | .bool _ => column.colType = .bool
  | .float64 _ => column.colType = .float64

instance (column : ColumnDef) (value : Value) : Decidable (value.Fits column) := by
  cases value <;> exact inferInstanceAs (Decidable (_ = _))

/-- A fitting value at each column. -/
def Row.Conforms (schema : TableSchema) (row : Row) : Prop :=
  List.Forall₂ (fun column value => Value.Fits column value) schema.columns row.values

instance (schema : TableSchema) (row : Row) : Decidable (row.Conforms schema) :=
  inferInstanceAs (Decidable (List.Forall₂ _ schema.columns row.values))

/-- These commands put the row when the schema was that of the table, as it is still. -/
structure PutUnder (commands : List TableCommand) (table : String) (row : Row)
    (schema : TableSchema) (calls : List TableCommand) : Prop where
  put : calls ++ [.put table row] <+: commands
  accepted : row.values.length = schema.columns.length ∧ schema.KeyListed
  inForce : ∀ later, calls <+: later → later <+: commands → schemaInForce later table = some schema

namespace PutUnder

variable {commands calls : List TableCommand} {table : String} {row : Row} {schema : TableSchema}

theorem concat {command : TableCommand} (source : PutUnder commands table row schema calls)
    (kept : schemaInForce (commands ++ [command]) table = some schema) :
    PutUnder (commands ++ [command]) table row schema calls where
  put := source.put.trans (List.prefix_append commands [command])
  accepted := source.accepted
  inForce later after upto := by
    rcases List.prefix_concat_iff.mp upto with rfl | earlier
    · exact kept
    · exact source.inForce later after earlier

theorem current (source : PutUnder commands table row schema calls) :
    schemaInForce commands table = some schema :=
  source.inForce commands ((List.prefix_append calls _).trans source.put) (List.prefix_refl _)

theorem atPut (source : PutUnder commands table row schema calls) :
    schemaInForce calls table = some schema :=
  source.inForce calls (List.prefix_refl _) ((List.prefix_append calls _).trans source.put)

/-- The put that has just been made. -/
theorem last (found : schemaInForce commands table = some schema)
    (accepted : row.values.length = schema.columns.length ∧ schema.KeyListed) :
    PutUnder (commands ++ [.put table row]) table row schema commands where
  put := List.prefix_refl _
  accepted := accepted
  inForce later after upto := by
    rcases List.prefix_concat_iff.mp upto with rfl | earlier
    · rw [schemaInForce_concat]
      exact found
    · rw [List.IsPrefix.eq_of_length_le earlier after.length_le]
      exact found

end PutUnder

namespace TableApplicator

variable {codec : TableCodec}

theorem SchemaAt.unique {data : StoreData} {table : String} {schema schema' : TableSchema}
    (schemaAt : SchemaAt codec data table (some schema))
    (schemaAt' : SchemaAt codec data table (some schema')) : schema = schema' := by
  obtain ⟨bytes, held, decoded⟩ := schemaAt
  obtain ⟨bytes', held', decoded'⟩ := schemaAt'
  cases held.symm.trans held'
  cases decoded.symm.trans decoded'
  rfl

/-- Every row was put under the schema that its table has. -/
def Sourced (codec : TableCodec) (commands : List TableCommand) (data : StoreData) : Prop :=
  ∀ table pkEncoded bytes, '/' ∉ pkEncoded.toList → data[dataKey table pkEncoded]? = some bytes →
    ∃ row schema calls, codec.row.deserialize bytes = .ok row ∧
      PutUnder commands table row schema calls

/-- Every row has the types of the columns of its table. -/
def Conforming (codec : TableCodec) (data : StoreData) : Prop :=
  ∀ table pkEncoded bytes, '/' ∉ pkEncoded.toList → data[dataKey table pkEncoded]? = some bytes →
    ∃ row schema, codec.row.deserialize bytes = .ok row ∧
      SchemaAt codec data table (some schema) ∧ row.Conforms schema

theorem schemas_stored (lawful : codec.Lawful) (commands : List TableCommand) (table : String) :
    SchemaAt codec (stored codec commands).data table (schemaInForce commands table) := by
  induction commands using List.reverseRecOn generalizing table with
  | nil => rfl
  | append_singleton commands command ih =>
      have outcome : Outcome codec (stored codec commands).beginWriteTxn command
          (applyCommand codec (stored codec commands).beginWriteTxn command) _ :=
        applyCommand_outcome lawful (ih command.target)
      rw [stored_concat, applyOne_eq lawful, schemaInForce_concat]
      cases ran : applyCommand codec (stored codec commands).beginWriteTxn command with
      | ok applied =>
          obtain ⟨txn, rv⟩ := applied
          rw [ran] at outcome
          exact (outcome.schemas ih table).congr (getElem?_insert_of_ne (cursorKey_ne_schemaKey table))
      | error error =>
          -- Only a put fails, and it leaves the schemas.
          have refused : ¬ command.AppliesTo (schemaInForce commands command.target) := by
            intro applies
            obtain ⟨applied, impossible⟩ := outcome.applies_iff.mpr applies
            rw [ran] at impossible
            cases impossible
          cases command with
          | put name row => exact ih table
          | createTable schema => exact absurd trivial refused
          | dropTable name => exact absurd trivial refused
          | delete name key => exact absurd trivial refused

/-- A row that a command leaves was there before, or is that of a put. -/
theorem Change.row (lawful : codec.Lawful) {txn txn' : MemoryWriteTx} {found : Option TableSchema}
    {command : TableCommand} (change : Change codec txn found command txn')
    {table pkEncoded : String} {bytes : Bytes} (free : '/' ∉ pkEncoded.toList)
    (held : txn'.working[dataKey table pkEncoded]? = some bytes) :
    txn.working[dataKey table pkEncoded]? = some bytes ∨
    ∃ row schema, command = .put table row ∧ found = some schema ∧
      (row.values.length = schema.columns.length ∧ schema.KeyListed) ∧
      codec.row.deserialize bytes = .ok row := by
  cases change with
  | rejected => exact Or.inl held
  | created absent decoded =>
      rw [← held]
      exact Or.inl (getElem?_insert_of_ne (schemaKey_ne_dataKey _ _ _)).symm
  | dropped =>
      rw [getElem?_dropped] at held
      split at held
      · cases held
      · exact Or.inl held
  | @stored target row schema pkValues value present length extracted decoded =>
      by_cases here : rowKey codec target pkValues = dataKey table pkEncoded
      · obtain ⟨same, -⟩ :=
          dataKey_injective (slash_not_mem_encodePrimaryKey lawful.keys pkValues) free here
        cases same
        unfold MemoryWriteTx.put at held
        rw [here, Std.ExtTreeMap.getElem?_insert_self] at held
        cases held
        exact Or.inr ⟨row, schema, rfl, present,
          ⟨length, (extractPk_ok_iff length).mp ⟨pkValues, extracted⟩⟩, decoded⟩
      · rw [← held]
        exact Or.inl (getElem?_insert_of_ne here).symm
  | @deleted target key =>
      by_cases here : rowKey codec target key = dataKey table pkEncoded
      · unfold MemoryWriteTx.delete at held
        rw [here, Std.ExtTreeMap.getElem?_erase_self] at held
        cases held
      · rw [← held]
        exact Or.inl (getElem?_erase_of_ne here).symm

/-- Only its drop takes the schema of a table away. -/
theorem schemaStep_some {command : TableCommand} {table : String} {schema : TableSchema}
    (other : command ≠ .dropTable table) :
    command.schemaStep table (some schema) = some schema := by
  cases command with
  | createTable created => exact if_neg fun both => nomatch both.2
  | dropTable dropped => exact if_neg fun same => other (congrArg TableCommand.dropTable same)
  | put name row => rfl
  | delete name key => rfl

/-- A table with a row has a schema. -/
theorem schema_of_row (lawful : codec.Lawful) {commands : List TableCommand}
    {table pkEncoded : String} {bytes : Bytes} (free : '/' ∉ pkEncoded.toList)
    (held : (stored codec commands).data[dataKey table pkEncoded]? = some bytes) :
    schemaInForce commands table ≠ none := by
  obtain ⟨encoded, schema, row, pkValues, present, -⟩ :=
    (Sound.stored lawful commands).integrity table pkEncoded bytes free held
  have schemaAt := schemas_stored lawful commands table
  intro absent
  rw [absent] at schemaAt
  cases schemaAt.symm.trans present

theorem Sourced.stored (lawful : codec.Lawful) (commands : List TableCommand) :
    Sourced codec commands (stored codec commands).data := by
  induction commands using List.reverseRecOn with
  | nil =>
      intro table pkEncoded bytes free held
      cases held
  | append_singleton commands command ih =>
      intro table pkEncoded bytes free held
      have remains := schema_of_row lawful free held
      have other : command ≠ .dropTable table := by
        rintro rfl
        rw [schemaInForce_concat] at remains
        exact remains (if_pos rfl)
      have kept (before : (DelosTable.stored codec commands).data[dataKey table pkEncoded]? =
          some bytes) : ∃ row schema calls, codec.row.deserialize bytes = .ok row ∧
            PutUnder (commands ++ [command]) table row schema calls := by
        obtain ⟨row, schema, calls, decoded, source⟩ := ih table pkEncoded bytes free before
        refine ⟨row, schema, calls, decoded, source.concat ?_⟩
        rw [schemaInForce_concat, source.current]
        exact schemaStep_some other
      rw [stored_concat] at held
      rcases storeAfter_cases lawful with same | ⟨txn, rv, ran, same⟩
      · rw [same] at held
        exact kept held
      · rw [same _ (cursorKey_ne_dataKey table pkEncoded)] at held
        have outcome : Outcome codec (DelosTable.stored codec commands).beginWriteTxn command
            (applyCommand codec (DelosTable.stored codec commands).beginWriteTxn command)
            (schemaInForce commands command.target) :=
          applyCommand_outcome lawful (schemas_stored lawful commands command.target)
        rw [ran] at outcome
        rcases outcome.change.row lawful free held with before | ⟨row, schema, put, found, accepted, decoded⟩
        · exact kept before
        · cases put
          exact ⟨row, schema, commands, decoded, .last found accepted⟩

/-- The row of an accepted put is in the store after it. -/
theorem put_stored (lawful : codec.Lawful) {calls : List TableCommand} {table : String} {row : Row}
    {schema : TableSchema} (found : schemaInForce calls table = some schema)
    (length : row.values.length = schema.columns.length) (listed : schema.KeyListed) :
    ∃ pkValues bytes, codec.row.deserialize bytes = .ok row ∧
      (stored codec (calls ++ [.put table row])).data[rowKey codec table pkValues]? = some bytes := by
  obtain ⟨pkValues, extracted⟩ := (extractPk_ok_iff length).mpr listed
  have outcome : Outcome codec (stored codec calls).beginWriteTxn (.put table row)
      (applyCommand codec (stored codec calls).beginWriteTxn (.put table row))
      (schemaInForce calls table) :=
    applyCommand_outcome lawful (schemas_stored lawful calls table)
  rw [found] at outcome
  unfold Outcome at outcome
  dsimp only at outcome
  rw [if_pos length, extracted] at outcome
  obtain ⟨bytes, decoded, -, responds⟩ := outcome
  refine ⟨pkValues, bytes, decoded, ?_⟩
  rw [stored_of_responds lawful responds (cursorKey_ne_rowKey codec table pkValues)]
  exact Std.ExtTreeMap.getElem?_insert_self

/-- All states on the way conform if and only if every accepted put does. -/
theorem conforming_iff (lawful : codec.Lawful) (commands : List TableCommand) :
    (∀ calls, calls <+: commands → Conforming codec (stored codec calls).data) ↔
      ∀ calls table row schema, calls ++ [.put table row] <+: commands →
        schemaInForce calls table = some schema → schema.KeyListed →
        row.values.length = schema.columns.length → row.Conforms schema := by
  constructor
  · intro conforming calls table row schema put found listed length
    obtain ⟨pkValues, bytes, decoded, held⟩ := put_stored lawful found length listed
    obtain ⟨row', schema', decoded', schemaAt, conforms⟩ :=
      conforming _ put table _ bytes (slash_not_mem_encodePrimaryKey lawful.keys pkValues) held
    have current := schemas_stored lawful (calls ++ [.put table row]) table
    rw [schemaInForce_concat, found] at current
    cases decoded.symm.trans decoded'
    cases current.unique schemaAt
    exact conforms
  · intro puts calls upto table pkEncoded bytes free held
    obtain ⟨row, schema, earlier, decoded, source⟩ :=
      Sourced.stored lawful calls table pkEncoded bytes free held
    have schemaAt := schemas_stored lawful calls table
    rw [source.current] at schemaAt
    exact ⟨row, schema, decoded, schemaAt, puts earlier table row schema (source.put.trans upto)
      source.atPut source.accepted.2 source.accepted.1⟩

/-- Every row is that of a put under the schema that its table still has, with a value
for each column. The types of the values are those of the puts: nothing checks them. -/
theorem rows_as_put (lawful : codec.Lawful) (commands : List TableCommand) :
    (∀ table pkEncoded bytes, '/' ∉ pkEncoded.toList →
      (stored codec commands).data[dataKey table pkEncoded]? = some bytes →
      ∃ row schema calls, codec.row.deserialize bytes = .ok row ∧
        SchemaAt codec (stored codec commands).data table (some schema) ∧
        PutUnder commands table row schema calls) ∧
    ((∀ calls, calls <+: commands → Conforming codec (stored codec calls).data) ↔
      ∀ calls table row schema, calls ++ [.put table row] <+: commands →
        schemaInForce calls table = some schema → schema.KeyListed →
        row.values.length = schema.columns.length → row.Conforms schema) := by
  refine ⟨?_, conforming_iff lawful commands⟩
  intro table pkEncoded bytes free held
  obtain ⟨row, schema, calls, decoded, source⟩ :=
    Sourced.stored lawful commands table pkEncoded bytes free held
  have schemaAt := schemas_stored lawful commands table
  rw [source.current] at schemaAt
  exact ⟨row, schema, calls, decoded, schemaAt, source⟩

theorem rows_as_put_keyed :
    ∃ calls, PutUnder keyed "users" ⟨[.int64 1]⟩ ⟨"users", [⟨"id", .int64, false⟩], ["id"]⟩ calls := by
  have held : (stored .standard keyed).data[rowKey .standard "users" [.int64 1]]? =
      some (Bincode.row.encode ⟨[.int64 1]⟩) := by decide +kernel
  obtain ⟨row, schema, calls, decoded, -, source⟩ :=
    (rows_as_put TableCodec.standard_lawful keyed).1 "users" _ _
      (slash_not_mem_encodePrimaryKey TableCodec.standard_lawful.keys [.int64 1]) held
  have current := source.current
  cases current
  cases decoded
  exact ⟨calls, source⟩

/-- A column of integers that may not be null. -/
def accounts : TableSchema := ⟨"accounts", [⟨"id", .int64, false⟩, ⟨"balance", .int64, false⟩], ["id"]⟩

/-- Null is put in that column. -/
theorem not_conforming : ¬ ∀ commands : List TableCommand,
    Conforming .standard (stored .standard commands).data := by
  intro conforming
  have all : ∀ calls, calls <+: [.createTable accounts, .put "accounts" ⟨[.int64 1, .null]⟩] →
      Conforming .standard (stored .standard calls).data := fun calls _ => conforming calls
  have conforms := (conforming_iff TableCodec.standard_lawful _).mp all [.createTable accounts]
    "accounts" ⟨[.int64 1, .null]⟩ accounts (List.prefix_refl _) rfl (by decide) rfl
  exact absurd conforms (by decide)

end TableApplicator

end Relos
