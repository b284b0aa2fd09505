import Relos.Table.DelosTable
import Relos.Table.Tables

set_option autoImplicit false

/-! What each command does to the store and what it answers, given the schema that
the store holds for its table. -/

namespace Relos

open Serial BaseEngine

/-- The schema of a table changes only by its creation, if it has none, and its drop. -/
def TableCommand.schemaStep (table : String) (found : Option TableSchema) :
    TableCommand → Option TableSchema
  | .createTable schema => if schema.name = table ∧ found = none then some schema else found
  | .dropTable dropped => if dropped = table then none else found
  | .put _ _ | .delete _ _ => found

/-- The schema of a table after these commands. -/
def schemaInForce (commands : List TableCommand) (table : String) : Option TableSchema :=
  commands.foldl (TableCommand.schemaStep table) none

theorem schemaInForce_concat (commands : List TableCommand) (command : TableCommand)
    (table : String) : schemaInForce (commands ++ [command]) table =
      command.schemaStep table (schemaInForce commands table) := by
  unfold schemaInForce
  rw [List.foldl_append]
  rfl

/-- A put of a row of the right length needs all primary key columns of its table. -/
def TableCommand.AppliesTo (found : Option TableSchema) : TableCommand → Prop
  | .put _ row => ∀ schema, found = some schema →
      row.values.length = schema.columns.length → schema.KeyListed
  | .createTable _ | .dropTable _ | .delete _ _ => True

/-- None of the commands fails, each under the schemas in force before it. -/
def AllApply (commands : List TableCommand) : Prop :=
  ∀ calls command, calls ++ [command] <+: commands →
    command.AppliesTo (schemaInForce calls command.target)

theorem AllApply.nil : AllApply [] := by
  intro calls command starts
  exact absurd (List.prefix_nil.mp starts) (by simp)

theorem AllApply.before {commands : List TableCommand} {command : TableCommand}
    (all : AllApply (commands ++ [command])) : AllApply commands :=
  fun calls other starts => all calls other (starts.trans (List.prefix_append commands [command]))

theorem AllApply.last {commands : List TableCommand} {command : TableCommand}
    (all : AllApply (commands ++ [command])) :
    command.AppliesTo (schemaInForce commands command.target) :=
  all commands command (List.prefix_refl _)

theorem AllApply.concat {commands : List TableCommand} {command : TableCommand}
    (all : AllApply commands) (applies : command.AppliesTo (schemaInForce commands command.target)) :
    AllApply (commands ++ [command]) := by
  intro calls other starts
  rcases List.prefix_concat_iff.mp starts with whole | starts
  · obtain ⟨rfl, same⟩ := List.append_inj' whole rfl
    cases same
    exact applies
  · exact all calls other starts

namespace TableApplicator

variable {codec : TableCodec} {data : StoreData} {txn : MemoryWriteTx} {table : String}

/-- The schema that the store holds for a table. -/
def SchemaAt (codec : TableCodec) (data : StoreData) (table : String) :
    Option TableSchema → Prop
  | none => data[schemaKey table]? = none
  | some schema => ∃ bytes, data[schemaKey table]? = some bytes ∧
      codec.schema.deserialize bytes = .ok schema

theorem SchemaAt.congr {data' : StoreData} {found : Option TableSchema}
    (same : data'[schemaKey table]? = data[schemaKey table]?)
    (schemaAt : SchemaAt codec data table found) : SchemaAt codec data' table found := by
  cases found with
  | none => exact same.trans schemaAt
  | some schema =>
      obtain ⟨bytes, held, decoded⟩ := schemaAt
      exact ⟨bytes, same.trans held, decoded⟩

theorem SchemaAt.isSome {found : Option TableSchema} (schemaAt : SchemaAt codec txn.working table found) :
    (txn.get (schemaKey table)).isSome = found.isSome := by
  unfold MemoryWriteTx.get
  cases found with
  | none =>
      unfold SchemaAt at schemaAt
      rw [schemaAt]
      rfl
  | some schema =>
      obtain ⟨bytes, held, -⟩ := schemaAt
      rw [held]
      rfl

theorem SchemaAt.loadSchema {found : Option TableSchema}
    (schemaAt : SchemaAt codec txn.working table found) : loadSchema codec txn table = .ok found := by
  unfold TableApplicator.loadSchema MemoryWriteTx.get
  cases found with
  | none =>
      unfold SchemaAt at schemaAt
      rw [schemaAt]
  | some schema =>
      obtain ⟨bytes, held, decoded⟩ := schemaAt
      rw [held]
      dsimp only
      rw [decoded]
      rfl

/-- The apply succeeds with this transaction and this response. -/
def Responds (codec : TableCodec) (result : Result (MemoryWriteTx × ReturnValue))
    (txn : MemoryWriteTx) (response : TableResponse) : Prop :=
  ∃ bytes, result = .ok (txn, .data bytes) ∧ codec.response.deserialize bytes = .ok response

theorem responds_reject (lawful : codec.Lawful) (txn : MemoryWriteTx) (message : String) :
    Responds codec (reject codec txn message) txn (.error message) := by
  obtain ⟨bytes, encoded, decoded⟩ := lawful.response (.error message)
  refine ⟨bytes, ?_, decoded⟩
  unfold reject makeResponse
  rw [encoded]
  rfl

theorem responds_accept (lawful : codec.Lawful) (txn : MemoryWriteTx) :
    Responds codec (accept codec txn) txn .ok := by
  obtain ⟨bytes, encoded, decoded⟩ := lawful.response .ok
  refine ⟨bytes, ?_, decoded⟩
  unfold accept makeResponse
  rw [encoded]
  rfl

/-- What a drop leaves. -/
def dropped (txn : MemoryWriteTx) (table : String) : MemoryWriteTx :=
  let txn := txn.delete (schemaKey table)
  (txn.prefixScan (rowPrefix table)).foldl (fun txn row => txn.delete row.1) txn

theorem getElem?_dropped (txn : MemoryWriteTx) (table : String) (key : Bytes) :
    (dropped txn table).working[key]? =
      if key = schemaKey table ∨ rowPrefix table <+: key then none else txn.working[key]? := by
  have deleted : (txn.delete (schemaKey table)).working[key]? =
      if key = schemaKey table then none else txn.working[key]? := by
    unfold MemoryWriteTx.delete
    simp only [Std.ExtTreeMap.getElem?_erase, Std.compare_eq_iff_eq]
    exact if_congr eq_comm rfl rfl
  have scanned : key ∈ ((txn.delete (schemaKey table)).prefixScan (rowPrefix table)).map Prod.fst ↔
      (∃ value, (txn.delete (schemaKey table)).working[key]? = some value) ∧
        rowPrefix table <+: key := by
    unfold MemoryWriteTx.prefixScan
    rw [List.mem_map]
    constructor
    · rintro ⟨⟨key, value⟩, member, rfl⟩
      obtain ⟨held, starts⟩ := mem_scanPrefix.mp member
      exact ⟨⟨value, held⟩, starts⟩
    · rintro ⟨⟨value, held⟩, starts⟩
      exact ⟨(key, value), mem_scanPrefix.mpr ⟨held, starts⟩, rfl⟩
  unfold dropped
  dsimp only
  rw [getElem?_deleteAll]
  by_cases starts : rowPrefix table <+: key
  · rw [if_pos (Or.inr starts)]
    split
    · rfl
    · rename_i absent
      cases held : (txn.delete (schemaKey table)).working[key]? with
      | none => rfl
      | some value => exact absurd (scanned.mpr ⟨⟨value, held⟩, starts⟩) absent
  · rw [if_neg fun member => starts (scanned.mp member).2, deleted]
    by_cases schema : key = schemaKey table
    · rw [if_pos schema, if_pos (Or.inl schema)]
    · rw [if_neg schema, if_neg fun either => either.elim schema starts]

/-- The table name and the two lengths that a rejected put reports. -/
def missing (table : String) : String := "table '" ++ table ++ "' does not exist"

def lengthMismatch (row : Row) (schema : TableSchema) : String :=
  "row has " ++ toString row.values.length ++ " values but schema has " ++
    toString schema.columns.length ++ " columns"

/-- The outcome of a command, by the schema of its table. -/
def Outcome (codec : TableCodec) (txn : MemoryWriteTx) (command : TableCommand)
    (result : Result (MemoryWriteTx × ReturnValue)) (found : Option TableSchema) : Prop :=
  match command, found with
  | .createTable schema, none => ∃ value, codec.schema.deserialize value = .ok schema ∧
      Responds codec result (txn.put (schemaKey schema.name) value) .ok
  | .createTable schema, some _ =>
      Responds codec result txn (.error ("table '" ++ schema.name ++ "' already exists"))
  | .dropTable table, some _ => Responds codec result (dropped txn table) .ok
  | .put table row, some schema =>
      if row.values.length = schema.columns.length then
        match extractPk schema row with
        | .ok pkValues => ∃ value, codec.row.deserialize value = .ok row ∧
            codec.row.serialize row = .ok value ∧
            Responds codec result (txn.put (rowKey codec table pkValues) value) .ok
        | .error error => result = .error error
      else Responds codec result txn (.error (lengthMismatch row schema))
  | .delete table key, some _ =>
      Responds codec result (txn.delete (rowKey codec table key)) .ok
  | .dropTable table, none | .put table _, none | .delete table _, none =>
      Responds codec result txn (.error (missing table))

theorem applyCommand_outcome (lawful : codec.Lawful) {command : TableCommand}
    {found : Option TableSchema} (schemaAt : SchemaAt codec txn.working command.target found) :
    Outcome codec txn command (applyCommand codec txn command) found := by
  cases command with
  | createTable schema =>
      have present : (txn.get (schemaKey schema.name)).isSome = found.isSome := schemaAt.isSome
      change Outcome codec txn _ (applyCreateTable codec txn schema) found
      unfold applyCreateTable
      dsimp only
      rw [present]
      cases found with
      | none =>
          obtain ⟨value, encoded, decoded⟩ := lawful.schema schema
          rw [encoded]
          exact ⟨value, decoded, responds_accept lawful _⟩
      | some held => exact responds_reject lawful txn _
  | dropTable table =>
      have present : (txn.get (schemaKey table)).isSome = found.isSome := schemaAt.isSome
      change Outcome codec txn _ (applyDropTable codec txn table) found
      unfold applyDropTable
      rw [← Option.not_isSome, present]
      cases found with
      | none => exact responds_reject lawful txn _
      | some schema => exact responds_accept lawful _
  | put table row =>
      have loaded : loadSchema codec txn table = .ok found := schemaAt.loadSchema
      change Outcome codec txn _ (applyPut codec txn table row) found
      unfold applyPut
      rw [loaded]
      cases found with
      | none => exact responds_reject lawful txn _
      | some schema =>
          unfold Outcome
          dsimp only [Except.bind]
          by_cases length : row.values.length = schema.columns.length
          · rw [if_pos length, if_neg (not_not_intro length)]
            cases extracted : extractPk schema row with
            | error error => rfl
            | ok pkValues =>
                obtain ⟨value, encoded, decoded⟩ := lawful.row row
                dsimp only
                rw [encoded]
                exact ⟨value, decoded, rfl, responds_accept lawful _⟩
          · rw [if_neg length, if_pos length]
            exact responds_reject lawful txn _
  | delete table key =>
      have loaded : loadSchema codec txn table = .ok found := schemaAt.loadSchema
      change Outcome codec txn _ (applyDelete codec txn table key) found
      unfold applyDelete
      rw [loaded]
      cases found with
      | none => exact responds_reject lawful txn _
      | some schema => exact responds_accept lawful _

/-- What a successful apply may do to its transaction. -/
inductive Change (codec : TableCodec) (txn : MemoryWriteTx) (found : Option TableSchema) :
    TableCommand → MemoryWriteTx → Prop where
  | rejected {command : TableCommand} : Change codec txn found command txn
  | created {schema : TableSchema} {value : Bytes} (absent : found = none)
      (decoded : codec.schema.deserialize value = .ok schema) :
      Change codec txn found (.createTable schema) (txn.put (schemaKey schema.name) value)
  | dropped {table : String} : Change codec txn found (.dropTable table) (dropped txn table)
  | stored {table : String} {row : Row} {schema : TableSchema} {pkValues : List Value} {value : Bytes}
      (present : found = some schema) (length : row.values.length = schema.columns.length)
      (extracted : extractPk schema row = .ok pkValues)
      (decoded : codec.row.deserialize value = .ok row) :
      Change codec txn found (.put table row) (txn.put (rowKey codec table pkValues) value)
  | deleted {table : String} {key : List Value} :
      Change codec txn found (.delete table key) (txn.delete (rowKey codec table key))

section Results

variable {txn' : MemoryWriteTx} {rv : ReturnValue} {command : TableCommand}
  {found : Option TableSchema}

theorem Responds.txn_eq {expected : MemoryWriteTx} {response : TableResponse}
    (responds : Responds codec (.ok (txn', rv)) expected response) : txn' = expected := by
  obtain ⟨bytes, same, -⟩ := responds
  cases same
  rfl

theorem Outcome.change (outcome : Outcome codec txn command (.ok (txn', rv)) found) :
    Change codec txn found command txn' := by
  cases command with
  | createTable schema =>
      cases found with
      | none =>
          obtain ⟨value, decoded, responds⟩ := outcome
          rw [responds.txn_eq]
          exact .created rfl decoded
      | some held =>
          rw [Responds.txn_eq outcome]
          exact .rejected
  | dropTable table =>
      cases found with
      | none =>
          rw [Responds.txn_eq outcome]
          exact .rejected
      | some schema =>
          rw [Responds.txn_eq outcome]
          exact .dropped
  | put table row =>
      cases found with
      | none =>
          rw [Responds.txn_eq outcome]
          exact .rejected
      | some schema =>
          unfold Outcome at outcome
          dsimp only at outcome
          split at outcome
          · rename_i length
            split at outcome
            · rename_i pkValues extracted
              obtain ⟨value, decoded, -, responds⟩ := outcome
              rw [responds.txn_eq]
              exact .stored rfl length extracted decoded
            · cases outcome
          · rw [Responds.txn_eq outcome]
            exact .rejected
  | delete table key =>
      cases found with
      | none =>
          rw [Responds.txn_eq outcome]
          exact .rejected
      | some schema =>
          rw [Responds.txn_eq outcome]
          exact .deleted

/-- A command touches only the schema of its table and what is under its prefix. -/
theorem Change.frame (change : Change codec txn found command txn') {key : Bytes}
    (schema : key ≠ schemaKey command.target) (outside : ¬ rowPrefix command.target <+: key) :
    txn'.working[key]? = txn.working[key]? := by
  have inside : ∀ pkValues, rowKey codec command.target pkValues ≠ key := by
    rintro pkValues rfl
    refine outside ?_
    unfold rowPrefix rowKey
    rw [utf8_append _ (encodePrimaryKey codec pkValues)]
    exact List.prefix_append _ _
  cases change with
  | rejected => rfl
  | created absent decoded => exact getElem?_insert_of_ne schema.symm
  | dropped => rw [getElem?_dropped, if_neg fun either => either.elim schema outside]
  | stored present length extracted decoded => exact getElem?_insert_of_ne (inside _)
  | deleted => exact getElem?_erase_of_ne (inside _)

theorem schemaStep_of_ne {table : String} (other : command.target ≠ table) :
    command.schemaStep table found = found := by
  cases command with
  | createTable schema => exact if_neg fun both => other both.1
  | dropTable dropped => exact if_neg other
  | put | delete => rfl

/-- The schema of its table after a successful apply. -/
theorem Outcome.schema (outcome : Outcome codec txn command (.ok (txn', rv)) found)
    (before : SchemaAt codec txn.working command.target found) :
    SchemaAt codec txn'.working command.target (command.schemaStep command.target found) := by
  have change := outcome.change
  cases command with
  | createTable schema =>
      dsimp only [TableCommand.target, TableCommand.schemaStep] at before ⊢
      cases found with
      | none =>
          obtain ⟨value, decoded, responds⟩ := outcome
          rw [if_pos ⟨rfl, rfl⟩, responds.txn_eq]
          exact ⟨value, Std.ExtTreeMap.getElem?_insert_self, decoded⟩
      | some held =>
          have kept : txn' = txn := Responds.txn_eq outcome
          rw [if_neg (by rintro ⟨-, impossible⟩; cases impossible), kept]
          exact before
  | dropTable table =>
      dsimp only [TableCommand.target, TableCommand.schemaStep] at before ⊢
      rw [if_pos rfl]
      cases found with
      | none =>
          rw [Responds.txn_eq outcome]
          exact before
      | some schema =>
          rw [Responds.txn_eq outcome]
          unfold SchemaAt
          rw [getElem?_dropped, if_pos (Or.inl rfl)]
  | put table row =>
      refine before.congr ?_
      cases change with
      | rejected => rfl
      | stored => exact getElem?_insert_of_ne (schemaKey_ne_dataKey _ _ _).symm
  | delete table key =>
      refine before.congr ?_
      cases change with
      | rejected => rfl
      | deleted => exact getElem?_erase_of_ne (schemaKey_ne_dataKey _ _ _).symm

/-- The schemas of all tables after a successful apply. -/
theorem Outcome.schemas {schemas : String → Option TableSchema}
    (schemaAt : ∀ table, SchemaAt codec txn.working table (schemas table))
    (outcome : Outcome codec txn command (.ok (txn', rv)) (schemas command.target))
    (table : String) :
    SchemaAt codec txn'.working table (command.schemaStep table (schemas table)) := by
  by_cases same : command.target = table
  · subst same
    exact outcome.schema (schemaAt command.target)
  · rw [schemaStep_of_ne same]
    refine (schemaAt table).congr (outcome.change.frame ?_ (rowPrefix_prefix_schemaKey _ _))
    exact fun keys => same (schemaKey_injective keys).symm

end Results

/-! ### Primary keys -/

section PrimaryKeys

variable {schema : TableSchema} {row : Row}

theorem pkValue_ok_iff (length : row.values.length = schema.columns.length) (pkColName : String) :
    (∃ value, pkValue schema row pkColName = .ok value) ↔
      pkColName ∈ schema.columns.map ColumnDef.name := by
  unfold pkValue
  cases position : schema.columns.findIdx? fun column => column.name = pkColName with
  | none =>
      constructor
      · rintro ⟨value, impossible⟩
        cases impossible
      intro member
      obtain ⟨column, listed, rfl⟩ := List.mem_map.mp member
      exact absurd (List.findIdx?_eq_none_iff.mp position column listed) (by simp)
  | some idx =>
      obtain ⟨inside, named, -⟩ := List.findIdx?_eq_some_iff_getElem.mp position
      have held := List.getElem?_eq_getElem (Nat.lt_of_lt_of_eq inside length.symm)
      dsimp only
      rw [held]
      refine ⟨fun _ => List.mem_map.mpr ⟨_, List.getElem_mem inside, of_decide_eq_true named⟩,
        fun _ => ⟨_, rfl⟩⟩

/-- The primary key of a row of the right length exists exactly when all its
columns do. -/
theorem extractPk_ok_iff (length : row.values.length = schema.columns.length) :
    (∃ pkValues, extractPk schema row = .ok pkValues) ↔ schema.KeyListed := by
  unfold extractPk TableSchema.KeyListed
  generalize schema.primaryKey = names
  induction names with
  | nil => exact ⟨fun _ _ member => absurd member List.not_mem_nil, fun _ => ⟨[], rfl⟩⟩
  | cons name names ih =>
      rw [List.mapM_cons, List.forall_mem_cons, ← pkValue_ok_iff length name, ← ih]
      constructor
      · rintro ⟨values, extracted⟩
        cases first : pkValue schema row name with
        | error error =>
            rw [first] at extracted
            cases extracted
        | ok value =>
            rw [first] at extracted
            cases rest : names.mapM (pkValue schema row) with
            | error error =>
                rw [rest] at extracted
                cases extracted
            | ok values => exact ⟨⟨value, rfl⟩, ⟨values, rfl⟩⟩
      · rintro ⟨⟨value, first⟩, ⟨values, rest⟩⟩
        refine ⟨value :: values, ?_⟩
        rw [first, rest]
        rfl

end PrimaryKeys

theorem Responds.succeeds {result : Result (MemoryWriteTx × ReturnValue)} {txn : MemoryWriteTx}
    {response : TableResponse} (responds : Responds codec result txn response) :
    ∃ applied, result = .ok applied := by
  obtain ⟨bytes, same, -⟩ := responds
  exact ⟨_, same⟩

/-- Only a put can fail, and only over its primary key columns. -/
theorem Outcome.applies_iff {result : Result (MemoryWriteTx × ReturnValue)} {command : TableCommand}
    {found : Option TableSchema} (outcome : Outcome codec txn command result found) :
    (∃ applied, result = .ok applied) ↔ command.AppliesTo found := by
  cases command with
  | createTable schema =>
      refine iff_of_true ?_ trivial
      cases found with
      | none =>
          obtain ⟨value, decoded, responds⟩ := outcome
          exact responds.succeeds
      | some held => exact Responds.succeeds outcome
  | dropTable table =>
      refine iff_of_true ?_ trivial
      cases found with
      | none => exact Responds.succeeds outcome
      | some schema => exact Responds.succeeds outcome
  | delete table key =>
      refine iff_of_true ?_ trivial
      cases found with
      | none => exact Responds.succeeds outcome
      | some schema => exact Responds.succeeds outcome
  | put table row =>
      dsimp only [TableCommand.AppliesTo]
      cases found with
      | none => exact iff_of_true (Responds.succeeds outcome) fun _ impossible => nomatch impossible
      | some schema =>
          unfold Outcome at outcome
          dsimp only at outcome
          split at outcome
          · rename_i length
            have keyed : (∀ held, some schema = some held →
                row.values.length = held.columns.length → held.KeyListed) ↔ schema.KeyListed :=
              ⟨fun all => all schema rfl length, fun listed held same _ => Option.some.inj same ▸ listed⟩
            rw [keyed, ← extractPk_ok_iff length]
            split at outcome
            · rename_i pkValues extracted
              obtain ⟨value, decoded, encoded, responds⟩ := outcome
              exact iff_of_true responds.succeeds ⟨pkValues, extracted⟩
            · rename_i error extracted
              rw [outcome, extracted]
              constructor <;> rintro ⟨_, impossible⟩ <;> cases impossible
          · rename_i length
            refine iff_of_true (Responds.succeeds outcome) fun held same equal => ?_
            cases same
            exact absurd equal length

end TableApplicator

end Relos
