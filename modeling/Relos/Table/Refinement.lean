import Relos.Table.Isolation

set_option autoImplicit false

/-! The store with its textual keys refines the tables, for names without a slash. -/

namespace Relos

open Serial BaseEngine DelosTable

namespace TableApplicator

variable {codec : TableCodec}

/-! ### Primary keys -/

theorem lookup_of_pkValue {schema : TableSchema} {row : Row} {pkColName : String} {value : Value}
    (extracted : pkValue schema row pkColName = .ok value) :
    ((schema.columns.map ColumnDef.name).zip row.values).lookup pkColName = some value := by
  unfold pkValue at extracted
  have found : ∀ (columns : List ColumnDef) (values : List Value) (idx : Nat),
      columns.findIdx? (fun column => column.name = pkColName) = some idx →
      values[idx]? = some value →
      ((columns.map ColumnDef.name).zip values).lookup pkColName = some value := by
    intro columns
    induction columns with
    | nil => exact fun _ _ impossible _ => nomatch impossible
    | cons column columns ih =>
        intro values idx position held
        cases values with
        | nil => cases held
        | cons first values =>
            rw [List.findIdx?_cons] at position
            rw [List.map_cons, List.zip_cons_cons, List.lookup_cons]
            by_cases named : column.name = pkColName
            · rw [if_pos (decide_eq_true named)] at position
              cases position
              rw [named, beq_self_eq_true]
              exact held
            · rw [if_neg (by simpa using named)] at position
              obtain ⟨before, earlier, rfl⟩ := Option.map_eq_some_iff.mp position
              rw [beq_false_of_ne (Ne.symm named)]
              exact ih values before earlier held
  split at extracted
  · rename_i idx position
    split at extracted
    · rename_i held value_eq
      cases extracted
      exact found _ _ idx position value_eq
    · cases extracted
  · cases extracted

/-- The key that the applicator extracts is the one the tables use. -/
theorem extractPk_eq {schema : TableSchema} {row : Row} {pkValues : List Value}
    (extracted : extractPk schema row = .ok pkValues) : pkValues = schema.keyOf row := by
  unfold extractPk at extracted
  unfold TableSchema.keyOf
  revert extracted
  generalize schema.primaryKey = names
  intro extracted
  induction names generalizing pkValues with
  | nil =>
      cases extracted
      rfl
  | cons name names ih =>
      rw [List.mapM_cons] at extracted
      cases first : pkValue schema row name with
      | error error =>
          rw [first] at extracted
          cases extracted
      | ok value =>
          rw [first] at extracted
          cases rest : names.mapM (pkValue schema row) with
          | error error =>
              rw [rest] at extracted
              cases extracted
          | ok values =>
              rw [rest] at extracted
              cases extracted
              rw [List.filterMap_cons, lookup_of_pkValue first, ← ih rest]

/-! ### The simulation -/

/-- What the store holds under a row key. -/
def RowAt (codec : TableCodec) (data : StoreData) (key : Bytes) : Option Row → Prop
  | none => data[key]? = none
  | some row => ∃ bytes, data[key]? = some bytes ∧ codec.row.deserialize bytes = .ok row

theorem RowAt.congr {data data' : StoreData} {key : Bytes} {found : Option Row}
    (same : data'[key]? = data[key]?) (rowAt : RowAt codec data key found) :
    RowAt codec data' key found := by
  cases found with
  | none => exact same.trans rowAt
  | some row =>
      obtain ⟨bytes, held, decoded⟩ := rowAt
      exact ⟨bytes, same.trans held, decoded⟩

/-- A command of the tables this refinement is about. -/
structure Plain (command : TableCommand) : Prop where
  flat : '/' ∉ command.target.toList
  listed : ∀ schema, command = .createTable schema → schema.KeyListed

/-- A table that such commands can lead to. -/
structure Regular (encode : Value → Bytes) (name : String) (table : Table) : Prop where
  flat : '/' ∉ name.toList
  listed : table.schema.KeyListed
  encoded : ∀ key row, table.rows[key]? = some row → ∃ values : List Value, key = values.map encode

/-- The store holds the tables and nothing else in the key ranges of tables. -/
structure Represents (codec : TableCodec) (tables : Tables) (data : StoreData) : Prop where
  schemas : ∀ name, SchemaAt codec data name ((tables name).map Table.schema)
  rows : ∀ name key, RowAt codec data (rowKey codec name key) (tables.find codec.value name key)
  keys : ∀ name key bytes, rowPrefix name <+: key → data[key]? = some bytes →
    ∃ source values, '/' ∉ source.toList ∧ key = rowKey codec source values
  regular : ∀ name table, tables name = some table → Regular codec.value name table

theorem Represents.empty : Represents codec (fun _ => none) (∅ : StoreData) where
  schemas _ := rfl
  rows _ _ := rfl
  keys _ _ _ _ held := nomatch held
  regular _ _ held := nomatch held

theorem Represents.congr {tables : Tables} {data data' : StoreData}
    (represents : Represents codec tables data)
    (same : ∀ key, cursorKey ≠ key → data'[key]? = data[key]?) : Represents codec tables data' where
  schemas name := (represents.schemas name).congr (same _ (cursorKey_ne_schemaKey name))
  rows name key := (represents.rows name key).congr (same _ (cursorKey_ne_rowKey codec name key))
  keys name key bytes starts held := by
    refine represents.keys name key bytes starts (held ▸ (same key ?_).symm)
    rintro rfl
    exact rowPrefix_prefix_cursorKey name starts
  regular := represents.regular

theorem not_encloses_flat {outer inner : String} (flat : '/' ∉ inner.toList) :
    ¬ Encloses outer inner := by
  intro encloses
  refine flat (encloses.subset ?_)
  rw [String.toList_append]
  exact List.mem_append_right _ (by decide)

section Step

variable {tables : Tables} {txn : MemoryWriteTx}

theorem Represents.created (represents : Represents codec tables txn.working) {schema : TableSchema}
    (plain : Plain (.createTable schema)) (absent : tables schema.name = none) {value : Bytes}
    (decoded : codec.schema.deserialize value = .ok schema) :
    Represents codec (Function.update tables schema.name (some (.new schema)))
      (txn.put (schemaKey schema.name) value).working where
  schemas name := by
    by_cases here : name = schema.name
    · subst here
      rw [Function.update_self]
      exact ⟨value, Std.ExtTreeMap.getElem?_insert_self, decoded⟩
    · rw [Function.update_of_ne here]
      exact (represents.schemas name).congr
        (getElem?_insert_of_ne fun same => here (schemaKey_injective same).symm)
  rows name key := by
    have kept : RowAt codec (txn.put (schemaKey schema.name) value).working (rowKey codec name key) _ :=
      (represents.rows name key).congr (getElem?_insert_of_ne (schemaKey_ne_dataKey _ _ _))
    unfold Tables.find at kept ⊢
    by_cases here : name = schema.name
    · subst here
      rw [absent] at kept
      rw [Function.update_self]
      exact kept
    · rw [Function.update_of_ne here]
      exact kept
  keys name key bytes starts held := by
    refine represents.keys name key bytes starts (held ▸ (getElem?_insert_of_ne ?_).symm)
    rintro rfl
    exact rowPrefix_prefix_schemaKey _ _ starts
  regular name table held := by
    by_cases here : name = schema.name
    · subst here
      rw [Function.update_self] at held
      cases held
      exact ⟨plain.flat, plain.listed schema rfl, fun _ _ impossible => nomatch impossible⟩
    · rw [Function.update_of_ne here] at held
      exact represents.regular name table held

theorem Represents.dropped (lawful : codec.Lawful) (represents : Represents codec tables txn.working)
    (name : String) :
    Represents codec (Function.update tables name none) (dropped txn name).working where
  schemas other := by
    by_cases here : other = name
    · subst here
      rw [Function.update_self]
      unfold SchemaAt Option.map
      dsimp only
      rw [getElem?_dropped, if_pos (Or.inl rfl)]
    · rw [Function.update_of_ne here]
      refine (represents.schemas other).congr ?_
      rw [getElem?_dropped, if_neg]
      rintro (same | starts)
      · exact here (schemaKey_injective same)
      · exact rowPrefix_prefix_schemaKey _ _ starts
  rows other key := by
    have slashless := slash_not_mem_encodePrimaryKey lawful.keys key
    have held := represents.rows other key
    unfold Tables.find at held ⊢
    by_cases here : other = name
    · subst here
      rw [Function.update_self]
      unfold RowAt Option.bind
      dsimp only
      rw [getElem?_dropped, if_pos]
      exact Or.inr ((rowPrefix_prefix_dataKey slashless).mpr (Or.inl rfl))
    · rw [Function.update_of_ne here]
      cases table : tables other with
      | none =>
          rw [table] at held
          unfold RowAt Option.bind at held ⊢
          dsimp only at held ⊢
          rw [getElem?_dropped, held, ite_self]
      | some table' =>
          rw [table] at held
          refine held.congr ?_
          rw [getElem?_dropped, if_neg]
          rintro (same | starts)
          · exact schemaKey_ne_dataKey _ _ _ same.symm
          · rcases (rowPrefix_prefix_dataKey slashless).mp starts with same | encloses
            · exact here same.symm
            · exact not_encloses_flat (represents.regular other table' table).flat encloses
  keys other key bytes starts held := by
    rw [getElem?_dropped] at held
    split at held
    · cases held
    · exact represents.keys other key bytes starts held
  regular other table held := by
    by_cases here : other = name
    · subst here
      rw [Function.update_self] at held
      cases held
    · rw [Function.update_of_ne here] at held
      exact represents.regular other table held

/-- One row of one table is written or removed. -/
theorem Represents.rewritten (lawful : codec.Lawful) (represents : Represents codec tables txn.working)
    {name : String} {table : Table} (held : tables name = some table) {values : List Value}
    {rows : Std.ExtTreeMap (List Bytes) Row} {working : StoreData}
    (here : RowAt codec working (rowKey codec name values) rows[values.map codec.value]?)
    (others : ∀ key, rowKey codec name values ≠ key → working[key]? = txn.working[key]?)
    (rest : ∀ key, values.map codec.value ≠ key → rows[key]? = table.rows[key]?) :
    Represents codec (Function.update tables name (some { table with rows := rows })) working where
  schemas other := by
    have before := (represents.schemas other).congr (others _ (schemaKey_ne_dataKey _ _ _).symm)
    by_cases same : other = name
    · subst same
      rw [held] at before
      rw [Function.update_self]
      exact before
    · rw [Function.update_of_ne same]
      exact before
  rows other key := by
    unfold Tables.find
    have before := represents.rows other key
    unfold Tables.find at before
    by_cases same : other = name
    · subst same
      rw [held, Option.bind_some] at before
      rw [Function.update_self, Option.bind_some]
      by_cases equal : values.map codec.value = key.map codec.value
      · rw [← equal, ← (rowKey_eq_iff lawful.keys).mpr ⟨rfl, equal⟩]
        exact here
      · rw [rest _ equal]
        exact before.congr (others _ fun keys => equal ((rowKey_eq_iff lawful.keys).mp keys).2)
    · rw [Function.update_of_ne same]
      exact before.congr (others _ fun keys => same ((rowKey_eq_iff lawful.keys).mp keys).1.symm)
  keys other key bytes starts found := by
    by_cases same : rowKey codec name values = key
    · exact ⟨name, values, (represents.regular name table held).flat, same.symm⟩
    · rw [others key same] at found
      exact represents.keys other key bytes starts found
  regular other table' found := by
    by_cases same : other = name
    · subst same
      rw [Function.update_self] at found
      cases found
      have regular := represents.regular other table held
      refine ⟨regular.flat, regular.listed, fun key row stored => ?_⟩
      by_cases equal : values.map codec.value = key
      · exact ⟨values, equal.symm⟩
      · rw [rest key equal] at stored
        exact regular.encoded key row stored
    · rw [Function.update_of_ne same] at found
      exact represents.regular other table' found

/-- One command, on the store and on the tables. -/
theorem Represents.step (lawful : codec.Lawful) (represents : Represents codec tables txn.working)
    {command : TableCommand} (plain : Plain command) :
    ∃ txn', Responds codec (applyCommand codec txn command) txn'
        (Tables.step codec.value tables command).2 ∧
      Represents codec (Tables.step codec.value tables command).1 txn'.working ∧
      ∀ message, (Tables.step codec.value tables command).2 = .error message → txn' = txn := by
  have outcome := applyCommand_outcome lawful (represents.schemas command.target)
  cases command with
  | createTable schema =>
      unfold Tables.step
      dsimp only [TableCommand.target] at outcome ⊢
      cases held : tables schema.name with
      | none =>
          rw [held] at outcome
          obtain ⟨value, decoded, responds⟩ := outcome
          exact ⟨_, responds, represents.created plain held decoded, fun _ impossible => nomatch impossible⟩
      | some table =>
          rw [held] at outcome
          exact ⟨txn, outcome, represents, fun _ _ => rfl⟩
  | dropTable name =>
      unfold Tables.step
      dsimp only [TableCommand.target] at outcome ⊢
      cases held : tables name with
      | none =>
          rw [held] at outcome
          exact ⟨txn, outcome, represents, fun _ _ => rfl⟩
      | some table =>
          rw [held] at outcome
          exact ⟨_, outcome, represents.dropped lawful name, fun _ impossible => nomatch impossible⟩
  | put name row =>
      unfold Tables.step
      dsimp only [TableCommand.target] at outcome ⊢
      cases held : tables name with
      | none =>
          rw [held] at outcome
          exact ⟨txn, outcome, represents, fun _ _ => rfl⟩
      | some table =>
          rw [held] at outcome
          dsimp only
          by_cases length : row.values.length = table.schema.columns.length
          · rw [if_pos length]
            obtain ⟨pkValues, extracted⟩ := (extractPk_ok_iff length).mpr
              (represents.regular name table held).listed
            unfold Outcome Option.map at outcome
            dsimp only at outcome
            rw [if_pos length, extracted] at outcome
            obtain ⟨value, decoded, -, responds⟩ := outcome
            refine ⟨_, responds, ?_, fun _ impossible => nomatch impossible⟩
            rw [← extractPk_eq extracted]
            refine represents.rewritten lawful held ?_ (fun key other => getElem?_insert_of_ne other)
              fun key other => ?_
            · rw [Std.ExtTreeMap.getElem?_insert_self]
              exact ⟨value, Std.ExtTreeMap.getElem?_insert_self, decoded⟩
            · rw [Std.ExtTreeMap.getElem?_insert, if_neg fun same =>
                other (Std.LawfulEqCmp.eq_of_compare same)]
          · rw [if_neg length]
            unfold Outcome Option.map at outcome
            dsimp only at outcome
            rw [if_neg length] at outcome
            exact ⟨txn, outcome, represents, fun _ _ => rfl⟩
  | delete name key =>
      unfold Tables.step
      dsimp only [TableCommand.target] at outcome ⊢
      cases held : tables name with
      | none =>
          rw [held] at outcome
          exact ⟨txn, outcome, represents, fun _ _ => rfl⟩
      | some table =>
          rw [held] at outcome
          refine ⟨_, outcome, ?_, fun _ impossible => nomatch impossible⟩
          refine represents.rewritten lawful held ?_ (fun key other => getElem?_erase_of_ne other)
            fun key other => ?_
          · rw [Std.ExtTreeMap.getElem?_erase_self]
            exact Std.ExtTreeMap.getElem?_erase_self
          · rw [Std.ExtTreeMap.getElem?_erase, if_neg fun same =>
              other (Std.LawfulEqCmp.eq_of_compare same)]

/-- The same for a transaction on a store. -/
theorem Represents.next (lawful : codec.Lawful) {store : MemoryStore}
    (represents : Represents codec tables store.data) {command : TableCommand} (plain : Plain command) :
    ∃ txn, Responds codec (applyCommand codec store.beginWriteTxn command) txn
        (Tables.step codec.value tables command).2 ∧
      Represents codec (Tables.step codec.value tables command).1 txn.working ∧
      ∀ message, (Tables.step codec.value tables command).2 = .error message →
        txn = store.beginWriteTxn := by
  have begun : Represents codec tables store.beginWriteTxn.working := represents
  exact begun.step lawful plain

end Step

/-! ### Reads -/

section Reads

variable {tables : Tables} {store : MemoryStore}

theorem Represents.get (represents : Represents codec tables store.data) (name : String)
    (key : List Value) : readRow codec store name key = .ok (tables.find codec.value name key) := by
  have held := represents.rows name key
  unfold readRow MemoryStore.get
  rw [DelosTable.rowKey_eq]
  cases found : tables.find codec.value name key with
  | none =>
      rw [found] at held
      rw [show store.data[rowKey codec name key]? = none from held]
  | some row =>
      rw [found] at held
      obtain ⟨bytes, present, decoded⟩ := held
      rw [present]
      dsimp only
      rw [decoded]
      rfl

/-- What stands in the range of a table is one of its rows. -/
theorem Represents.under (lawful : codec.Lawful) (represents : Represents codec tables store.data)
    {name : String} {key bytes : Bytes} (starts : rowPrefix name <+: key)
    (held : store.data[key]? = some bytes) :
    ∃ table values row, tables name = some table ∧ key = rowKey codec name values ∧
      table.rows[values.map codec.value]? = some row ∧ codec.row.deserialize bytes = .ok row := by
  obtain ⟨source, values, flat, rfl⟩ := represents.keys name key bytes starts held
  have same : name = source :=
    ((rowPrefix_prefix_dataKey (slash_not_mem_encodePrimaryKey lawful.keys values)).mp starts).resolve_right
      (not_encloses_flat flat)
  subst same
  have rowAt := represents.rows name values
  unfold Tables.find at rowAt
  cases table : tables name with
  | none =>
      rw [table, Option.bind_none] at rowAt
      rw [show store.data[rowKey codec name values]? = none from rowAt] at held
      cases held
  | some table' =>
      rw [table, Option.bind_some] at rowAt
      cases found : table'.rows[values.map codec.value]? with
      | none =>
          rw [found] at rowAt
          rw [show store.data[rowKey codec name values]? = none from rowAt] at held
          cases held
      | some row =>
          rw [found] at rowAt
          obtain ⟨bytes', present, decoded⟩ := rowAt
          rw [present] at held
          cases held
          exact ⟨table', values, row, rfl, rfl, found, decoded⟩

/-- The key of a row by the encoded values. -/
def encodedKey (codec : TableCodec) (name : String) (key : List Bytes) : Bytes :=
  dataKey name ("\x00".intercalate (key.map codec.hex))

theorem rowKey_eq_encodedKey (name : String) (values : List Value) :
    rowKey codec name values = encodedKey codec name (values.map codec.value) := by
  unfold encodedKey
  rw [List.map_map]
  rfl

/-- A scan finds the rows of the table, each under its key. -/
theorem Represents.scanned (lawful : codec.Lawful) (represents : Represents codec tables store.data)
    {name : String} {table : Table} (found : tables name = some table) :
    ((scanPrefix store.data (rowPrefix name)).map fun pair => (pair.1, decodedRow codec pair.2)).Perm
      (table.rows.toList.map fun pair => (encodedKey codec name pair.1, pair.2)) := by
  have regular := represents.regular name table found
  have stored : ∀ {pair}, pair ∈ table.rows.toList → ∃ values : List Value,
      pair.1 = values.map codec.value ∧ encodedKey codec name pair.1 = rowKey codec name values := by
    intro pair member
    obtain ⟨values, same⟩ := regular.encoded pair.1 pair.2
      (Std.ExtTreeMap.mem_toList_iff_getElem?_eq_some.mp member)
    exact ⟨values, same, by rw [rowKey_eq_encodedKey, same]⟩
  have distinct : table.rows.toList.Nodup :=
    Std.ExtTreeMap.distinct_keys_toList.imp fun different same =>
      different (by rw [same]; exact Std.ReflCmp.compare_self)
  refine (List.perm_ext_iff_of_nodup ?_ (distinct.map_on ?_)).mpr fun entry => ?_
  · refine List.Nodup.of_map Prod.fst ?_
    rw [List.map_map]
    exact nodup_scanPrefix
  · intro pair member pair' member' same
    obtain ⟨keys, rows⟩ := Prod.mk.inj same
    obtain ⟨values, encoded, key⟩ := stored member
    obtain ⟨values', encoded', key'⟩ := stored member'
    rw [key, key'] at keys
    refine Prod.ext ?_ rows
    rw [encoded, encoded', ((rowKey_eq_iff lawful.keys).mp keys).2]
  · rw [List.mem_map, List.mem_map]
    constructor
    · rintro ⟨pair, member, rfl⟩
      obtain ⟨held, starts⟩ := mem_scanPrefix.mp member
      obtain ⟨table', values, row, same, key, row_eq, decoded⟩ := represents.under lawful starts held
      rw [found] at same
      cases same
      refine ⟨(values.map codec.value, row),
        Std.ExtTreeMap.mem_toList_iff_getElem?_eq_some.mpr row_eq, ?_⟩
      rw [decodedRow_eq decoded, key, rowKey_eq_encodedKey]
    · rintro ⟨pair, member, rfl⟩
      obtain ⟨values, encoded, key⟩ := stored member
      have row_eq := Std.ExtTreeMap.mem_toList_iff_getElem?_eq_some.mp member
      have rowAt := represents.rows name values
      unfold Tables.find at rowAt
      rw [found, Option.bind_some, ← encoded, row_eq] at rowAt
      obtain ⟨bytes, held, decoded⟩ := rowAt
      refine ⟨(rowKey codec name values, bytes), mem_scanPrefix.mpr ⟨held, ?_⟩, ?_⟩
      · exact (rowPrefix_prefix_dataKey (slash_not_mem_encodePrimaryKey lawful.keys values)).mpr (Or.inl rfl)
      · rw [decodedRow_eq decoded, key]

theorem Represents.scan (lawful : codec.Lawful) (represents : Represents codec tables store.data)
    (name : String) :
    ∃ rows, readRows codec store name = .ok rows ∧ rows.Perm (tables.rows name) := by
  refine ⟨_, readRows_eq fun key bytes starts held => ?_, ?_⟩
  · obtain ⟨table, values, row, -, -, -, decoded⟩ := represents.under lawful starts held
    exact ⟨row, decoded⟩
  · unfold Tables.rows
    cases found : tables name with
    | none =>
        have empty : scanPrefix store.data (rowPrefix name) = [] := by
          refine List.eq_nil_iff_forall_not_mem.mpr fun pair member => ?_
          obtain ⟨held, starts⟩ := mem_scanPrefix.mp member
          obtain ⟨table, _, _, same, _⟩ := represents.under lawful starts held
          rw [found] at same
          cases same
        rw [empty]
        exact List.Perm.refl []
    | some table =>
        have pairs := (represents.scanned lawful found).map Prod.snd
        rw [List.map_map, List.map_map] at pairs
        exact pairs

end Reads

/-! ### Runs -/

theorem represents_stored (lawful : codec.Lawful) {commands : List TableCommand}
    (plain : ∀ command ∈ commands, Plain command) :
    AllApply commands ∧
      Represents codec (Tables.after codec.value commands) (stored codec commands).data := by
  induction commands using List.reverseRecOn with
  | nil => exact ⟨.nil, .empty⟩
  | append_singleton commands command ih =>
      obtain ⟨all, represents⟩ := ih fun earlier member => plain earlier (List.mem_append_left _ member)
      obtain ⟨txn, responds, next, -⟩ :=
        represents.next lawful (plain command (List.mem_append_right _ List.mem_cons_self))
      have applies := (stored_outcome lawful all command).applies_iff.mp responds.succeeds
      refine ⟨all.concat applies, ?_⟩
      rw [Tables.after_concat]
      exact next.congr fun key other => stored_of_responds lawful responds other

/-- The calls on a fresh stack, one after another, against the tables. -/
structure Refines (codec : TableCodec) (commands : List TableCommand) : Prop where
  responses : ∀ calls command, calls ++ [command] <+: commands →
    (proposeAndCheck codec (after codec calls) command).2 =
      answer (Tables.step codec.value (Tables.after codec.value calls) command).2
  rejected : ∀ calls command message, calls ++ [command] <+: commands →
    (Tables.step codec.value (Tables.after codec.value calls) command).2 = .error message →
    ∀ key, cursorKey ≠ key →
      (after codec (calls ++ [command])).store.get key = (after codec calls).store.get key
  get : ∀ name key, (DelosTable.get codec (after codec commands) name key).2 =
    .ok ((Tables.after codec.value commands).find codec.value name key)
  scan : ∀ name, ∃ rows, (DelosTable.scan codec (after codec commands) name).2 = .ok rows ∧
    rows.Perm ((Tables.after codec.value commands).rows name)

theorem refines_tables (lawful : codec.Lawful) (commands : List TableCommand)
    (plain : ∀ command ∈ commands, Plain command) : Refines codec commands := by
  have prefixes : ∀ calls command, calls ++ [command] <+: commands →
      (∀ earlier ∈ calls, Plain earlier) ∧ Plain command := by
    intro calls command starts
    exact ⟨fun earlier member => plain earlier (starts.subset (List.mem_append_left _ member)),
      plain command (starts.subset (List.mem_append_right _ List.mem_cons_self))⟩
  obtain ⟨all, represents⟩ := represents_stored lawful plain
  obtain ⟨settled, -, same⟩ := after_store lawful all
  obtain ⟨entries, caughtUp⟩ := settled.caughtUp
  have synced : sync codec (after codec commands) = (after codec commands, .ok (entries.length + 1)) :=
    ApplyLoop.handleSync_caughtUp caughtUp
  refine ⟨?_, ?_, ?_, ?_⟩
  · intro calls command starts
    obtain ⟨earlier, last⟩ := prefixes calls command starts
    obtain ⟨all, represents⟩ := represents_stored lawful earlier
    obtain ⟨settled, -, same⟩ := after_store lawful all
    rw [← same] at represents
    obtain ⟨txn, responds, -, -⟩ := represents.next lawful last
    exact settled.answered lawful responds
  · intro calls command message starts refused key other
    obtain ⟨earlier, last⟩ := prefixes calls command starts
    obtain ⟨all, represents⟩ := represents_stored lawful earlier
    obtain ⟨txn, responds, -, kept⟩ := represents.next lawful last
    have applies := (stored_outcome lawful all command).applies_iff.mp responds.succeeds
    obtain ⟨-, -, same⟩ := after_store lawful all
    obtain ⟨-, -, same'⟩ := after_store lawful (all.concat applies)
    rw [same, same']
    have held := stored_of_responds lawful responds other
    rw [kept message refused] at held
    exact held
  · intro name key
    unfold DelosTable.get
    rw [synced]
    dsimp only [Except.bind]
    rw [same]
    exact represents.get name key
  · intro name
    unfold DelosTable.scan
    rw [synced]
    dsimp only [Except.bind]
    rw [same]
    exact represents.scan lawful name

/-! ### A table that is written to, dropped and created anew -/

def userColumns : List ColumnDef := [⟨"id", .int64, false⟩, ⟨"name", .utf8, true⟩]

def recreated : List TableCommand :=
  [.createTable ⟨"users", userColumns, ["id"]⟩, .put "users" ⟨[.int64 1, .utf8 "a"]⟩,
    .put "users" ⟨[.int64 1, .utf8 "b"]⟩, .delete "users" [.int64 1, .null], .dropTable "users",
    .createTable ⟨"users", userColumns, ["name", "id"]⟩, .put "users" ⟨[.int64 1, .utf8 "c"]⟩,
    .put "users" ⟨[.null]⟩]

instance (command : TableCommand) : Decidable (Plain command) :=
  match command with
  | .createTable schema => decidable_of_iff ('/' ∉ schema.name.toList ∧ schema.KeyListed)
      ⟨fun both => ⟨both.1, fun _ same => TableCommand.createTable.inj same ▸ both.2⟩,
        fun plain => ⟨plain.flat, plain.listed schema rfl⟩⟩
  | .dropTable table | .put table _ | .delete table _ => decidable_of_iff ('/' ∉ table.toList)
      ⟨fun flat => ⟨flat, fun _ impossible => nomatch impossible⟩, Plain.flat⟩

theorem refines_recreated : Refines .standard recreated ∧
    (Tables.after Bincode.value.encode recreated).rows "users" = [⟨[.int64 1, .utf8 "c"]⟩] :=
  ⟨refines_tables TableCodec.standard_lawful recreated (by decide +kernel), by decide +kernel⟩

end TableApplicator

end Relos
