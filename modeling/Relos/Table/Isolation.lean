import Relos.Table.Integrity

set_option autoImplicit false

/-! Whether the tables are isolated from each other, although all of them share one
space of keys. -/

namespace Relos

open Serial BaseEngine DelosTable

namespace TableApplicator

/-- What the reads of a table return, and its schema. -/
structure Unchanged (codec : TableCodec) (before after : MemoryStore) (table : String) : Prop where
  get : ∀ key, readRow codec after table key = readRow codec before table key
  scan : readRows codec after table = readRows codec before table
  schema : after.get (schemaKey table) = before.get (schemaKey table)

/-- Commands on tables of these names change no other of them, and a scan returns
only rows that were put into its table. -/
structure Isolated (codec : TableCodec) (names : Set String) : Prop where
  others : ∀ commands command table other, (∀ earlier ∈ commands, earlier.target ∈ names) →
    command.target = table → table ∈ names → other ∈ names → table ≠ other →
    Unchanged codec (stored codec commands) (stored codec (commands ++ [command])) other
  own : ∀ commands table, (∀ earlier ∈ commands, earlier.target ∈ names) → table ∈ names →
    ∃ rows, readRows codec (stored codec commands) table = .ok rows ∧
      ∀ row ∈ rows, .put table row ∈ commands

variable {codec : TableCodec}

theorem rowPrefix_prefix_rowPrefix {table other : String} (inner : rowPrefix table <+: rowPrefix other) :
    table = other ∨ Encloses table other := by
  refine (rowPrefix_prefix_dataKey (by decide : '/' ∉ "".toList)).mp ?_
  unfold dataKey
  rw [String.append_empty]
  exact inner

/-- Two tables share keys only if the name of one encloses that of the other. -/
theorem disjoint_of_not_encloses {table other : String} (different : table ≠ other)
    (outside : ¬ Encloses table other) (outside' : ¬ Encloses other table) {key : Bytes}
    (starts : rowPrefix other <+: key) : ¬ rowPrefix table <+: key := by
  intro starts'
  rcases List.prefix_or_prefix_of_prefix starts starts' with inner | inner
  · rcases rowPrefix_prefix_rowPrefix inner with same | encloses
    · exact different same.symm
    · exact outside' encloses
  · exact (rowPrefix_prefix_rowPrefix inner).elim different outside

theorem unchanged_of_frame {before after : MemoryStore} {table : String}
    (rows : ∀ key, rowPrefix table <+: key → after.data[key]? = before.data[key]?)
    (schema : after.data[schemaKey table]? = before.data[schemaKey table]?) :
    Unchanged codec before after table where
  get key := by
    have under : rowPrefix table <+: DelosTable.rowKey codec table key := by
      unfold rowPrefix DelosTable.rowKey
      rw [utf8_append _ (DelosTable.encodePrimaryKey codec key)]
      exact List.prefix_append _ _
    unfold readRow MemoryStore.get
    rw [rows _ under]
  scan := by
    have same := scanPrefix_congr rows
    unfold rowPrefix at same
    unfold readRows MemoryStore.prefixScan
    rw [same]
  schema := schema

theorem unchanged_of_not_encloses (lawful : codec.Lawful) (commands : List TableCommand)
    {command : TableCommand} {other : String} (different : command.target ≠ other)
    (outside : ¬ Encloses command.target other) (outside' : ¬ Encloses other command.target) :
    Unchanged codec (stored codec commands) (stored codec (commands ++ [command])) other := by
  rw [stored_concat]
  rcases storeAfter_cases lawful with kept | ⟨txn, rv, ran, same⟩
  · rw [kept]
    exact ⟨fun _ => rfl, rfl, rfl⟩
  · obtain ⟨found, schemaAt, -⟩ := (Sound.stored lawful commands).named command.target
    have outcome : Outcome codec (stored codec commands).beginWriteTxn command _ found :=
      applyCommand_outcome lawful schemaAt
    rw [ran] at outcome
    refine unchanged_of_frame (fun key starts => ?_) ?_
    · have notCursor : cursorKey ≠ key := by
        rintro rfl
        exact rowPrefix_prefix_cursorKey other starts
      have notSchema : key ≠ schemaKey command.target := by
        rintro rfl
        exact rowPrefix_prefix_schemaKey _ _ starts
      rw [same key notCursor, outcome.change.frame notSchema
        (disjoint_of_not_encloses different outside outside' starts)]
      rfl
    · rw [same _ (cursorKey_ne_schemaKey other), outcome.change.frame
        (fun keys => different (schemaKey_injective keys).symm) (rowPrefix_prefix_schemaKey _ _)]
      rfl

/-- Every row in the range of a table was put into it, or into a table that it encloses. -/
def Traced (codec : TableCodec) (commands : List TableCommand) (data : StoreData) : Prop :=
  ∀ table key bytes, rowPrefix table <+: key → data[key]? = some bytes →
    ∃ source row, (table = source ∨ Encloses table source) ∧ .put source row ∈ commands ∧
      codec.row.deserialize bytes = .ok row

theorem traced_stored (lawful : codec.Lawful) (commands : List TableCommand) :
    Traced codec commands (stored codec commands).data := by
  induction commands using List.reverseRecOn with
  | nil => exact fun _ _ _ _ held => nomatch held
  | append_singleton commands command ih =>
      have earlier : Traced codec (commands ++ [command]) (stored codec commands).data := by
        intro table key bytes starts held
        obtain ⟨source, row, inside, member, decoded⟩ := ih table key bytes starts held
        exact ⟨source, row, inside, List.mem_append_left _ member, decoded⟩
      rw [stored_concat]
      rcases storeAfter_cases lawful with kept | ⟨txn, rv, ran, same⟩
      · rw [kept]
        exact earlier
      · obtain ⟨found, schemaAt, -⟩ := (Sound.stored lawful commands).named command.target
        have outcome : Outcome codec (stored codec commands).beginWriteTxn command _ found :=
          applyCommand_outcome lawful schemaAt
        rw [ran] at outcome
        intro table key bytes starts held
        have notCursor : cursorKey ≠ key := by
          rintro rfl
          exact rowPrefix_prefix_cursorKey table starts
        rw [same key notCursor] at held
        cases outcome.change with
        | rejected => exact earlier table key bytes starts held
        | @created schema value absent decoded =>
            refine earlier table key bytes starts (held ▸ ?_)
            refine (getElem?_insert_of_ne ?_).symm
            rintro rfl
            exact rowPrefix_prefix_schemaKey _ _ starts
        | dropped =>
            rw [getElem?_dropped] at held
            split at held
            · cases held
            · exact earlier table key bytes starts held
        | @stored target row schema pkValues value present length extracted decoded =>
            by_cases here : rowKey codec target pkValues = key
            · subst here
              refine ⟨target, row, (rowPrefix_prefix_dataKey
                (slash_not_mem_encodePrimaryKey lawful.keys pkValues)).mp starts,
                List.mem_append_right _ List.mem_cons_self, ?_⟩
              unfold MemoryWriteTx.put at held
              rw [Std.ExtTreeMap.getElem?_insert_self] at held
              rw [← Option.some.inj held]
              exact decoded
            · exact earlier table key bytes starts (held ▸ (getElem?_insert_of_ne here).symm)
        | @deleted target keyValues =>
            refine earlier table key bytes starts (held ▸ ?_)
            refine (getElem?_erase_of_ne ?_).symm
            intro here
            unfold MemoryWriteTx.delete at held
            rw [here, Std.ExtTreeMap.getElem?_erase_self] at held
            cases held

/-! ### What a scan returns -/

/-- The row that a stored value decodes to. -/
def decodedRow (codec : TableCodec) (bytes : Bytes) : Row :=
  (codec.row.deserialize bytes).toOption.getD ⟨[]⟩

theorem decodedRow_eq {bytes : Bytes} {row : Row} (decoded : codec.row.deserialize bytes = .ok row) :
    decodedRow codec bytes = row := by
  unfold decodedRow
  rw [decoded]
  rfl

theorem mapM_eq_ok {α β ε : Type} {read : α → Except ε β} {result : α → β} {items : List α}
    (each : ∀ item ∈ items, read item = .ok (result item)) :
    items.mapM read = .ok (items.map result) := by
  induction items with
  | nil => rfl
  | cons item items ih =>
      rw [List.mapM_cons, each item List.mem_cons_self,
        ih fun other member => each other (List.mem_cons_of_mem item member)]
      rfl

theorem readRows_eq {store : MemoryStore} {table : String}
    (decodes : ∀ key bytes, rowPrefix table <+: key → store.data[key]? = some bytes →
      ∃ row, codec.row.deserialize bytes = .ok row) :
    readRows codec store table =
      .ok ((scanPrefix store.data (rowPrefix table)).map fun pair => decodedRow codec pair.2) := by
  refine mapM_eq_ok fun pair member => ?_
  obtain ⟨held, starts⟩ := mem_scanPrefix.mp member
  obtain ⟨row, decoded⟩ := decodes pair.1 pair.2 starts held
  rw [decoded, decodedRow_eq decoded]

theorem own_of_not_encloses (lawful : codec.Lawful) {commands : List TableCommand} {table : String}
    (outside : ∀ earlier ∈ commands, ¬ Encloses table earlier.target) :
    ∃ rows, readRows codec (stored codec commands) table = .ok rows ∧
      ∀ row ∈ rows, .put table row ∈ commands := by
  have traced : ∀ key bytes, rowPrefix table <+: key →
      (stored codec commands).data[key]? = some bytes →
      ∃ row, .put table row ∈ commands ∧ codec.row.deserialize bytes = .ok row := by
    intro key bytes starts held
    obtain ⟨source, row, inside, member, decoded⟩ :=
      traced_stored lawful commands table key bytes starts held
    rcases inside with rfl | encloses
    · exact ⟨row, member, decoded⟩
    · exact absurd encloses (outside _ member)
  refine ⟨_, readRows_eq fun key bytes starts held => ?_, fun row member => ?_⟩
  · obtain ⟨row, -, decoded⟩ := traced key bytes starts held
    exact ⟨row, decoded⟩
  · obtain ⟨pair, scanned, rfl⟩ := List.mem_map.mp member
    obtain ⟨held, starts⟩ := mem_scanPrefix.mp scanned
    obtain ⟨row, put, decoded⟩ := traced pair.1 pair.2 starts held
    rw [decodedRow_eq decoded]
    exact put

/-! ### A table inside the range of another -/

/-- A table without columns. -/
def bare (table : String) : TableSchema := { name := table, columns := [], primaryKey := [] }

/-- The inner table gets a row. -/
def nested (outer inner : String) : List TableCommand :=
  [.createTable (bare outer), .createTable (bare inner), .put inner ⟨[]⟩]

theorem allApply_nested {outer inner : String} (different : outer ≠ inner) :
    AllApply (nested outer inner) := by
  refine ((AllApply.nil.concat ?_).concat ?_).concat ?_
  · trivial
  · trivial
  · intro schema found length
    have held : schema = bare inner := by
      unfold schemaInForce at found
      simp only [List.nil_append, List.cons_append, List.foldl_cons, List.foldl_nil,
        TableCommand.schemaStep, TableCommand.target, bare, different, false_and, if_false, true_and,
        if_true] at found
      exact (Option.some.inj found).symm
    rw [held]
    intro pkColName member
    exact absurd member List.not_mem_nil

theorem nested_stored (lawful : codec.Lawful) {outer inner : String} (different : outer ≠ inner) :
    ∃ value, codec.row.deserialize value = .ok ⟨[]⟩ ∧
      (stored codec (nested outer inner)).data[rowKey codec inner []]? = some value := by
  have all : AllApply ([.createTable (bare outer), .createTable (bare inner)] ++
      [.put inner ⟨[]⟩]) := allApply_nested different
  have outcome := stored_outcome lawful all.before (.put inner ⟨[]⟩)
  have found : schemaInForce [.createTable (bare outer), .createTable (bare inner)] inner =
      some (bare inner) := by
    simp only [schemaInForce, List.foldl_cons, List.foldl_nil, TableCommand.schemaStep, bare, different,
      false_and, if_false, true_and, if_true]
  rw [show schemaInForce _ (TableCommand.put inner ⟨[]⟩).target = _ from found] at outcome
  obtain ⟨value, decoded, -, responds⟩ := outcome
  have held := stored_of_responds lawful responds (cursorKey_ne_rowKey codec inner [])
  exact ⟨value, decoded, held.trans Std.ExtTreeMap.getElem?_insert_self⟩

/-- Dropping the outer table takes the row away. -/
theorem nested_dropped (lawful : codec.Lawful) {outer inner : String} (encloses : Encloses outer inner) :
    ¬ Unchanged codec (stored codec (nested outer inner))
      (stored codec (nested outer inner ++ [.dropTable outer])) inner := by
  have different : outer ≠ inner := by
    rintro rfl
    exact not_encloses_self outer encloses
  obtain ⟨value, decoded, held⟩ := nested_stored lawful different
  have outcome := stored_outcome lawful (allApply_nested different) (.dropTable outer)
  have found : schemaInForce (nested outer inner) outer = some (bare outer) := by
    simp only [nested, schemaInForce, List.foldl_cons, List.foldl_nil, TableCommand.schemaStep, bare,
      different.symm, false_and, if_false, true_and, if_true]
  rw [show schemaInForce _ (TableCommand.dropTable outer).target = _ from found] at outcome
  have gone : (stored codec (nested outer inner ++ [.dropTable outer])).data[rowKey codec inner []]? =
      none := by
    rw [stored_of_responds lawful outcome (cursorKey_ne_rowKey codec _ _), getElem?_dropped, if_pos]
    exact Or.inr ((rowPrefix_prefix_dataKey (slash_not_mem_encodePrimaryKey lawful.keys [])).mpr
      (Or.inr encloses))
  intro unchanged
  have same := unchanged.get []
  unfold readRow MemoryStore.get at same
  rw [DelosTable.rowKey_eq, gone, held] at same
  dsimp only at same
  rw [decoded] at same
  cases same

/-- Tables are isolated exactly when no name in use encloses another. -/
theorem isolated_iff (lawful : codec.Lawful) (names : Set String) :
    Isolated codec names ↔ ∀ outer ∈ names, ∀ inner ∈ names, ¬ Encloses outer inner := by
  constructor
  · intro isolated outer outer_mem inner inner_mem encloses
    refine nested_dropped lawful encloses (isolated.others (nested outer inner) (.dropTable outer)
      outer inner ?_ rfl outer_mem inner_mem ?_)
    · intro command member
      simp only [nested, List.mem_cons, List.not_mem_nil, or_false] at member
      rcases member with rfl | rfl | rfl
      · exact outer_mem
      · exact inner_mem
      · exact inner_mem
    · rintro rfl
      exact not_encloses_self outer encloses
  · intro apart
    refine ⟨?_, ?_⟩
    · intro commands command table other _ target member other_mem different
      subst target
      exact unchanged_of_not_encloses lawful commands different (apart _ member _ other_mem)
        (apart _ other_mem _ member)
    · intro commands table inside member
      exact own_of_not_encloses lawful fun earlier used => apart _ member _ (inside earlier used)

/-! ### Names with and without a slash -/

theorem isolated_flat : Isolated .standard {"users", "orders"} := by
  refine (isolated_iff TableCodec.standard_lawful _).mpr fun outer outer_mem inner inner_mem => ?_
  rcases outer_mem with rfl | rfl <;> rcases inner_mem with rfl | rfl <;> decide +kernel

/-- Dropping `a` empties `a/b`. -/
theorem not_isolated_nested : ¬ ∀ names : Set String, Isolated .standard names := by
  intro isolated
  have unchanged := (isolated Set.univ).others (nested "a" "a/b") (.dropTable "a") "a" "a/b"
    (fun _ _ => trivial) rfl trivial trivial (by decide)
  exact absurd unchanged.scan (by decide +kernel)

end TableApplicator

end Relos
