import Relos.Engine.EngineInvariant
import Relos.Table.StoredTables

set_option autoImplicit false

/-! Every row belongs to a table that exists, has its shape and stands under its own
primary key. -/

namespace Relos

open Async Serial BaseEngine DelosTable

namespace TableApplicator

/-- What a key of the form `data/<table>/<key>` says about the rest of the store. -/
def Integrity (codec : TableCodec) (data : StoreData) : Prop :=
  ∀ table pkEncoded bytes, '/' ∉ pkEncoded.toList →
    data[dataKey table pkEncoded]? = some bytes →
    ∃ encoded schema row pkValues, data[schemaKey table]? = some encoded ∧
      codec.schema.deserialize encoded = .ok schema ∧ schema.name = table ∧
      codec.row.deserialize bytes = .ok row ∧ row.values.length = schema.columns.length ∧
      extractPk schema row = .ok pkValues ∧ dataKey table pkEncoded = rowKey codec table pkValues

/-- Every table has at most one schema, which carries its name. -/
def Named (codec : TableCodec) (data : StoreData) : Prop :=
  ∀ table, ∃ found, SchemaAt codec data table found ∧ ∀ schema, found = some schema →
    schema.name = table

structure Sound (codec : TableCodec) (data : StoreData) : Prop where
  named : Named codec data
  integrity : Integrity codec data

variable {codec : TableCodec} {data data' : StoreData}

theorem Sound.empty : Sound codec (∅ : StoreData) where
  named _ := ⟨none, rfl, fun _ impossible => nomatch impossible⟩
  integrity _ _ _ _ held := nomatch held

theorem Integrity.congr (integrity : Integrity codec data)
    (same : ∀ key, cursorKey ≠ key → data'[key]? = data[key]?) : Integrity codec data' := by
  intro table pkEncoded bytes free held
  rw [same _ (cursorKey_ne_dataKey table pkEncoded)] at held
  obtain ⟨encoded, schema, row, pkValues, present, rest⟩ := integrity table pkEncoded bytes free held
  refine ⟨encoded, schema, row, pkValues, ?_, rest⟩
  rw [same _ (cursorKey_ne_schemaKey table)]
  exact present

theorem Sound.congr (sound : Sound codec data)
    (same : ∀ key, cursorKey ≠ key → data'[key]? = data[key]?) : Sound codec data' where
  named table := by
    obtain ⟨found, schemaAt, named⟩ := sound.named table
    exact ⟨found, schemaAt.congr (same _ (cursorKey_ne_schemaKey table)), named⟩
  integrity := sound.integrity.congr same

section Step

variable {txn txn' : MemoryWriteTx} {rv : ReturnValue} {command : TableCommand}

theorem Named.step (lawful : codec.Lawful) (named : Named codec txn.working)
    (ran : applyCommand codec txn command = .ok (txn', rv)) : Named codec txn'.working := by
  obtain ⟨schemas, schemaAt⟩ := Classical.axiomOfChoice named
  have outcome := applyCommand_outcome lawful (schemaAt command.target).1
  rw [ran] at outcome
  intro table
  refine ⟨_, outcome.schemas (fun table => (schemaAt table).1) table, fun schema found => ?_⟩
  have before := (schemaAt table).2
  cases command with
  | createTable created =>
      unfold TableCommand.schemaStep at found
      dsimp only at found
      split at found
      · rename_i fresh
        cases found
        exact fresh.1
      · exact before schema found
  | dropTable dropped =>
      unfold TableCommand.schemaStep at found
      dsimp only at found
      split at found
      · cases found
      · exact before schema found
  | put | delete => exact before schema found

/-- A row that the transaction did not change keeps its schema. -/
theorem Integrity.step (integrity : Integrity codec txn.working) {found : Option TableSchema}
    (lawful : codec.Lawful) (schemaAt : SchemaAt codec txn.working command.target found)
    (named : ∀ schema, found = some schema → schema.name = command.target)
    (change : Change codec txn found command txn') : Integrity codec txn'.working := by
  intro table pkEncoded bytes free held
  cases change with
  | rejected => exact integrity table pkEncoded bytes free held
  | @created created value absent decoded =>
      have kept : txn.working[dataKey table pkEncoded]? = some bytes := by
        rw [← held]
        exact (getElem?_insert_of_ne (schemaKey_ne_dataKey created.name table pkEncoded)).symm
      obtain ⟨encoded, schema, row, pkValues, present, rest⟩ :=
        integrity table pkEncoded bytes free kept
      have other : schemaKey created.name ≠ schemaKey table := by
        intro same
        cases schemaKey_injective same
        rw [absent] at schemaAt
        rw [show txn.working[schemaKey created.name]? = none from schemaAt] at present
        cases present
      refine ⟨encoded, schema, row, pkValues, ?_, rest⟩
      rw [← present]
      exact getElem?_insert_of_ne other
  | @dropped target =>
      rw [getElem?_dropped] at held
      split at held
      · cases held
      · rename_i outside
        obtain ⟨encoded, schema, row, pkValues, present, rest⟩ :=
          integrity table pkEncoded bytes free held
        refine ⟨encoded, schema, row, pkValues, ?_, rest⟩
        rw [getElem?_dropped, if_neg]
        · exact present
        · rintro (same | starts)
          · cases schemaKey_injective same
            exact outside (Or.inr ((rowPrefix_prefix_dataKey free).mpr (Or.inl rfl)))
          · exact rowPrefix_prefix_schemaKey _ _ starts
  | @stored target row schema pkValues value present length extracted decoded =>
      have schemas : txn.working[schemaKey table]? =
          (txn.put (rowKey codec target pkValues) value).working[schemaKey table]? :=
        (getElem?_insert_of_ne (schemaKey_ne_dataKey _ _ _).symm).symm
      by_cases here : rowKey codec target pkValues = dataKey table pkEncoded
      · have value_eq : value = bytes := by
          unfold MemoryWriteTx.put at held
          rw [here, Std.ExtTreeMap.getElem?_insert_self] at held
          exact Option.some.inj held
        obtain ⟨same, -⟩ := dataKey_injective (slash_not_mem_encodePrimaryKey lawful.keys pkValues) free here
        cases same
        rw [present] at schemaAt
        obtain ⟨encoded, stored, read⟩ := schemaAt
        rw [value_eq] at decoded
        exact ⟨encoded, schema, row, pkValues, schemas.symm.trans stored, read, named schema present,
          decoded, length, extracted, here.symm⟩
      · have kept : txn.working[dataKey table pkEncoded]? = some bytes := by
          rw [← held]
          exact (getElem?_insert_of_ne here).symm
        obtain ⟨encoded, schema, row, pkValues, present, rest⟩ :=
          integrity table pkEncoded bytes free kept
        exact ⟨encoded, schema, row, pkValues, schemas.symm.trans present, rest⟩
  | @deleted target key =>
      have other : rowKey codec target key ≠ dataKey table pkEncoded := by
        intro same
        unfold MemoryWriteTx.delete at held
        rw [same, Std.ExtTreeMap.getElem?_erase_self] at held
        cases held
      have kept : txn.working[dataKey table pkEncoded]? = some bytes := by
        rw [← held]
        exact (getElem?_erase_of_ne other).symm
      obtain ⟨encoded, schema, row, pkValues, present, rest⟩ :=
        integrity table pkEncoded bytes free kept
      refine ⟨encoded, schema, row, pkValues, ?_, rest⟩
      rw [← present]
      exact getElem?_erase_of_ne (schemaKey_ne_dataKey _ _ _).symm

theorem Sound.step (lawful : codec.Lawful) (sound : Sound codec txn.working)
    (ran : applyCommand codec txn command = .ok (txn', rv)) : Sound codec txn'.working where
  named := sound.named.step lawful ran
  integrity := by
    obtain ⟨found, schemaAt, named⟩ := sound.named command.target
    have outcome := applyCommand_outcome lawful schemaAt
    rw [ran] at outcome
    exact sound.integrity.step lawful schemaAt named outcome.change

end Step

theorem Sound.stored (lawful : codec.Lawful) (commands : List TableCommand) :
    Sound codec (stored codec commands).data := by
  induction commands using List.reverseRecOn with
  | nil => exact .empty
  | append_singleton commands command ih =>
      rw [stored_concat]
      rcases storeAfter_cases lawful with kept | ⟨txn, rv, ran, same⟩
      · rw [kept]
        exact ih
      · exact (Sound.step lawful ih ran).congr same

/-- A log of any entries, with the commands that decode among them. -/
theorem Sound.carries (lawful : codec.Lawful) :
    (tableApplicator codec).Carries fun _ data => Sound codec data where
  empty := .empty
  step := by
    intro entries choice memory txn entry memory' txn' rv sound ran
    have restored : Sound codec txn.working := sound.congr fun key other =>
      (getElem?_erase_of_ne other).symm
    unfold tableApplicator TableApplicator.apply at ran
    dsimp only at ran
    cases decoded : codec.command.deserialize entry.payload with
    | error error =>
        rw [decoded] at ran
        cases ran
    | ok command =>
        rw [decoded] at ran
        have applied := (Prod.mk.inj ran).2
        exact (restored.step lawful applied).congr fun key other => getElem?_erase_of_ne other

/-- Whatever commands are applied, whether or not those after a failed one are too:
to one store in order, or by replicas in any run. -/
theorem integrity {Node : Type} [DecidableEq Node]
    {enter : Node → Unit → EngineOp → Result EngineOp} (lawful : codec.Lawful) :
    (∀ commands, Integrity codec (stored codec commands).data) ∧
    ∀ system : System (Replicas Node Unit) (ReplicaOp Node) Replicas.Future EngineResult,
      (replicaComponent enter (tableApplicator codec)).machine.Run (fun _ _ => True)
        (.fresh (Replicas.new Node Unit)) system →
      ∀ node, Integrity codec (system.shared.stores node).data := by
  refine ⟨fun commands => (Sound.stored lawful commands).integrity, fun system run node => ?_⟩
  have carries := Sound.carries lawful
  obtain ⟨entries, counts, inv⟩ := Replicas.Inv.run carries ⟨[], _, .new carries⟩ run
  exact (inv.nodes node).applied.holds.integrity.congr fun key other =>
    (getElem?_erase_of_ne other).symm

/-- A table with a row in it. -/
theorem integrity_keyed :
    Integrity .standard (stored .standard keyed).data ∧
    (stored .standard keyed).data[rowKey .standard "users" [.int64 1]]?.isSome = true :=
  ⟨(@integrity _ Bool _ Replicas.direct TableCodec.standard_lawful).1 keyed, by decide +kernel⟩

end TableApplicator

end Relos
