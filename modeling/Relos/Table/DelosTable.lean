import Relos.Engine.ApplyLoop
import Relos.Table.Bincode
import Relos.Table.Keys

set_option autoImplicit false

/-! The table store over an engine: its calls, one after another, and what its reads
take from the local store once the engine is in sync. -/

namespace Relos

namespace DelosTable

variable (codec : TableCodec)

/-! Its own copy of the key encoding. -/

def encodePrimaryKey (values : List Value) : String :=
  "\x00".intercalate (values.map fun value => codec.hex (codec.value value))

def rowKey (table : String) (pkValues : List Value) : Bytes :=
  utf8 ("data/" ++ table ++ "/" ++ encodePrimaryKey codec pkValues)

theorem rowKey_eq (table : String) (pkValues : List Value) :
    rowKey codec table pkValues = TableApplicator.rowKey codec table pkValues := rfl

/-- A row key determines its table and the bytes of its key values, and no schema and no
cursor stands under it, whichever of the two copies built it. -/
theorem rowKey_determines {codec : TableCodec} (lawful : codec.KeysLawful) (table other : String)
    (key key' : List Value) :
    (TableApplicator.rowKey codec table key = TableApplicator.rowKey codec other key' →
      table = other ∧
        List.Forall₂ (fun value value' => codec.value value = codec.value value') key key') ∧
      (∀ name, TableApplicator.rowKey codec table key ≠ TableApplicator.schemaKey name) ∧
      TableApplicator.rowKey codec table key ≠ BaseEngine.cursorKey ∧
      DelosTable.rowKey codec table key = TableApplicator.rowKey codec table key := by
  refine ⟨?_, ?_, ?_, rowKey_eq codec table key⟩
  · intro same
    obtain ⟨tables, keys⟩ := (TableApplicator.rowKey_eq_iff lawful).mp same
    rw [← List.forall₂_eq_eq_eq, List.forall₂_map_left_iff, List.forall₂_map_right_iff] at keys
    exact ⟨tables, keys⟩
  · intro name same
    exact TableApplicator.schemaKey_ne_dataKey name table _ same.symm
  · intro same
    exact TableApplicator.cursorKey_ne_rowKey codec table key same.symm

/-- A name with a slash and a NUL, and no key values at all. -/
theorem rowKey_determines_odd :
    TableApplicator.rowKey .standard "a/\x00" [] ≠ TableApplicator.rowKey .standard "a" [] ∧
      TableApplicator.rowKey .standard "a/\x00" [] ≠ TableApplicator.schemaKey "a" := by
  obtain ⟨determined, schemas, -⟩ :=
    rowKey_determines TableCodec.standard_lawful.keys "a/\x00" "a" [] []
  constructor
  · intro same
    exact absurd (determined same).1 (by decide)
  · exact schemas "a"

/-- `get` after its sync. -/
def readRow (store : MemoryStore) (table : String) (key : List Value) : Result (Option Row) :=
  match store.get (rowKey codec table key) with
  | some bytes => (codec.row.deserialize bytes).map some
  | none => .ok none

/-- `scan` after its sync. -/
def readRows (store : MemoryStore) (table : String) : Result (List Row) :=
  (store.prefixScan (utf8 ("data/" ++ table ++ "/"))).mapM fun pair =>
    codec.row.deserialize pair.2

/-- `propose_and_check` once the engine has returned. -/
def checkResponse : ReturnValue → Result Unit
  | .data bytes => (codec.response.deserialize bytes).bind fun
      | .ok => .ok ()
      | .error message => .error (.invalidOperation message)
  | .success => .ok ()

def proposeAndCheck (loop : ApplyLoop Unit) (command : TableCommand) :
    ApplyLoop Unit × Result Unit :=
  match codec.command.serialize command with
  | .ok payload =>
      let (next, returned) := loop.handlePropose (tableApplicator codec) (.new payload)
      (next, returned.bind (checkResponse codec))
  | .error error => (loop, .error error)

def sync (loop : ApplyLoop Unit) : ApplyLoop Unit × Result Nat :=
  loop.handleSync (tableApplicator codec)

def get (loop : ApplyLoop Unit) (table : String) (key : List Value) :
    ApplyLoop Unit × Result (Option Row) :=
  let (next, synced) := sync codec loop
  (next, synced.bind fun _ => readRow codec next.store table key)

def scan (loop : ApplyLoop Unit) (table : String) : ApplyLoop Unit × Result (List Row) :=
  let (next, synced) := sync codec loop
  (next, synced.bind fun _ => readRows codec next.store table)

/-- The state after these calls, each made when the one before it has returned. -/
def after (commands : List TableCommand) : ApplyLoop Unit :=
  commands.foldl (fun loop command => (proposeAndCheck codec loop command).1) (.new ())

theorem after_concat (commands : List TableCommand) (command : TableCommand) :
    after codec (commands ++ [command]) =
      (proposeAndCheck codec (after codec commands) command).1 := by
  unfold after
  rw [List.foldl_append]
  rfl

end DelosTable

end Relos
