import Relos.Table.Progress

set_option autoImplicit false

/-! The store after a sequence of commands, and its agreement with the engine. -/

namespace Relos

open Serial BaseEngine TableApplicator

namespace DelosTable

variable (codec : TableCodec)

/-- `apply_one` of the engine, for the entry that a command is proposed in. -/
def applyOne (store : MemoryStore) (pos : Nat) (command : TableCommand) :
    Result (MemoryStore × ReturnValue) :=
  (codec.command.serialize command).bind fun payload =>
    (TableApplicator.apply codec store.beginWriteTxn (.new payload)).map fun applied =>
      ((applied.1.put cursorKey (toLeBytes 8 (pos + 1))).commit, applied.2)

/-- A failed apply leaves the store as it was. -/
def storeAfter (store : MemoryStore) : Result (MemoryStore × ReturnValue) → MemoryStore
  | .ok (next, _) => next
  | .error _ => store

def storedFrom (pos : Nat) (store : MemoryStore) : List TableCommand → MemoryStore
  | [] => store
  | command :: commands =>
      storedFrom (pos + 1) (storeAfter store (applyOne codec store pos command)) commands

/-- The store after these commands, applied in order to an empty one. -/
def stored (commands : List TableCommand) : MemoryStore :=
  storedFrom codec logPosBegin .new commands

theorem storedFrom_append (pos : Nat) (store : MemoryStore) (commands more : List TableCommand) :
    storedFrom codec pos store (commands ++ more) =
      storedFrom codec (pos + commands.length) (storedFrom codec pos store commands) more := by
  induction commands generalizing pos store with
  | nil => rfl
  | cons command commands ih =>
      rw [List.cons_append, storedFrom, ih, List.length_cons, Nat.add_assoc, Nat.add_comm 1]
      rfl

theorem stored_concat (commands : List TableCommand) (command : TableCommand) :
    stored codec (commands ++ [command]) = storeAfter (stored codec commands)
      (applyOne codec (stored codec commands) (commands.length + 1) command) := by
  unfold stored
  rw [storedFrom_append, Nat.add_comm logPosBegin]
  rfl

variable {codec} {store : MemoryStore} {pos : Nat} {command : TableCommand}

theorem applyOne_eq (lawful : codec.Lawful) :
    applyOne codec store pos command =
      (applyCommand codec store.beginWriteTxn command).map fun applied =>
        ((applied.1.put cursorKey (toLeBytes 8 (pos + 1))).commit, applied.2) := by
  obtain ⟨payload, encoded, decoded⟩ := lawful.command command
  unfold applyOne
  rw [encoded]
  dsimp only [Except.bind]
  rw [apply_eq decoded]

/-- What one command makes of the store beside the cursor. -/
theorem storeAfter_cases (lawful : codec.Lawful) :
    storeAfter store (applyOne codec store pos command) = store ∨
    ∃ txn rv, applyCommand codec store.beginWriteTxn command = .ok (txn, rv) ∧
      ∀ key, cursorKey ≠ key →
        (storeAfter store (applyOne codec store pos command)).data[key]? = txn.working[key]? := by
  rw [applyOne_eq lawful]
  cases ran : applyCommand codec store.beginWriteTxn command with
  | error error => exact Or.inl rfl
  | ok applied => exact Or.inr ⟨applied.1, applied.2, rfl, fun key other => getElem?_insert_of_ne other⟩

theorem stored_of_responds (lawful : codec.Lawful) {commands : List TableCommand} {txn : MemoryWriteTx}
    {response : TableResponse} (responds : Responds codec
      (applyCommand codec (stored codec commands).beginWriteTxn command) txn response)
    {key : Bytes} (other : cursorKey ≠ key) :
    (stored codec (commands ++ [command])).data[key]? = txn.working[key]? := by
  obtain ⟨bytes, ran, -⟩ := responds
  rw [stored_concat, applyOne_eq lawful, ran]
  exact getElem?_insert_of_ne other

/-- As long as every call is applied, the engine holds that store. -/
theorem after_store (lawful : codec.Lawful) {commands : List TableCommand} (all : AllApply commands) :
    Settled codec commands (after codec commands) ∧
      (after codec commands).cursor = commands.length + 1 ∧
      (after codec commands).store = stored codec commands := by
  induction commands using List.reverseRecOn with
  | nil => exact ⟨.new, rfl, rfl⟩
  | append_singleton commands command ih =>
      obtain ⟨settled, cursor, same⟩ := ih all.before
      obtain ⟨⟨txn, rv⟩, ran⟩ := (settled.outcome lawful command).applies_iff.mpr all.last
      obtain ⟨entries, caughtUp⟩ := settled.caughtUp
      obtain ⟨payload, encoded, decoded⟩ := lawful.command command
      rw [after_concat]
      refine ⟨settled.applied lawful ran, ?_⟩
      rw [stored_concat, applyOne_eq lawful, ← same, ran]
      unfold proposeAndCheck
      rw [encoded]
      dsimp only
      rw [ApplyLoop.handlePropose_caughtUp caughtUp]
      unfold tableApplicator
      dsimp only
      rw [apply_eq decoded, ran]
      refine ⟨?_, ?_⟩
      · rw [List.length_append, cursor]
        rfl
      · rw [cursor]
        rfl

theorem stored_schemas (lawful : codec.Lawful) {commands : List TableCommand} (all : AllApply commands)
    (table : String) :
    SchemaAt codec (stored codec commands).data table (schemaInForce commands table) := by
  obtain ⟨settled, -, same⟩ := after_store lawful all
  rw [← same]
  exact settled.schemas table

/-- The outcome of the next command. -/
theorem stored_outcome (lawful : codec.Lawful) {commands : List TableCommand} (all : AllApply commands)
    (command : TableCommand) :
    Outcome codec (stored codec commands).beginWriteTxn command
      (applyCommand codec (stored codec commands).beginWriteTxn command)
      (schemaInForce commands command.target) :=
  applyCommand_outcome lawful (stored_schemas lawful all command.target)

end DelosTable

end Relos
