import Relos.Table.Bincode
import Relos.Table.TableSteps
import Mathlib.Data.List.Induction

set_option autoImplicit false

/-! Whether a command can wedge the engine under its table: the cursor stays behind
for good once an apply fails. -/

namespace Relos

open Serial BaseEngine TableApplicator

namespace DelosTable

variable (codec : TableCodec)

/-- The cursor is the tail of the log, and a sync returns it. -/
structure Live (loop : ApplyLoop Unit) : Prop where
  cursor : loop.cursor = loop.loglet.tail
  synced : (sync codec loop).2 = .ok loop.loglet.tail

variable {codec} {calls : List TableCommand} {command : TableCommand} {loop : ApplyLoop Unit}

/-- The calls so far were all applied. -/
structure Settled (codec : TableCodec) (calls : List TableCommand) (loop : ApplyLoop Unit) :
    Prop where
  caughtUp : ∃ entries, loop.CaughtUp entries
  schemas : ∀ table, SchemaAt codec loop.store.data table (schemaInForce calls table)

theorem Settled.new : Settled codec [] (.new ()) :=
  ⟨⟨[], .new ()⟩, fun _ => rfl⟩

theorem Settled.live (settled : Settled codec calls loop) : Live codec loop := by
  obtain ⟨entries, caughtUp⟩ := settled.caughtUp
  have tail : loop.loglet.tail = entries.length + 1 := by
    rw [caughtUp.log, MemoryLoglet.holding_tail]
  refine ⟨caughtUp.cursor.trans tail.symm, ?_⟩
  unfold sync
  rw [ApplyLoop.handleSync_caughtUp caughtUp, tail]

/-- The apply of a command that was serialized. -/
theorem apply_eq {txn : MemoryWriteTx} {payload : Bytes}
    (decoded : codec.command.deserialize payload = .ok command) :
    TableApplicator.apply codec txn (.new payload) = applyCommand codec txn command := by
  unfold TableApplicator.apply Entry.new
  rw [decoded]
  rfl

theorem Settled.outcome (lawful : codec.Lawful) (settled : Settled codec calls loop)
    (command : TableCommand) :
    Outcome codec loop.store.beginWriteTxn command
      (applyCommand codec loop.store.beginWriteTxn command)
      (schemaInForce calls command.target) :=
  applyCommand_outcome lawful (settled.schemas command.target)

/-- An apply that succeeds keeps the engine going. -/
theorem Settled.applied (lawful : codec.Lawful) (settled : Settled codec calls loop)
    {txn : MemoryWriteTx} {rv : ReturnValue}
    (ran : applyCommand codec loop.store.beginWriteTxn command = .ok (txn, rv)) :
    Settled codec (calls ++ [command]) (proposeAndCheck codec loop command).1 := by
  obtain ⟨entries, caughtUp⟩ := settled.caughtUp
  obtain ⟨payload, encoded, decoded⟩ := lawful.command command
  have outcome := settled.outcome lawful command
  rw [ran] at outcome
  unfold proposeAndCheck
  rw [encoded]
  dsimp only
  rw [ApplyLoop.handlePropose_caughtUp caughtUp]
  unfold tableApplicator
  dsimp only
  rw [apply_eq decoded, ran]
  refine ⟨⟨entries ++ [.new payload], rfl, ?_⟩, fun table => ?_⟩
  · rw [List.length_append, caughtUp.cursor]
    rfl
  · rw [schemaInForce_concat]
    refine (outcome.schemas settled.schemas table).congr ?_
    exact getElem?_insert_of_ne (cursorKey_ne_schemaKey table)

/-- What the caller gets for a response. -/
def answer : TableResponse → Result Unit
  | .ok => .ok ()
  | .error message => .error (.invalidOperation message)

theorem Settled.answered (lawful : codec.Lawful) (settled : Settled codec calls loop)
    {txn : MemoryWriteTx} {response : TableResponse}
    (responds : Responds codec (applyCommand codec loop.store.beginWriteTxn command) txn response) :
    (proposeAndCheck codec loop command).2 = answer response := by
  obtain ⟨entries, caughtUp⟩ := settled.caughtUp
  obtain ⟨payload, encoded, decoded⟩ := lawful.command command
  obtain ⟨bytes, ran, read⟩ := responds
  unfold proposeAndCheck
  rw [encoded]
  dsimp only
  rw [ApplyLoop.handlePropose_caughtUp caughtUp]
  unfold tableApplicator
  dsimp only
  rw [apply_eq decoded, ran]
  dsimp only [Except.bind, checkResponse]
  rw [read]
  cases response <;> rfl

/-- One that fails leaves the cursor behind the tail. -/
theorem Settled.wedged (lawful : codec.Lawful) (settled : Settled codec calls loop)
    {error : RelosError}
    (ran : applyCommand codec loop.store.beginWriteTxn command = .error error) :
    ¬ Live codec (proposeAndCheck codec loop command).1 := by
  obtain ⟨entries, caughtUp⟩ := settled.caughtUp
  obtain ⟨payload, encoded, decoded⟩ := lawful.command command
  unfold proposeAndCheck
  rw [encoded]
  dsimp only
  rw [ApplyLoop.handlePropose_caughtUp caughtUp]
  unfold tableApplicator
  dsimp only
  rw [apply_eq decoded, ran]
  intro live
  have behind := live.cursor
  dsimp only at behind
  rw [caughtUp.cursor, MemoryLoglet.holding_tail, List.length_append] at behind
  exact absurd behind (by simp)

/-- The engine goes on exactly when the apply succeeds. -/
theorem Settled.step (lawful : codec.Lawful) (settled : Settled codec calls loop)
    (command : TableCommand) :
    (command.AppliesTo (schemaInForce calls command.target) ∧
      Settled codec (calls ++ [command]) (proposeAndCheck codec loop command).1) ∨
    (¬ command.AppliesTo (schemaInForce calls command.target) ∧
      ¬ Live codec (proposeAndCheck codec loop command).1) := by
  have applies := (settled.outcome lawful command).applies_iff
  cases ran : applyCommand codec loop.store.beginWriteTxn command with
  | ok applied =>
      obtain ⟨txn, rv⟩ := applied
      exact Or.inl ⟨applies.mp ⟨_, ran⟩, settled.applied lawful ran⟩
  | error error =>
      refine Or.inr ⟨fun fits => ?_, settled.wedged lawful ran⟩
      obtain ⟨applied, impossible⟩ := applies.mpr fits
      rw [ran] at impossible
      cases impossible

theorem settled_after {commands : List TableCommand}
    (kept : ∀ calls command, calls ++ [command] <+: commands → Settled codec calls (after codec calls) →
      Settled codec (calls ++ [command]) (after codec (calls ++ [command]))) (calls : List TableCommand)
    (starts : calls <+: commands) : Settled codec calls (after codec calls) := by
  induction calls using List.reverseRecOn with
  | nil => exact .new
  | append_singleton calls command ih =>
      exact kept calls command starts (ih ((List.prefix_append calls [command]).trans starts))

/-- After every call the engine goes on, if and only if no put of a row of the right
length meets a schema with a primary key column that it does not have. -/
theorem live_iff (lawful : codec.Lawful) (commands : List TableCommand) :
    (∀ calls command, calls ++ [command] <+: commands →
      Live codec (after codec (calls ++ [command]))) ↔ AllApply commands := by
  constructor
  · intro live
    have step : ∀ calls command, calls ++ [command] <+: commands →
        Settled codec calls (after codec calls) →
        command.AppliesTo (schemaInForce calls command.target) ∧
          Settled codec (calls ++ [command]) (after codec (calls ++ [command])) := by
      intro calls command starts settled
      have going := live calls command starts
      rw [after_concat] at going ⊢
      rcases settled.step lawful command with next | ⟨-, stuck⟩
      · exact next
      · exact absurd going stuck
    have settled := settled_after fun calls command starts before => (step calls command starts before).2
    intro calls command starts
    exact (step calls command starts (settled calls ((List.prefix_append calls [command]).trans starts))).1
  · intro applies calls command starts
    refine (settled_after (fun calls command starts before => ?_) _ starts).live
    rw [after_concat]
    rcases before.step lawful command with ⟨-, next⟩ | ⟨refused, -⟩
    · exact next
    · exact absurd (applies calls command starts) refused

/-! ### Two sequences of calls -/

def keyed : List TableCommand :=
  [.createTable ⟨"users", [⟨"id", .int64, false⟩], ["id"]⟩, .put "users" ⟨[.int64 1]⟩]

def unkeyed : List TableCommand :=
  [.createTable ⟨"users", [⟨"id", .int64, false⟩], ["uid"]⟩, .put "users" ⟨[.int64 1]⟩]

theorem allApply_keyed : AllApply keyed := by
  refine (AllApply.nil.concat ?_).concat ?_
  · trivial
  · intro schema found length
    cases Option.some.inj found
    decide

theorem live_keyed : AllApply keyed ∧ ∀ calls command, calls ++ [command] <+: keyed →
    Live .standard (after .standard (calls ++ [command])) :=
  ⟨allApply_keyed, (live_iff TableCodec.standard_lawful keyed).mpr allApply_keyed⟩

/-- The table is created, and the put after it is never applied. -/
theorem not_live_unkeyed : ¬ ∀ (commands calls : List TableCommand) (command : TableCommand),
    calls ++ [command] <+: commands → Live .standard (after .standard (calls ++ [command])) := by
  intro live
  have cursor := (live unkeyed unkeyed.dropLast (unkeyed.getLast (by decide))
    (by rw [List.dropLast_append_getLast])).cursor
  exact absurd cursor (by decide +kernel)

end DelosTable

end Relos
