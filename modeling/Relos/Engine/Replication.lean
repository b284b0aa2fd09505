import Relos.Engine.EngineInvariant
import Relos.Replay.StateMachine

set_option autoImplicit false

/-! State machine replication: the store of every replica, apart from its cursor,
is the replay of the log up to the cursor. -/

namespace Relos

open Async Replay Serial BaseEngine

variable {Node Memory Choice : Type}

/-- The applicator is deterministic and has no use for the cursor: what a
successful apply does to the rest of the store is a step of the machine. -/
structure Applicator.Implements (applicator : Applicator Memory Choice)
    (machine : StateMachine Entry StoreData ReturnValue) : Prop where
  empty : machine.initial = ∅
  step : ∀ {choice memory txn entry pos memory' txn' rv},
    applicator.apply choice memory txn entry pos = (memory', .ok (txn', rv)) →
    machine.step (txn.working.erase cursorKey) entry pos =
      some (txn'.working.erase cursorKey, rv)

/-- What the replicas have in common with the log. -/
structure Replicas.Replicated (machine : StateMachine Entry StoreData ReturnValue)
    (replicas : Replicas Node Memory) : Prop where
  store : ∀ node, ∃ cursor entries, persistedCursor (replicas.stores node) = .ok cursor ∧
    replicas.log.loglet.entries.take (cursor - 1) = entries.map some ∧
    entries.length + 1 = cursor ∧
    machine.replay logPosBegin entries = some ((replicas.stores node).data.erase cursorKey)
  idle : ∀ node engine, replicas.engines node = some engine → engine.serving = none →
    persistedCursor (replicas.stores node) = .ok engine.cursor
  agree : ∀ node node', persistedCursor (replicas.stores node) =
    persistedCursor (replicas.stores node') → replicas.stores node = replicas.stores node'

variable {enter : Node → Memory → EngineOp → Result EngineOp} {applicator : Applicator Memory Choice}
  {machine : StateMachine Entry StoreData ReturnValue} {replicas : Replicas Node Memory}

/-- The store is the replay of the entries. -/
def Replayed (machine : StateMachine Entry StoreData ReturnValue) (entries : List Entry)
    (data : StoreData) : Prop :=
  machine.replay logPosBegin entries = some data

theorem Applicator.Implements.carries (implements : applicator.Implements machine) :
    applicator.Carries (Replayed machine) where
  empty := by
    unfold Replayed StateMachine.replay
    rw [implements.empty]
    rfl
  step := by
    intro entries choice memory txn entry memory' txn' rv replayed ran
    have next := implements.step ran
    unfold Replayed at replayed ⊢
    rw [StateMachine.replay_concat, replayed, logPosBegin, Nat.add_comm 1, Option.bind_some, next]
    rfl

/-- Beside the cursor, the store is determined by the count. -/
theorem Applied.unique {entries : List Entry} {count : Nat} {data data' : StoreData}
    (applied : Applied (Replayed machine) entries count data)
    (applied' : Applied (Replayed machine) entries count data') : data = data' := by
  have rest := Option.some.inj (applied.holds.symm.trans applied'.holds)
  exact eq_of_erase_eq rest (applied.cursor.trans applied'.cursor.symm)

theorem Replicas.Replicated.of_inv {entries : List Entry} {counts : Node → Nat}
    (inv : replicas.Inv (Replayed machine) entries counts) : replicas.Replicated machine := by
  have held : replicas.log.loglet.entries = entries.map some := by rw [inv.log]; rfl
  have cursor : ∀ node, persistedCursor (replicas.stores node) = .ok (counts node + 1) :=
    fun node => (inv.nodes node).applied.persistedCursor inv.capacity
  refine ⟨fun node => ?_, fun node engine running idle => ?_, fun node node' same => ?_⟩
  · have applied := (inv.nodes node).applied
    refine ⟨counts node + 1, entries.take (counts node), cursor node, ?_, ?_, applied.holds⟩
    · rw [held, Nat.add_sub_cancel, List.map_take]
    · rw [List.length_take, Nat.min_eq_left applied.inside]
  · have fits := (inv.nodes node).fits engine running
    unfold BaseEngine.Fits at fits
    rw [idle] at fits
    rw [fits]
    exact cursor node
  · have counted : counts node = counts node' := by
      rw [cursor, cursor] at same
      exact Nat.succ.inj (Except.ok.inj same)
    have applied := (inv.nodes node).applied
    rw [counted] at applied
    have equal := applied.unique (inv.nodes node').applied
    cases left : replicas.stores node
    cases right : replicas.stores node'
    rw [left, right] at equal
    exact congrArg MemoryStore.mk equal

/-- In every reachable state each store is the replay of the log up to its cursor,
whatever fails, stops and is created anew on the way. -/
theorem Replicas.replicated [DecidableEq Node] (implements : applicator.Implements machine)
    {system : System (Replicas Node Memory) (ReplicaOp Node) Replicas.Future EngineResult}
    (run : (replicaComponent enter applicator).machine.Run (fun _ _ => True)
      (.fresh (Replicas.new Node Memory)) system) : system.shared.Replicated machine := by
  obtain ⟨entries, counts, inv⟩ := Inv.run implements.carries ⟨[], _, .new implements.carries⟩ run
  exact .of_inv inv

/-- Every payload goes under the position of its entry, and any apply may fail. -/
def payloads : Applicator Unit (Option RelosError) where
  apply choice _ txn entry pos :=
    match choice with
    | none => ((), .ok (txn.put (utf8 ("entry:" ++ toString pos)) entry.payload, .data entry.payload))
    | some error => ((), .error error)

def payloadMachine : StateMachine Entry StoreData ReturnValue where
  initial := ∅
  step data entry pos :=
    some (data.insert (utf8 ("entry:" ++ toString pos)) entry.payload, .data entry.payload)

theorem payloads_implements : payloads.Implements payloadMachine where
  empty := rfl
  step := by
    intro choice memory txn entry pos memory' txn' rv ran
    unfold payloads at ran
    simp only at ran
    split at ran
    · cases ran
      have different : utf8 ("entry:" ++ toString pos) ≠ cursorKey := by
        rw [utf8_append, ← List.append_nil cursorKey]
        exact append_ne_of_head (by decide +kernel) (by decide +kernel) (by decide +kernel) _ _
      exact congrArg (fun data => some (data, ReturnValue.data entry.payload))
        (erase_insert_of_ne different).symm
    · cases ran

abbrev PayloadAction := Action (ReplicaOp Bool) (ReplicaEvent Bool Unit (Option RelosError))

def turns (node : Bool) (count : Nat) : List PayloadAction :=
  List.replicate count (.background (.turn node none))

/-- An apply fails, an engine stops between its commit and its increment, and both
replicas catch up. -/
def failAndStop : List PayloadAction :=
  ([.background (.new true ()), .background (.new false ()),
    .start (.engine true (.propose (.new [1]))), .poll 0, .poll 0] : List PayloadAction) ++
    turns true 3 ++
    ([.background (.turn true (some (.store "full"))), .poll 0,
      .start (.engine true .sync), .poll 1, .poll 1] : List PayloadAction) ++ turns true 5 ++
    ([.background (.stop true), .poll 1, .background (.new true ()),
      .start (.engine false (.propose (.new [2]))), .poll 2, .poll 2] : List PayloadAction) ++
    turns false 11 ++
    ([.poll 2, .start (.engine true .sync), .poll 3, .poll 3] : List PayloadAction) ++
    turns true 7 ++ ([.poll 3] : List PayloadAction)

theorem replicated_failAndStop :
    ∃ system : System (Replicas Bool Unit) (ReplicaOp Bool) Replicas.Future EngineResult,
      system.Returned 0 (.engine true (.propose (.new [1]))) (.error (.store "full")) ∧
      system.Returned 1 (.engine true .sync) Replicas.dropped ∧
      system.Returned 2 (.engine false (.propose (.new [2]))) (.ok (.returned (.data [2]))) ∧
      system.Returned 3 (.engine true .sync) (.ok (.pos 3)) ∧
      system.shared.Replicated payloadMachine := by
  obtain ⟨system, run, seen⟩ := Machine.exists_run_of_execute
    (replicaComponent Replicas.direct payloads).machine (fun _ _ => True)
    (.fresh (Replicas.new Bool Unit)) failAndStop System.calls
    [⟨.engine true (.propose (.new [1])), .finished (.error (.store "full"))⟩,
      ⟨.engine true .sync, .finished Replicas.dropped⟩,
      ⟨.engine false (.propose (.new [2])), .finished (.ok (.returned (.data [2])))⟩,
      ⟨.engine true .sync, .finished (.ok (.pos 3))⟩] (by decide +kernel)
  exact ⟨system, congrArg (fun calls => calls[0]?) seen, congrArg (fun calls => calls[1]?) seen,
    congrArg (fun calls => calls[2]?) seen, congrArg (fun calls => calls[3]?) seen,
    Replicas.replicated payloads_implements run⟩

end Relos
