import Relos.Engine.Replication
import Mathlib.Data.List.Nodup

set_option autoImplicit false

/-! An engine that is dropped and created anew on the same store and log, within one
process. Dropping its handle detaches the apply loop: the loop serves what is queued,
next to the loop of the new engine. -/

namespace Relos

open Async Replay Serial BaseEngine

/-- `loops` are all loops ever spawned, and `engine` that of the engine in use.
Only statements read `commits`, the positions committed so far. -/
structure EngineProcess (Memory : Type) where
  log : TrackedLoglet
  store : MemoryStore
  loops : List (BaseEngine Memory)
  engine : Option Nat
  commits : List Nat

/-- A caller of the engine sends a request, the engine is dropped or created, a loop
takes a step, or the log is used by others. -/
inductive ProcessEvent (Memory Choice : Type) where
  | request (op : EngineOp) (resultTx : Nat)
  | drop
  | new (memory : Memory)
  | turn (loop : Nat) (choice : Choice)
  | call (index : Nat) (op : LogletOp)

def BaseEngine.Phase.committing (cursor : Nat) : Phase → Option Nat
  | .staged _ _ _ => some cursor
  | .append _ | .checkTail | .play _ | .read _ _ | .committed _ _ => none

/-- The position that the next turn of the loop commits. -/
def BaseEngine.committing {Memory : Type} (engine : BaseEngine Memory) : Option Nat :=
  engine.serving.bind fun current => current.2.committing engine.cursor

theorem BaseEngine.committing_idle {Memory : Type} {engine : BaseEngine Memory}
    (idle : engine.serving = none) : engine.committing = none := by
  unfold BaseEngine.committing
  rw [idle]
  rfl

theorem BaseEngine.committing_serving {Memory : Type} {engine : BaseEngine Memory} {resultTx : Nat}
    {phase : Phase} (serving : engine.serving = some (resultTx, phase)) :
    engine.committing = phase.committing engine.cursor := by
  unfold BaseEngine.committing
  rw [serving]
  rfl

namespace EngineProcess

variable {Memory Choice : Type}

def new (Memory : Type) : EngineProcess Memory where
  log := .new
  store := .new
  loops := []
  engine := none
  commits := []

def step (applicator : Applicator Memory Choice) (process : EngineProcess Memory) :
    ProcessEvent Memory Choice → Option (EngineProcess Memory)
  | .request op resultTx =>
      process.engine.bind fun loop => (process.loops[loop]?).map fun engine =>
        { process with
          loops := process.loops.set loop
            { engine with requests := engine.requests ++ [⟨op, resultTx⟩] } }
  | .drop => process.engine.map fun _ => { process with engine := none }
  | .new memory =>
      match process.engine with
      | some _ => none
      | none =>
          match BaseEngine.new process.store memory with
          | .ok engine => some { process with
              loops := process.loops ++ [engine]
              engine := some process.loops.length }
          | .error _ => some process
  | .turn loop choice =>
      (process.loops[loop]?).bind fun engine =>
        (engine.turn applicator choice process.log process.store).map fun turn =>
          { log := turn.log
            store := turn.store
            loops := process.loops.set loop turn.engine
            engine := process.engine
            commits := process.commits ++ engine.committing.toList }
  | .call index op =>
      match op with
      | .append _ =>
          if process.log.loglet.entries.length < vecCapacity then
            some { process with log := (process.log.call index op).1 }
          else none
      | .checkTail | .read _ | .trim _ | .seal =>
          some { process with log := (process.log.call index op).1 }

def machine (applicator : Applicator Memory Choice) :
    Machine (EngineProcess Memory) (ProcessEvent Memory Choice) where
  step := step applicator

/-- Every position is committed once, and the store beside the cursor is the replay of
the log up to the cursor. -/
structure ExactlyOnce (machine : StateMachine Entry StoreData ReturnValue)
    (process : EngineProcess Memory) : Prop where
  once : process.commits.Nodup
  store : ∃ cursor entries, persistedCursor process.store = .ok cursor ∧
    entries = (process.log.written.map Prod.snd).take (cursor - 1) ∧ entries.length + 1 = cursor ∧
    machine.replay logPosBegin entries = some (process.store.data.erase cursorKey)

instance : DecidableEq (Result Nat) := inferInstanceAs (DecidableEq (Except RelosError Nat))

def StandsAt (store : MemoryStore) : Option Nat → Prop
  | some pos => persistedCursor store = .ok pos
  | none => True

instance (store : MemoryStore) : (pos : Option Nat) → Decidable (StandsAt store pos)
  | some pos => inferInstanceAs (Decidable (persistedCursor store = .ok pos))
  | none => isTrue trivial

/-- A loop commits only where the store stands: no other loop has moved the persisted
cursor since this one last knew it. -/
def InPlace (process : EngineProcess Memory) : ProcessEvent Memory Choice → Prop
  | .turn loop _ => StandsAt process.store ((process.loops[loop]?).bind committing)
  | .request _ _ | .drop | .new _ | .call _ _ => True

instance (process : EngineProcess Memory) (event : ProcessEvent Memory Choice) :
    Decidable (process.InPlace event) :=
  match event with
  | .turn loop _ =>
      inferInstanceAs (Decidable (StandsAt process.store ((process.loops[loop]?).bind committing)))
  | .request _ _ | .drop | .new _ | .call _ _ => isTrue trivial

/-! ### The invariant -/

/-- What a loop may hold when the store has come to `count` entries. Its cursor is
behind the store or where the store stands, and only in the latter case is its
transaction worth committing. -/
def PhaseFollows (machine : StateMachine Entry StoreData ReturnValue) (entries : List Entry)
    (count cursor : Nat) : Phase → Prop
  | .append _ | .checkTail | .play _ => cursor ≤ count + 1
  | .read _ entry => cursor ≤ count + 1 ∧ entries[cursor - 1]? = some entry
  | .staged _ txn _ => cursor ≤ count + 1 ∧
      (cursor = count + 1 → Applied (Replayed machine) entries cursor txn.working)
  | .committed _ _ => cursor ≤ count

structure LoopFollows (machine : StateMachine Entry StoreData ReturnValue) (entries : List Entry)
    (count : Nat) (engine : BaseEngine Memory) : Prop where
  positive : 1 ≤ engine.cursor
  idle : engine.serving = none → engine.cursor ≤ count + 1
  serving : ∀ resultTx phase, engine.serving = some (resultTx, phase) →
    PhaseFollows machine entries count engine.cursor phase

def entries (process : EngineProcess Memory) : List Entry := process.log.written.map Prod.snd

structure Inv (machine : StateMachine Entry StoreData ReturnValue) (process : EngineProcess Memory)
    (count : Nat) : Prop where
  log : process.log.Inv True
  capacity : process.log.written.length ≤ vecCapacity
  applied : Applied (Replayed machine) process.entries count process.store.data
  loops : ∀ engine ∈ process.loops, LoopFollows machine process.entries count engine
  commits : process.commits = (List.range count).map (· + 1)

variable {machine : StateMachine Entry StoreData ReturnValue}
  {applicator : Applicator Memory Choice} {process next : EngineProcess Memory} {count count' : Nat}
  {entries entries' : List Entry}
  {engine : BaseEngine Memory}

theorem PhaseFollows.later {cursor : Nat} {phase : Phase}
    (follows : PhaseFollows machine entries count cursor phase) (more : entries <+: entries')
    (advanced : count ≤ count') : PhaseFollows machine entries' count' cursor phase := by
  cases phase with
  | append | checkTail | play =>
      have bound : cursor ≤ count + 1 := follows
      exact (show cursor ≤ count' + 1 by omega)
  | read handler entry =>
      obtain ⟨bound, found⟩ := follows
      refine ⟨by omega, ?_⟩
      obtain ⟨rest, rfl⟩ := more
      rw [List.getElem?_append_left (List.getElem?_eq_some_iff.mp found).1]
      exact found
  | staged handler txn rv =>
      obtain ⟨bound, staged⟩ := follows
      exact ⟨by omega, fun here => (staged (by omega)).extend more⟩
  | committed handler rv => exact Nat.le_trans follows advanced

theorem LoopFollows.later (follows : LoopFollows machine entries count engine)
    (more : entries <+: entries') (advanced : count ≤ count') :
    LoopFollows machine entries' count' engine where
  positive := follows.positive
  idle none := by
    have bound := follows.idle none
    omega
  serving resultTx phase same := (follows.serving resultTx phase same).later more advanced

theorem LoopFollows.of_idle {memory : Memory} {requests : List ApplyRequest} {cursor : Nat}
    (positive : 1 ≤ cursor) (bound : cursor ≤ count + 1) :
    LoopFollows machine entries count
      { cursor := cursor, requests := requests, serving := none, memory := memory } where
  positive := positive
  idle _ := bound
  serving _ _ impossible := by cases impossible

theorem LoopFollows.of_serving {memory : Memory} {requests : List ApplyRequest}
    {cursor resultTx : Nat} {phase : Phase} (positive : 1 ≤ cursor)
    (follows : PhaseFollows machine entries count cursor phase) :
    LoopFollows machine entries count
      { cursor := cursor, requests := requests, serving := some (resultTx, phase),
        memory := memory } where
  positive := positive
  idle impossible := by cases impossible
  serving _ _ same := by
    cases same
    exact follows

/-- A call of the log that finds room. -/
theorem call_grows {log : TrackedLoglet} (inv : log.Inv True)
    (capacity : log.written.length ≤ vecCapacity) (index : Nat) (op : LogletOp)
    (room : op.IsAppend → log.loglet.entries.length < vecCapacity) :
    (log.call index op).1.Inv True ∧ (log.call index op).1.written.length ≤ vecCapacity ∧
      log.written <+: (log.call index op).1.written := by
  obtain ⟨inv', grows, -⟩ := TrackedLoglet.call_sound inv index op fun _ => trivial
  refine ⟨inv', ?_, grows.written⟩
  have kept : ¬ op.IsAppend → (log.call index op).1.written = log.written := by
    intro other
    unfold TrackedLoglet.call TrackedLoglet.record
    cases op with
    | append entry => exact absurd trivial other
    | checkTail | read | trim | «seal» => rfl
  by_cases appends : op.IsAppend
  · have bound := room appends
    rw [inv.length] at bound
    cases op with
    | append entry =>
        unfold TrackedLoglet.call TrackedLoglet.record
        dsimp only
        split
        · rw [List.length_append, List.length_singleton]
          exact bound
        · exact capacity
    | checkTail | read | trim | «seal» => exact absurd appends id
  · rw [kept appends]
    exact capacity

/-- What a turn of a loop does to the log, the store and itself. -/
structure Moves (machine : StateMachine Entry StoreData ReturnValue) (log : TrackedLoglet)
    (engine : BaseEngine Memory) (count : Nat) (turn : Turn Memory) (count' : Nat) : Prop where
  inv : turn.log.Inv True
  capacity : turn.log.written.length ≤ vecCapacity
  written : log.written <+: turn.log.written
  applied : Applied (Replayed machine) (turn.log.written.map Prod.snd) count' turn.store.data
  follows : LoopFollows machine (turn.log.written.map Prod.snd) count' turn.engine
  advanced : count ≤ count'
  commits : (List.range count').map (· + 1) =
    (List.range count).map (· + 1) ++ engine.committing.toList

theorem turn_moves (implements : applicator.Implements machine) {log : TrackedLoglet}
    {store : MemoryStore} (inv : log.Inv True) (capacity : log.written.length ≤ vecCapacity)
    (applied : Applied (Replayed machine) (log.written.map Prod.snd) count store.data)
    (follows : LoopFollows machine (log.written.map Prod.snd) count engine)
    (inPlace : StandsAt store engine.committing) {choice : Choice} {turn : Turn Memory}
    (moved : engine.turn applicator choice log store = some turn) :
    ∃ count', Moves machine log engine count turn count' := by
  have positive := follows.positive
  -- Nothing is committed, and neither the log nor the store changes.
  have quiet : ∀ engine' reply, engine.committing = none →
      LoopFollows machine (log.written.map Prod.snd) count engine' →
      ∃ count', Moves machine log engine count
        { log := log, store := store, engine := engine', reply := reply } count' := by
    intro engine' reply none follows'
    refine ⟨count, inv, capacity, List.prefix_refl _, applied, follows', Nat.le_refl _, ?_⟩
    rw [none]
    exact (List.append_nil _).symm
  unfold BaseEngine.turn at moved
  split at moved
  · rename_i idle
    have bound := follows.idle idle
    have none := committing_idle idle
    split at moved
    · cases moved
    · rename_i request requests queued
      cases moved
      refine quiet _ _ none (.of_serving positive ?_)
      cases request.op <;> exact bound
  · rename_i resultTx entry serving
    have bound : engine.cursor ≤ count + 1 := follows.serving _ _ serving
    have none := committing_serving serving
    split at moved
    · rename_i room
      split at moved
      · cases moved
        obtain ⟨inv', capacity', written⟩ :=
          call_grows inv capacity resultTx (.append entry) fun _ => room
        have more := written.map Prod.snd
        refine ⟨count, inv', capacity', written, applied.extend more, .of_serving positive bound,
          Nat.le_refl _, ?_⟩
        rw [none]
        exact (List.append_nil _).symm
      · cases moved
        exact quiet _ _ none (.of_idle positive bound)
    · cases moved
  · rename_i resultTx serving
    have bound : engine.cursor ≤ count + 1 := follows.serving _ _ serving
    cases moved
    exact quiet _ _ (committing_serving serving) (.of_serving positive bound)
  · rename_i resultTx handler serving
    have bound : engine.cursor ≤ count + 1 := follows.serving _ _ serving
    have none := committing_serving serving
    split at moved
    · split at moved
      · rename_i entry read
        cases moved
        refine quiet _ _ none (.of_serving positive ⟨bound, ?_⟩)
        have finished := TrackedLoglet.read_sound inv resultTx engine.cursor
        have value : (log.call resultTx (.read engine.cursor)).2 = .ok (.entry (some entry)) := by
          unfold TrackedLoglet.call MemoryLoglet.call
          dsimp only
          rw [read]
          rfl
        rw [value] at finished
        obtain ⟨found, same, placed⟩ := finished
        cases same
        obtain ⟨owner, -, held⟩ := placed entry rfl
        rw [List.getElem?_map, show engine.cursor - 1 = engine.cursor - logPosBegin from rfl, held]
        rfl
      · cases moved
        exact quiet _ _ none (.of_idle positive bound)
      · cases moved
        exact quiet _ _ none (.of_idle positive bound)
    · cases moved
      exact quiet _ _ none (.of_idle positive bound)
  · rename_i resultTx handler entry serving
    obtain ⟨bound, found⟩ := follows.serving _ _ serving
    have none := committing_serving serving
    split at moved
    · rename_i memory txn rv ran
      cases moved
      refine quiet _ _ none (.of_serving positive ⟨bound, fun here => ?_⟩)
      rw [here] at ran found ⊢
      exact applied.stage implements.carries found ran
    · cases moved
      exact quiet _ _ none (.of_idle positive bound)
  · rename_i resultTx handler txn rv serving
    obtain ⟨bound, staged⟩ := follows.serving _ _ serving
    have commits : engine.committing = some engine.cursor := committing_serving serving
    rw [commits] at inPlace
    have persisted := applied.persistedCursor (by rw [List.length_map]; exact capacity)
    have here : engine.cursor = count + 1 := Except.ok.inj (inPlace.symm.trans persisted)
    cases moved
    refine ⟨count + 1, inv, capacity, List.prefix_refl _, here ▸ staged here,
      .of_serving positive (Nat.le_of_eq here), Nat.le_succ count, ?_⟩
    rw [commits, here, List.range_succ, List.map_append]
    rfl
  · rename_i resultTx handler rv serving
    have bound : engine.cursor ≤ count := follows.serving _ _ serving
    cases moved
    exact quiet _ _ (committing_serving serving) (.of_serving (Nat.le_succ_of_le positive)
      (Nat.succ_le_succ bound))

/-! ### Runs whose commits are in place -/

theorem Inv.new (implements : applicator.Implements machine) :
    Inv machine (new Memory) 0 where
  log := .new True
  capacity := Nat.zero_le _
  applied := .new implements.carries
  loops _ impossible := by cases impossible
  commits := rfl

theorem Inv.persisted (inv : Inv machine process count) :
    persistedCursor process.store = .ok (count + 1) :=
  inv.applied.persistedCursor (by
    unfold entries
    rw [List.length_map]
    exact inv.capacity)

theorem Inv.exactlyOnce (inv : Inv machine process count) : process.ExactlyOnce machine where
  once := by
    rw [inv.commits]
    exact List.Nodup.map Nat.succ_injective List.nodup_range
  store := by
    refine ⟨count + 1, _, inv.persisted, rfl, ?_, inv.applied.holds⟩
    rw [List.length_take, Nat.add_sub_cancel]
    exact congrArg (· + 1) (Nat.min_eq_left inv.applied.inside)

theorem LoopFollows.enqueue (follows : LoopFollows machine entries count engine)
    (request : ApplyRequest) :
    LoopFollows machine entries count
      { engine with requests := engine.requests ++ [request] } :=
  ⟨follows.positive, follows.idle, follows.serving⟩

theorem Inv.setLoop (inv : Inv machine process count) {loop : Nat}
    (follows : LoopFollows machine process.entries count engine) :
    Inv machine { process with loops := process.loops.set loop engine } count :=
  { inv with loops := forall_mem_set inv.loops loop follows }

theorem Inv.open (inv : Inv machine process count) {memory : Memory}
    (opened : BaseEngine.new process.store memory = .ok engine) :
    Inv machine { process with
      loops := process.loops ++ [engine], engine := some process.loops.length } count := by
  refine { inv with loops := fun running member => ?_ }
  rcases List.mem_append.mp member with old | new
  · exact inv.loops running old
  · cases List.mem_singleton.mp new
    unfold BaseEngine.new at opened
    rw [inv.persisted] at opened
    cases opened
    exact .of_idle (Nat.succ_le_succ (Nat.zero_le _)) (Nat.le_refl _)

theorem Inv.call (inv : Inv machine process count) (index : Nat) (op : LogletOp)
    (room : op.IsAppend → process.log.loglet.entries.length < vecCapacity) :
    Inv machine { process with log := (process.log.call index op).1 } count := by
  obtain ⟨log, capacity, written⟩ := call_grows inv.log inv.capacity index op room
  have more := written.map Prod.snd
  exact ⟨log, capacity, inv.applied.extend more,
    fun engine member => (inv.loops engine member).later more (Nat.le_refl _), inv.commits⟩

theorem Inv.turn (implements : applicator.Implements machine) (inv : Inv machine process count)
    {loop : Nat} {choice : Choice} {turn : Turn Memory}
    (present : process.loops[loop]? = some engine)
    (inPlace : StandsAt process.store engine.committing)
    (moved : engine.turn applicator choice process.log process.store = some turn) :
    ∃ count', count ≤ count' ∧ Inv machine
      { log := turn.log
        store := turn.store
        loops := process.loops.set loop turn.engine
        engine := process.engine
        commits := process.commits ++ engine.committing.toList } count' := by
  obtain ⟨count', moves⟩ := turn_moves implements inv.log inv.capacity inv.applied
    (inv.loops engine (List.mem_of_getElem? present)) inPlace moved
  refine ⟨count', moves.advanced, moves.inv, moves.capacity, moves.applied,
    forall_mem_set (fun running member => ?_) loop moves.follows, ?_⟩
  · exact (inv.loops running member).later (moves.written.map Prod.snd) moves.advanced
  · dsimp only
    rw [inv.commits, moves.commits]

theorem Inv.step (implements : applicator.Implements machine) (inv : Inv machine process count)
    {event : ProcessEvent Memory Choice} (inPlace : process.InPlace event)
    (moved : process.step applicator event = some next) :
    ∃ count', count ≤ count' ∧ Inv machine next count' := by
  cases event with
  | request op resultTx =>
      obtain ⟨loop, -, moved⟩ := Option.bind_eq_some_iff.mp moved
      obtain ⟨engine, present, rfl⟩ := Option.map_eq_some_iff.mp moved
      have follows := inv.loops engine (List.mem_of_getElem? present)
      exact ⟨count, Nat.le_refl _, inv.setLoop (follows.enqueue _)⟩
  | drop =>
      obtain ⟨loop, -, rfl⟩ := Option.map_eq_some_iff.mp moved
      exact ⟨count, Nat.le_refl _, { inv with }⟩
  | new memory =>
      simp only [EngineProcess.step] at moved
      split at moved
      · cases moved
      · split at moved
        · rename_i opened
          cases moved
          exact ⟨count, Nat.le_refl _, inv.open opened⟩
        · cases moved
          exact ⟨count, Nat.le_refl _, inv⟩
  | turn loop choice =>
      obtain ⟨engine, present, moved⟩ := Option.bind_eq_some_iff.mp moved
      obtain ⟨turn, ran, rfl⟩ := Option.map_eq_some_iff.mp moved
      unfold InPlace at inPlace
      dsimp only at inPlace
      rw [present] at inPlace
      exact inv.turn implements present inPlace ran
  | call index op =>
      simp only [EngineProcess.step] at moved
      split at moved
      · split at moved
        · rename_i room
          cases moved
          exact ⟨count, Nat.le_refl _, inv.call index _ fun _ => room⟩
        · cases moved
      · cases moved
        exact ⟨count, Nat.le_refl _, inv.call index _ fun impossible => by cases impossible⟩
      · cases moved
        exact ⟨count, Nat.le_refl _, inv.call index _ fun impossible => by cases impossible⟩
      · cases moved
        exact ⟨count, Nat.le_refl _, inv.call index _ fun impossible => by cases impossible⟩
      · cases moved
        exact ⟨count, Nat.le_refl _, inv.call index _ fun impossible => by cases impossible⟩

theorem Inv.run (implements : applicator.Implements machine) (inv : Inv machine process count)
    (run : (EngineProcess.machine applicator).Run InPlace process next) :
    ∃ count', count ≤ count' ∧ Inv machine next count' := by
  refine run.invariant (fun later => ∃ count', count ≤ count' ∧ Inv machine later count')
    ⟨count, Nat.le_refl _, inv⟩ ?_
  intro middle event last kept inPlace moved
  obtain ⟨count', advanced, inv'⟩ := kept
  obtain ⟨count'', further, inv''⟩ := inv'.step implements inPlace moved
  exact ⟨count'', Nat.le_trans advanced further, inv''⟩

/-- The commits of a step are those of the turn it takes, if it takes one. -/
theorem step_commits {event : ProcessEvent Memory Choice}
    (moved : process.step applicator event = some next) :
    process.commits <+: next.commits := by
  cases event with
  | request op resultTx =>
      obtain ⟨loop, -, moved⟩ := Option.bind_eq_some_iff.mp moved
      obtain ⟨engine, present, rfl⟩ := Option.map_eq_some_iff.mp moved
      exact List.prefix_refl _
  | drop =>
      obtain ⟨loop, -, rfl⟩ := Option.map_eq_some_iff.mp moved
      exact List.prefix_refl _
  | new memory =>
      simp only [EngineProcess.step] at moved
      split at moved
      · cases moved
      · split at moved <;> cases moved <;> exact List.prefix_refl _
  | turn loop choice =>
      obtain ⟨engine, present, moved⟩ := Option.bind_eq_some_iff.mp moved
      obtain ⟨turn, ran, rfl⟩ := Option.map_eq_some_iff.mp moved
      exact List.prefix_append _ _
  | call index op =>
      simp only [EngineProcess.step] at moved
      split at moved
      · split at moved
        · cases moved
          exact List.prefix_refl _
        · cases moved
      all_goals
        cases moved
        exact List.prefix_refl _

/-- A commit out of place repeats an earlier one. -/
theorem Inv.inPlace_of_nodup (inv : Inv machine process count) {event : ProcessEvent Memory Choice}
    (moved : process.step applicator event = some next) (once : next.commits.Nodup) :
    process.InPlace event := by
  cases event with
  | request | drop | new | call => trivial
  | turn loop choice =>
      obtain ⟨engine, present, moved⟩ := Option.bind_eq_some_iff.mp moved
      obtain ⟨turn, ran, rfl⟩ := Option.map_eq_some_iff.mp moved
      have follows := inv.loops engine (List.mem_of_getElem? present)
      unfold InPlace
      dsimp only at once ⊢
      rw [present, Option.bind_some]
      cases committed : engine.committing with
      | none => trivial
      | some pos =>
          obtain ⟨⟨resultTx, phase⟩, serving, committing⟩ := Option.bind_eq_some_iff.mp committed
          cases phase with
          | append | checkTail | play | read | committed => cases committing
          | staged handler txn rv =>
              cases committing
              have bound : engine.cursor ≤ count + 1 := (follows.serving _ _ serving).1
              have positive := follows.positive
              have fresh : engine.cursor ∉ process.commits := by
                rw [committed] at once
                have apart := (List.nodup_append.mp once).2.2
                intro member
                exact apart _ member _ (List.mem_singleton_self _) rfl
              have beyond : ¬ engine.cursor ≤ count := by
                intro behind
                apply fresh
                rw [inv.commits, List.mem_map]
                exact ⟨engine.cursor - 1, List.mem_range.mpr (by omega), by omega⟩
              have here : engine.cursor = count + 1 := by omega
              unfold StandsAt
              dsimp only
              rw [inv.persisted, here]

/-- Exactly the runs that commit in place commit nothing twice. -/
theorem Inv.inPlace_run (implements : applicator.Implements machine)
    (inv : Inv machine process count)
    (run : (EngineProcess.machine applicator).Run (fun _ _ => True) process next)
    (once : next.commits.Nodup) : (EngineProcess.machine applicator).Run InPlace process next := by
  induction run with
  | refl => exact .refl process
  | tail before permitted moved ih =>
      have before' := ih (once.sublist (step_commits moved).sublist)
      obtain ⟨count', -, inv'⟩ := inv.run implements before'
      exact .tail before' (inv'.inPlace_of_nodup moved once) moved

theorem run_commits
    (run : (EngineProcess.machine applicator).Run (fun _ _ => True) process next) :
    process.commits <+: next.commits := by
  induction run with
  | refl => exact List.prefix_refl _
  | tail before permitted moved ih => exact ih.trans (step_commits moved)

/-- Over any interleaving of the loops of an engine and of those dropped before it,
commits in place are what keeps every position committed once, the persisted cursor
from going back, and the store the replay of the log. -/
theorem exactlyOnce_iff (implements : applicator.Implements machine)
    {earlier later : EngineProcess Memory}
    (before : (EngineProcess.machine applicator).Run (fun _ _ => True) (new Memory) earlier)
    (after : (EngineProcess.machine applicator).Run (fun _ _ => True) earlier later) :
    ((EngineProcess.machine applicator).Run InPlace (new Memory) earlier ∧
      (EngineProcess.machine applicator).Run InPlace earlier later) ↔
    (later.ExactlyOnce machine ∧ ∃ cursor cursor', persistedCursor earlier.store = .ok cursor ∧
      persistedCursor later.store = .ok cursor' ∧ cursor ≤ cursor') := by
  constructor
  · rintro ⟨before', after'⟩
    obtain ⟨count, -, inv⟩ := (Inv.new implements).run implements before'
    obtain ⟨count', advanced, inv'⟩ := inv.run implements after'
    exact ⟨inv'.exactlyOnce, _, _, inv.persisted, inv'.persisted, Nat.succ_le_succ advanced⟩
  · rintro ⟨exactly, -⟩
    have once := exactly.once
    have before' := (Inv.new implements).inPlace_run implements before
      (once.sublist (run_commits after).sublist)
    obtain ⟨count, -, inv⟩ := (Inv.new implements).run implements before'
    exact ⟨before', inv.inPlace_run implements after once⟩

abbrev PayloadEvent := ProcessEvent Unit (Option RelosError)

def loopTurns (loop count : Nat) : List PayloadEvent := List.replicate count (.turn loop none)

/-- The engine is dropped with a propose staged. The new one commits that position
and the next. -/
def replacedEarly : List PayloadEvent :=
  ([.new (), .request (.propose (.new [1])) 0] : List PayloadEvent) ++ loopTurns 0 4 ++
    ([.drop, .new (), .request (.propose (.new [2])) 1] : List PayloadEvent) ++ loopTurns 1 10

/-- The detached loop commits the first position again, over the second. -/
theorem committed_twice : ∃ earlier later : EngineProcess Unit,
    (EngineProcess.machine payloads).Run (fun _ _ => True) (new Unit) earlier ∧
      (EngineProcess.machine payloads).Run (fun _ _ => True) earlier later ∧
      (earlier.commits = [1, 2] ∧ persistedCursor earlier.store = .ok 3) ∧
      (later.commits = [1, 2, 1] ∧ persistedCursor later.store = .ok 2) ∧
      ¬ later.ExactlyOnce payloadMachine := by
  obtain ⟨earlier, later, before, after, seen, seen'⟩ := Machine.exists_runs_of_execute
    (EngineProcess.machine payloads) (fun _ _ => True) (new Unit) replacedEarly (loopTurns 0 1)
    (fun process => (process.commits, persistedCursor process.store)) ([1, 2], .ok 3)
    ([1, 2, 1], .ok 2) (by decide +kernel)
  obtain ⟨commits, cursor⟩ := Prod.mk.inj seen
  obtain ⟨commits', cursor'⟩ := Prod.mk.inj seen'
  refine ⟨earlier, later, before, after, ⟨commits, cursor⟩, ⟨commits', cursor'⟩, ?_⟩
  intro exactly
  have once := exactly.once
  rw [commits'] at once
  revert once
  decide

/-- The dropped engine's loop finishes its propose before the new engine is created. -/
def replacedLate : List PayloadEvent :=
  [.new (), .request (.propose (.new [1])) 0] ++ loopTurns 0 4 ++ [.drop] ++ loopTurns 0 3

theorem exactlyOnce_replacedLate : ∃ earlier later : EngineProcess Unit,
    earlier.commits = [1] ∧ later.commits = [1, 2] ∧
      (later.ExactlyOnce payloadMachine ∧ ∃ cursor cursor',
        persistedCursor earlier.store = .ok cursor ∧
        persistedCursor later.store = .ok cursor' ∧ cursor ≤ cursor') := by
  obtain ⟨earlier, later, before, after, commits, commits'⟩ := Machine.exists_runs_of_execute
    (EngineProcess.machine payloads) InPlace (new Unit) replacedLate
    ([.new (), .request (.propose (.new [2])) 1] ++ loopTurns 1 7) EngineProcess.commits [1] [1, 2]
    (by decide +kernel)
  have free : ∀ {first last : EngineProcess Unit},
      (EngineProcess.machine payloads).Run InPlace first last →
        (EngineProcess.machine payloads).Run (fun _ _ => True) first last :=
    fun run => run.mono fun _ _ _ => trivial
  exact ⟨earlier, later, commits, commits', (exactlyOnce_iff payloads_implements (free before)
    (free after)).mp ⟨before, after⟩⟩

end EngineProcess

end Relos
