import Relos.Log.InterruptedReconfiguration

set_option autoImplicit false

/-! The polls of one call while the factory may fail: each advances the call, answers it, or
ends an append that is to be made again. -/

namespace Relos

open Async Epochs

namespace SoloLog

variable {initial : String} {cluster next first : SoloLog} {ends : List Nat} {log : FlatLog}
  {loglet : LogletRef} {index : Nat} {op : LogletOp}

/-! ### Where a call stands -/

/-- Only an append that found its loglet sealed reconfigures, and nothing has changed until
its new loglet is there. -/
def Turn (initial : String) (first cluster : SoloLog) (ends : List Nat) : VirtualLog.Caller → Prop
  | .append => Unchanged first cluster ∨ LastSealed initial cluster ends false
  | .reconfigure => Unchanged first cluster ∧ LastSealed initial cluster ends true
  | .checkTail | .seal => True

structure Asking (initial : String) (log : FlatLog) (first : SoloLog) (op : LogletOp)
    (cluster : SoloLog) (ends : List Nat) (caller : VirtualLog.Caller) : Prop where
  asks : Asks op caller
  between : Between initial cluster ends log
  turn : Turn initial first cluster ends caller

/-- The MetaStore holds the chain with one more epoch. -/
structure Written (initial : String) (log : FlatLog) (first : SoloLog) (op : LogletOp)
    (cluster : SoloLog) (ends : List Nat) : Prop
    extends Asking initial log first op cluster ends .reconfigure where
  stored : Stored initial cluster (ends ++ [log.tail])

/-- A read of a position of this epoch. -/
structure Seeking (initial : String) (log : FlatLog) (op : LogletOp) (cluster : SoloLog)
    (ends : List Nat) (epoch localPos : Nat) : Prop where
  between : Between initial cluster ends log
  inside : epoch ≤ ends.length
  place : ∃ pos, op = .read pos ∧ startAt ends epoch ≤ pos ∧
    (∀ endPos, ends[epoch]? = some endPos → pos < endPos) ∧
    localPos = globalToLocal (startAt ends epoch) pos

def Resuming (initial : String) (log : FlatLog) (first : SoloLog) (op : LogletOp)
    (cluster : SoloLog) : VirtualLog.Future Unit → Prop
  | .activeChain caller => ∃ ends, Asking initial log first op cluster ends caller
  | .activeLoglet caller startPos logletId => ∃ ends,
      Asking initial log first op cluster ends caller ∧
      startPos = activeStart ends ∧ logletId = idAt initial ends.length
  | .append loglet startPos _ => ∃ ends, Asking initial log first op cluster ends .append ∧
      startPos = activeStart ends ∧ Backing initial cluster ends.length loglet
  | .checkTail loglet startPos _ => ∃ ends, Asking initial log first op cluster ends .checkTail ∧
      startPos = activeStart ends ∧ Backing initial cluster ends.length loglet
  | .seal loglet startPos _ => ∃ ends, Asking initial log first op cluster ends .seal ∧
      startPos = activeStart ends ∧ Backing initial cluster ends.length loglet
  | .reconfigureSeal loglet startPos _ => ∃ ends,
      Asking initial log first op cluster ends .reconfigure ∧
      startPos = activeStart ends ∧ Backing initial cluster ends.length loglet
  | .reconfigureVersion _ _ globalSealPos => ∃ ends,
      Asking initial log first op cluster ends .reconfigure ∧ globalSealPos = log.tail
  | .reconfigureChain _ _ globalSealPos version => ∃ ends,
      Asking initial log first op cluster ends .reconfigure ∧ globalSealPos = log.tail ∧
      version = ends.length
  | .reconfigureWrite _ _ version newChain newLogletId => ∃ ends,
      Asking initial log first op cluster ends .reconfigure ∧ version = ends.length ∧
      newChain = chainOf initial (ends ++ [log.tail]) ∧ newLogletId = idAt initial (ends.length + 1)
  | .reconfigureCreate version newChain newLogletId => ∃ ends,
      Written initial log first op cluster ends ∧ version = ends.length ∧
      newChain = chainOf initial (ends ++ [log.tail]) ∧ newLogletId = idAt initial (ends.length + 1)
  | .reconfigureInsert version newChain newLogletId newLoglet => ∃ ends,
      Written initial log first op cluster ends ∧ version = ends.length ∧
      newChain = chainOf initial (ends ++ [log.tail]) ∧
      newLogletId = idAt initial (ends.length + 1) ∧ newLoglet.logletId = newLogletId
  | .syncRead => ∃ ends, Written initial log first op cluster ends
  | .syncLoglets todo newChain newVersion =>
      (∃ ends count, Written initial log first op cluster ends ∧ count ≤ ends.length + 1 ∧
        newChain = chainOf initial (ends ++ [log.tail]) ∧ newVersion = ends.length + 1 ∧
        todo = newChain.segments.drop count) ∨
      (op.IsAppend ∧ ∃ ends, Opened initial cluster ends log ∧ newChain = chainOf initial ends ∧
        newVersion = ends.length ∧ todo = [])
  | .installChain newChain newVersion => op.IsAppend ∧ ∃ ends, Opened initial cluster ends log ∧
      newChain = chainOf initial ends ∧ newVersion = ends.length
  | .installVersion newVersion => op.IsAppend ∧ ∃ ends, Opened initial cluster ends log ∧
      (cluster.logs ()).chain = chainOf initial ends ∧ newVersion = ends.length
  | .readChain pos => op = .read pos ∧ ∃ ends, Between initial cluster ends log
  | .readLoglets localPos logletId => ∃ ends epoch,
      Seeking initial log op cluster ends epoch localPos ∧ logletId = idAt initial epoch
  | .read loglet localPos _ => ∃ ends epoch,
      Seeking initial log op cluster ends epoch localPos ∧ Backing initial cluster epoch loglet
  | .trimChain _ | .trimSegments _ _ | .trim _ _ _ _ _ => False

/-- The poll calls the factory. -/
def Creating (cluster : SoloLog) : VirtualLog.Future Unit → Prop
  | .reconfigureCreate _ _ _ => True
  | .syncLoglets (segment :: _) _ _ =>
      ¬ (cluster.logs ()).loglets.contains segment.logletId = true
  | _ => False

/-- The factory works when it is called. -/
def CreateWorks (cluster : SoloLog) (future : VirtualLog.Future Unit) : Prop :=
  Creating cluster future → cluster.factoryError = none

/-- Whether the active loglet is sealed, as far as the instance knows it. -/
def lastSealed (cluster : SoloLog) : Bool :=
  (((cluster.logs ()).chain.activeSegment.bind fun segment =>
    (cluster.logs ()).loglets[segment.logletId]?).map fun loglet =>
      (cluster.heap loglet).loglet.sealed).getD false

/-- A bound on the polls that a call still needs from its question to the active loglet on. -/
def asksFor (cluster : SoloLog) : VirtualLog.Caller → Nat
  | .append => if lastSealed cluster then 14 + cluster.metaStore.chain.segments.length else 1
  | .reconfigure => 11 + cluster.metaStore.chain.segments.length
  | .checkTail | .seal => 1

def remaining (cluster : SoloLog) : VirtualLog.Future Unit → Nat
  | .activeChain caller => asksFor cluster caller + 2
  | .activeLoglet caller _ _ => asksFor cluster caller + 1
  | .append _ _ _ => asksFor cluster .append
  | .checkTail _ _ _ => asksFor cluster .checkTail
  | .seal _ _ _ => asksFor cluster .seal
  | .reconfigureSeal _ _ _ => asksFor cluster .reconfigure
  | .reconfigureVersion _ _ _ => 10 + cluster.metaStore.chain.segments.length
  | .reconfigureChain _ _ _ _ => 9 + cluster.metaStore.chain.segments.length
  | .reconfigureWrite _ _ _ _ _ => 8 + cluster.metaStore.chain.segments.length
  | .syncRead => 7 + cluster.metaStore.chain.segments.length
  | .reconfigureCreate _ _ _ => 7
  | .reconfigureInsert _ _ _ _ => 6
  | .syncLoglets todo _ _ => 6 + todo.length
  | .installChain _ _ => 5
  | .installVersion _ => 4
  | .readChain _ => 3
  | .readLoglets _ _ => 2
  | .read _ _ _ => 1
  | .trimChain _ | .trimSegments _ _ | .trim _ _ _ _ _ => 0

/-- What a call that is answered leaves. -/
structure Given (initial : String) (log : FlatLog) (op : LogletOp) (next : SoloLog)
    (result : LogletResult) : Prop where
  answers : log.Allowed op → log.Answers op result
  between : ∃ ends, Between initial next ends (log.next op)

/-- What an append leaves whose reconfiguration failed. -/
structure GivenUp (initial : String) (log : FlatLog) (first : SoloLog) (op : LogletOp)
    (next : SoloLog) (result : LogletResult) : Prop where
  appends : op.IsAppend
  failed : ∃ error, result = .error error
  unchanged : Unchanged first next
  between : ∃ ends, Between initial next ends log

/-- The call can be polled, and is then answered, given up or closer to its end. -/
def Moves (initial : String) (log : FlatLog) (first : SoloLog) (op : LogletOp) (index : Nat)
    (cluster : SoloLog) (future : VirtualLog.Future Unit) : Prop :=
  ∃ next progress,
    VirtualLog.poll .fresh memoryComponent cluster index ((), op) future = some (next, progress) ∧
    next.factoryError = cluster.factoryError ∧
    progress.Holds
      (fun later => Resuming initial log first op next later ∧
        remaining next later < remaining cluster future)
      fun result => Given initial log op next result ∨
        (¬ CreateWorks cluster future ∧ GivenUp initial log first op next result)

/-! ### One poll -/

variable {future : VirtualLog.Future Unit} {caller : VirtualLog.Caller}

theorem Moves.on (next : SoloLog) (later : VirtualLog.Future Unit)
    (polled : VirtualLog.poll .fresh memoryComponent cluster index ((), op) future =
      some (next, .running later)) (factory : next.factoryError = cluster.factoryError)
    (resuming : Resuming initial log first op next later)
    (less : remaining next later < remaining cluster future) :
    Moves initial log first op index cluster future :=
  ⟨next, _, polled, factory, resuming, less⟩

theorem Moves.given (next : SoloLog) (result : LogletResult)
    (polled : VirtualLog.poll .fresh memoryComponent cluster index ((), op) future =
      some (next, .finished result)) (factory : next.factoryError = cluster.factoryError)
    (given : Given initial log op next result) : Moves initial log first op index cluster future :=
  ⟨next, _, polled, factory, Or.inl given⟩

theorem lastSealed_eq (chain : (cluster.logs ()).chain = chainOf initial ends)
    (backing : Backing initial cluster ends.length loglet) :
    lastSealed cluster = (cluster.heap loglet).loglet.sealed := by
  unfold lastSealed
  rw [chain, activeSegment_chainOf, Option.bind_some, backing.held]
  rfl

theorem moves_activeChain (asking : Asking initial log first op cluster ends caller) :
    Moves initial log first op index cluster (.activeChain caller) := by
  refine .on cluster (.activeLoglet caller (activeStart ends) (idAt initial ends.length)) ?_ rfl
    ⟨ends, asking, rfl, rfl⟩ (Nat.lt_succ_self _)
  dsimp only [VirtualLog.poll]
  rw [asking.between.chain, activeSegment_chainOf]
  rfl

theorem moves_activeLoglet (asking : Asking initial log first op cluster ends caller) :
    Moves initial log first op index cluster
      (.activeLoglet caller (activeStart ends) (idAt initial ends.length)) := by
  obtain ⟨loglet, backing⟩ := asking.between.laid.backed (Nat.le_refl _)
  refine .on cluster (caller.proceed memoryComponent op loglet (activeStart ends)) ?_ rfl ?_ ?_
  · dsimp only [VirtualLog.poll]
    rw [backing.held]
    rfl
  · cases caller with
    | append | checkTail | «seal» | reconfigure => exact ⟨ends, asking, rfl, backing⟩
  · cases caller with
    | append | checkTail | «seal» | reconfigure => exact Nat.lt_succ_self _

/-- An append to an open loglet is answered. -/
theorem moves_append_open (foreign : ∀ index, initial ≠ generatedId (index + 1)) {entry : Entry}
    (asking : Asking initial log first (.append entry) cluster ends .append)
    (backing : Backing initial cluster ends.length loglet)
    (isOpen : (cluster.heap loglet).loglet.sealed = false) (inner : Unit) :
    Moves initial log first (.append entry) index cluster
      (.append loglet (activeStart ends) inner) := by
  have part := asking.between.laid.last backing
  refine .given (cluster.setHeap loglet ((cluster.heap loglet).call index (.append entry)).1)
    (.ok (.pos log.tail)) ?_ rfl ⟨fun _ => rfl, ends,
      asking.between.append foreign backing isOpen index entry⟩
  dsimp only [VirtualLog.poll]
  rw [await_memory, TrackedLoglet.append_open isOpen]
  dsimp only [VirtualLog.resumeAppend, Option.map_some]
  rw [part.globalTail]

/-- An append to a sealed loglet reconfigures. -/
theorem moves_append_sealed {entry : Entry}
    (asking : Asking initial log first (.append entry) cluster ends .append)
    (backing : Backing initial cluster ends.length loglet)
    (isSealed : (cluster.heap loglet).loglet.sealed = true) (inner : Unit) :
    Moves initial log first (.append entry) index cluster
      (.append loglet (activeStart ends) inner) := by
  have closed : LastSealed initial cluster ends true := by
    intro other backing'
    rw [← backing.unique backing']
    exact isSealed
  have unchanged : Unchanged first cluster := by
    rcases asking.turn with unchanged | isOpen
    · exact unchanged
    · have impossible := isOpen loglet backing
      rw [isSealed] at impossible
      cases impossible
  refine .on cluster (.activeChain .reconfigure) ?_ rfl
    ⟨ends, trivial, asking.between, unchanged, closed⟩ ?_
  · dsimp only [VirtualLog.poll]
    rw [await_memory, TrackedLoglet.append_sealed isSealed]
    dsimp only [VirtualLog.resumeAppend, Option.map_some]
    rw [setHeap_same]
  · simp only [remaining, asksFor, lastSealed_eq asking.between.chain backing, isSealed, if_pos]
    omega

theorem moves_append (foreign : ∀ index, initial ≠ generatedId (index + 1))
    (asking : Asking initial log first op cluster ends .append)
    (backing : Backing initial cluster ends.length loglet) (inner : Unit) :
    Moves initial log first op index cluster (.append loglet (activeStart ends) inner) := by
  cases op with
  | append entry =>
      cases isSealed : (cluster.heap loglet).loglet.sealed with
      | false => exact moves_append_open foreign asking backing isSealed inner
      | true => exact moves_append_sealed asking backing isSealed inner
  | checkTail | read | trim | «seal» => exact asking.asks.elim

theorem moves_checkTail (asking : Asking initial log first op cluster ends .checkTail)
    (backing : Backing initial cluster ends.length loglet) (inner : Unit) :
    Moves initial log first op index cluster (.checkTail loglet (activeStart ends) inner) := by
  have same : op = .checkTail := asking.asks
  subst same
  have part := asking.between.laid.last backing
  have kept : ((cluster.heap loglet).call index .checkTail).1 = cluster.heap loglet := rfl
  refine .given cluster (.ok (.pos log.tail)) ?_ rfl ⟨fun _ => rfl, ends, asking.between⟩
  dsimp only [VirtualLog.poll]
  rw [await_memory, kept, setHeap_same]
  dsimp only [TrackedLoglet.call, MemoryLoglet.call, MemoryLoglet.checkTail, Except.map,
    VirtualLog.resumeGlobal, Option.map_some]
  rw [part.globalTail]

theorem moves_seal (foreign : ∀ index, initial ≠ generatedId (index + 1))
    (asking : Asking initial log first op cluster ends .seal)
    (backing : Backing initial cluster ends.length loglet) (inner : Unit) :
    Moves initial log first op index cluster (.seal loglet (activeStart ends) inner) := by
  have same : op = .seal := asking.asks
  subst same
  have part := asking.between.laid.last backing
  refine .given (cluster.setHeap loglet ((cluster.heap loglet).call index .seal).1)
    (.ok (.pos log.tail)) ?_ rfl ⟨fun _ => rfl, ends, asking.between.seal foreign backing index⟩
  dsimp only [VirtualLog.poll]
  rw [await_memory]
  dsimp only [TrackedLoglet.call, MemoryLoglet.call, MemoryLoglet.seal, Except.map,
    VirtualLog.resumeGlobal, Option.map_some]
  rw [part.globalTail]

/-- The loglet that a reconfiguration seals has been sealed before. -/
theorem moves_reconfigureSeal (asking : Asking initial log first op cluster ends .reconfigure)
    (backing : Backing initial cluster ends.length loglet) (inner : Unit) :
    Moves initial log first op index cluster
      (.reconfigureSeal loglet (activeStart ends) inner) := by
  have part := asking.between.laid.last backing
  refine .on cluster (.reconfigureVersion loglet (activeStart ends) log.tail) ?_ rfl
    ⟨ends, asking, rfl⟩ ?_
  · dsimp only [VirtualLog.poll]
    rw [await_memory, seal_again index (asking.turn.2 loglet backing)]
    dsimp only [TrackedLoglet.call, MemoryLoglet.call, MemoryLoglet.seal, Except.map,
      VirtualLog.resumeReconfigure, Option.map_some]
    rw [part.globalTail]
  · simp only [remaining, asksFor]
    omega

theorem moves_reconfigureVersion (asking : Asking initial log first op cluster ends .reconfigure)
    (startPos : Nat) :
    Moves initial log first op index cluster (.reconfigureVersion loglet startPos log.tail) := by
  refine .on cluster _ rfl rfl ⟨ends, asking, rfl, asking.between.version⟩ ?_
  simp only [remaining]
  omega

theorem moves_reconfigureChain (asking : Asking initial log first op cluster ends .reconfigure)
    (startPos : Nat) :
    Moves initial log first op index cluster
      (.reconfigureChain loglet startPos log.tail ends.length) := by
  refine .on cluster _ rfl rfl ⟨ends, asking, rfl, ?_, ?_⟩ ?_
  · rw [asking.between.chain, generateLogletId_chainOf, chainOf_extend]
  · rw [asking.between.chain, generateLogletId_chainOf]
  · simp only [remaining]
    omega

/-- A write of the chain that succeeded. -/
def rewritten (cluster : SoloLog) (newChain : LogChain) : SoloLog :=
  { cluster with
    metaStore := { chain := newChain, version := cluster.metaStore.version + 1 }
    installed := cluster.installed ++ [newChain] }

theorem Asking.written (asking : Asking initial log first op cluster ends .reconfigure)
    (stored : Stored initial cluster ends) : Written initial log first op
      (rewritten cluster (chainOf initial (ends ++ [log.tail]))) ends := by
  obtain ⟨unchanged, closed⟩ := asking.turn
  have later : LastSealed initial (rewritten cluster (chainOf initial (ends ++ [log.tail]))) ends
      true := closed.of_same rfl rfl
  have ahead : Stored initial (rewritten cluster (chainOf initial (ends ++ [log.tail])))
      (ends ++ [log.tail]) := by
    unfold Stored rewritten
    rw [stored, List.length_append]
    rfl
  exact
    { asks := asking.asks
      between := ⟨asking.between.laid.of_same rfl rfl, asking.between.chain, asking.between.version,
        Or.inr ⟨ahead, later⟩⟩
      turn := ⟨⟨unchanged.logs, unchanged.heap⟩, later⟩
      stored := ahead }

/-- The write succeeds, or the chain was written by an append that failed. -/
theorem moves_reconfigureWrite (asking : Asking initial log first op cluster ends .reconfigure)
    (startPos : Nat) :
    Moves initial log first op index cluster (.reconfigureWrite loglet startPos ends.length
      (chainOf initial (ends ++ [log.tail])) (idAt initial (ends.length + 1))) := by
  rcases asking.between.stored with stored | behind
  · have current : ¬ cluster.metaStore.version ≠ ends.length := by
      rw [stored]
      exact not_not_intro rfl
    refine .on (rewritten cluster (chainOf initial (ends ++ [log.tail]))) (.reconfigureCreate
      ends.length (chainOf initial (ends ++ [log.tail])) (idAt initial (ends.length + 1))) ?_ rfl
      ⟨ends, asking.written stored, rfl, rfl, rfl⟩ ?_
    · simp only [VirtualLog.poll, MemoryMetaStore.write, if_neg current]
      rfl
    · simp only [remaining]
      omega
  · have late : cluster.metaStore.version ≠ ends.length := by
      rw [behind.stored, List.length_append]
      exact Nat.succ_ne_self _
    refine .on cluster .syncRead ?_ rfl ⟨ends, asking, behind.stored⟩ ?_
    · simp only [VirtualLog.poll, MemoryMetaStore.write, if_pos late]
      rfl
    · simp only [remaining]
      omega

/-- A failed creation ends the append. -/
theorem Written.fails (written : Written initial log first op cluster ends) {error : RelosError}
    (failing : cluster.factoryError = some error) (creating : Creating cluster future)
    (polled : VirtualLog.poll .fresh memoryComponent cluster index ((), op) future =
      some (cluster, .finished (.error error))) :
    Moves initial log first op index cluster future := by
  refine ⟨cluster, _, polled, rfl, Or.inr ⟨fun works => ?_, written.asks, ⟨error, rfl⟩,
    written.turn.1, ends, written.between⟩⟩
  rw [works creating] at failing
  cases failing

/-- The new loglet is inserted. -/
theorem Written.opens (foreign : ∀ index, initial ≠ generatedId (index + 1))
    (written : Written initial log first op cluster ends) (serial nextSerial : Nat) :
    Opened initial ({ cluster with nextSerial := nextSerial }.insertLoglet ()
      (idAt initial (ends.length + 1)) ⟨idAt initial (ends.length + 1), serial⟩)
        (ends ++ [log.tail]) log := by
  have laid : Laid initial { cluster with nextSerial := nextSerial } ends log :=
    written.between.laid.of_same rfl rfl
  obtain ⟨opened, isOpen⟩ := laid.opens foreign serial
  exact ⟨opened, written.stored, isOpen⟩

theorem Written.alike (written : Written initial log first op cluster ends)
    (alike : Alike cluster next) : Written initial log first op next ends where
  asks := written.asks
  between := written.between.alike alike
  turn := ⟨written.turn.1.alike alike, written.turn.2.of_same alike.loglets alike.heap⟩
  stored := written.stored.alike alike

theorem moves_reconfigureCreate (written : Written initial log first op cluster ends) :
    Moves initial log first op index cluster (.reconfigureCreate ends.length
      (chainOf initial (ends ++ [log.tail])) (idAt initial (ends.length + 1))) := by
  cases failing : cluster.factoryError with
  | some error =>
      refine written.fails failing trivial ?_
      simp only [VirtualLog.poll, create_fails failing]
      rfl
  | none =>
      refine .on { cluster with nextSerial := cluster.nextSerial + 1 } (.reconfigureInsert ends.length
        (chainOf initial (ends ++ [log.tail])) (idAt initial (ends.length + 1))
        ⟨idAt initial (ends.length + 1), cluster.nextSerial⟩) ?_ rfl
        ⟨ends, written.alike ⟨rfl, rfl, rfl⟩, rfl, rfl, rfl, rfl⟩ (Nat.lt_succ_self _)
      simp only [VirtualLog.poll, create_fresh failing]
      rfl

theorem moves_reconfigureInsert (foreign : ∀ index, initial ≠ generatedId (index + 1))
    (written : Written initial log first op cluster ends)
    (named : loglet.logletId = idAt initial (ends.length + 1)) :
    Moves initial log first op index cluster (.reconfigureInsert ends.length
      (chainOf initial (ends ++ [log.tail])) (idAt initial (ends.length + 1)) loglet) := by
  have length : (ends ++ [log.tail]).length = ends.length + 1 := List.length_append
  have opened := written.opens foreign loglet.serial cluster.nextSerial
  rw [← named] at opened
  refine .on (cluster.insertLoglet () (idAt initial (ends.length + 1)) loglet) (.installChain
    (chainOf initial (ends ++ [log.tail])) (ends.length + 1)) rfl rfl
    ⟨written.asks, ends ++ [log.tail], ?_, rfl, length.symm⟩ (Nat.lt_succ_self _)
  rw [← named]
  exact opened

theorem moves_syncRead (written : Written initial log first op cluster ends) :
    Moves initial log first op index cluster .syncRead := by
  have length : (ends ++ [log.tail]).length = ends.length + 1 := List.length_append
  refine .on cluster _ rfl rfl (Or.inl ⟨ends, 0, written, Nat.zero_le _, ?_, ?_, ?_⟩) ?_
  · rw [written.stored]
  · rw [written.stored, length]
  · rw [List.drop_zero]
  · simp only [remaining]
    omega

/-- A loglet that the instance holds is not created again. -/
theorem moves_syncHeld (written : Written initial log first op cluster ends) {count : Nat}
    (known : count ≤ ends.length) :
    Moves initial log first op index cluster
      (.syncLoglets ((chainOf initial (ends ++ [log.tail])).segments.drop count)
        (chainOf initial (ends ++ [log.tail])) (ends.length + 1)) := by
  have length : (ends ++ [log.tail]).length = ends.length + 1 := List.length_append
  have held : (cluster.logs ()).loglets.contains
      (segmentAt initial (ends ++ [log.tail]) count).logletId = true :=
    written.between.holds.mpr known
  rw [chainOf_drop (by omega)]
  refine .on cluster (.syncLoglets ((chainOf initial (ends ++ [log.tail])).segments.drop (count + 1))
    (chainOf initial (ends ++ [log.tail])) (ends.length + 1)) ?_ rfl
    (Or.inl ⟨ends, count + 1, written, by omega, rfl, rfl, rfl⟩) (Nat.lt_succ_self _)
  dsimp only [VirtualLog.poll]
  rw [if_pos held]
  rfl

/-- The loglet of the epoch that the instance is behind is the only one it creates. -/
theorem moves_syncMissing (foreign : ∀ index, initial ≠ generatedId (index + 1))
    (written : Written initial log first op cluster ends) :
    Moves initial log first op index cluster
      (.syncLoglets ((chainOf initial (ends ++ [log.tail])).segments.drop (ends.length + 1))
        (chainOf initial (ends ++ [log.tail])) (ends.length + 1)) := by
  have length : (ends ++ [log.tail]).length = ends.length + 1 := List.length_append
  have absent : ¬ (cluster.logs ()).loglets.contains
      (segmentAt initial (ends ++ [log.tail]) (ends.length + 1)).logletId = true := by
    intro held
    have known : ends.length + 1 ≤ ends.length := written.between.holds.mp held
    exact absurd known (Nat.not_succ_le_self _)
  have empty : (chainOf initial (ends ++ [log.tail])).segments.drop (ends.length + 1 + 1) = [] := by
    apply List.drop_of_length_le
    apply Nat.le_of_eq
    rw [chainOf_length, length]
  rw [chainOf_drop (Nat.le_of_eq length.symm), empty]
  cases failing : cluster.factoryError with
  | some error =>
      refine written.fails failing absent ?_
      simp only [VirtualLog.poll, if_neg absent, create_fails failing]
      rfl
  | none =>
      refine .on ({ cluster with nextSerial := cluster.nextSerial + 1 }.insertLoglet ()
        (idAt initial (ends.length + 1)) ⟨idAt initial (ends.length + 1), cluster.nextSerial⟩)
        (.syncLoglets [] (chainOf initial (ends ++ [log.tail])) (ends.length + 1)) ?_ rfl
        (Or.inr ⟨written.asks, ends ++ [log.tail], written.opens foreign _ _, rfl, length.symm, rfl⟩)
        (Nat.lt_succ_self _)
      simp only [VirtualLog.poll, if_neg absent, create_fresh failing]
      rfl

theorem moves_installChain (appends : op.IsAppend) (opened : Opened initial cluster ends log) :
    Moves initial log first op index cluster
      (.installChain (chainOf initial ends) ends.length) := by
  refine .on (cluster.setChain () (chainOf initial ends)) (.installVersion ends.length) rfl rfl
    ⟨appends, ends, opened.setLog rfl, ?_, rfl⟩ (Nat.lt_succ_self _)
  unfold Cluster.setChain
  rw [setLog_logs]

/-- The append is tried again, on the loglet that was opened. -/
theorem moves_installVersion (appends : op.IsAppend) (opened : Opened initial cluster ends log)
    (chain : (cluster.logs ()).chain = chainOf initial ends) :
    Moves initial log first op index cluster (.installVersion ends.length) := by
  have later : Opened initial (cluster.setVersion () ends.length) ends log := opened.setLog rfl
  have cached : ((cluster.setVersion () ends.length).logs ()).chain = chainOf initial ends := by
    unfold Cluster.setVersion
    rw [setLog_logs]
    exact chain
  have version : ((cluster.setVersion () ends.length).logs ()).chainVersion = ends.length := by
    unfold Cluster.setVersion
    rw [setLog_logs]
  obtain ⟨loglet, backing⟩ := later.laid.backed (Nat.le_refl _)
  have isOpen : lastSealed (cluster.setVersion () ends.length) = false :=
    (lastSealed_eq cached backing).trans (later.isOpen loglet backing)
  refine .on (cluster.setVersion () ends.length) (.activeChain .append) rfl rfl
    ⟨ends, appends, ⟨later.laid, cached, version, Or.inl later.stored⟩, Or.inr later.isOpen⟩ ?_
  dsimp only [remaining, asksFor]
  rw [isOpen]
  exact Nat.lt_succ_self _

/-! ### Reads -/

theorem moves_readChain {pos : Nat} (between : Between initial cluster ends log) :
    Moves initial log first (.read pos) index cluster (.readChain pos) := by
  cases found : (chainOf initial ends).findSegment pos with
  | none =>
      refine .given cluster (.error (.internal s!"no segment found for position {pos}")) ?_ rfl
        ⟨fun allowed => ?_, ends, between⟩
      · dsimp only [VirtualLog.poll]
        rw [between.chain, found]
        rfl
      · obtain ⟨epoch, inside, after, before⟩ := exists_epoch ends allowed
        rw [findSegment_chainOf between.laid.lays.ordered inside after before] at found
        cases found
  | some segment =>
      obtain ⟨epoch, inside, rfl, after, before⟩ := findSegment_some found
      refine .on cluster (.readLoglets (globalToLocal (startAt ends epoch) pos) (idAt initial epoch))
        ?_ rfl ⟨ends, epoch, ⟨between, inside, pos, rfl, after, before, rfl⟩, rfl⟩
        (Nat.lt_succ_self _)
      dsimp only [VirtualLog.poll]
      rw [between.chain, found]
      rfl

theorem moves_readLoglets {epoch localPos : Nat}
    (seeking : Seeking initial log op cluster ends epoch localPos) :
    Moves initial log first op index cluster (.readLoglets localPos (idAt initial epoch)) := by
  obtain ⟨loglet, backing⟩ := seeking.between.laid.backed seeking.inside
  refine .on cluster (.read loglet localPos ()) ?_ rfl ⟨ends, epoch, seeking, backing⟩
    (Nat.lt_succ_self _)
  dsimp only [VirtualLog.poll]
  rw [backing.held]
  rfl

theorem moves_read {epoch localPos : Nat} (seeking : Seeking initial log op cluster ends epoch localPos)
    (backing : Backing initial cluster epoch loglet) (inner : Unit) :
    Moves initial log first op index cluster (.read loglet localPos inner) := by
  obtain ⟨pos, rfl, after, before, rfl⟩ := seeking.place
  have part := seeking.between.laid.part seeking.inside backing
  have kept : ((cluster.heap loglet).call index (.read (globalToLocal (startAt ends epoch) pos))).1 =
      cluster.heap loglet := rfl
  refine .given cluster _ ?_ rfl ⟨fun _ => part.read after ?_, ends, seeking.between⟩
  · dsimp only [VirtualLog.poll]
    rw [await_memory, kept, setHeap_same]
    rfl
  · cases closed : ends[epoch]? with
    | none => exact Or.inr rfl
    | some endPos => exact Or.inl (before endPos closed)

theorem resuming_moves (foreign : ∀ index, initial ≠ generatedId (index + 1)) (index : Nat)
    (resuming : Resuming initial log first op cluster future) :
    Moves initial log first op index cluster future := by
  cases future with
  | activeChain caller =>
      obtain ⟨ends, asking⟩ := resuming
      exact moves_activeChain asking
  | activeLoglet caller startPos logletId =>
      obtain ⟨ends, asking, rfl, rfl⟩ := resuming
      exact moves_activeLoglet asking
  | append loglet startPos inner =>
      obtain ⟨ends, asking, rfl, backing⟩ := resuming
      exact moves_append foreign asking backing inner
  | checkTail loglet startPos inner =>
      obtain ⟨ends, asking, rfl, backing⟩ := resuming
      exact moves_checkTail asking backing inner
  | «seal» loglet startPos inner =>
      obtain ⟨ends, asking, rfl, backing⟩ := resuming
      exact moves_seal foreign asking backing inner
  | reconfigureSeal loglet startPos inner =>
      obtain ⟨ends, asking, rfl, backing⟩ := resuming
      exact moves_reconfigureSeal asking backing inner
  | reconfigureVersion loglet startPos globalSealPos =>
      obtain ⟨ends, asking, rfl⟩ := resuming
      exact moves_reconfigureVersion asking startPos
  | reconfigureChain loglet startPos globalSealPos version =>
      obtain ⟨ends, asking, rfl, rfl⟩ := resuming
      exact moves_reconfigureChain asking startPos
  | reconfigureWrite loglet startPos version newChain newLogletId =>
      obtain ⟨ends, asking, rfl, rfl, rfl⟩ := resuming
      exact moves_reconfigureWrite asking startPos
  | reconfigureCreate version newChain newLogletId =>
      obtain ⟨ends, written, rfl, rfl, rfl⟩ := resuming
      exact moves_reconfigureCreate written
  | reconfigureInsert version newChain newLogletId newLoglet =>
      obtain ⟨ends, written, rfl, rfl, rfl, named⟩ := resuming
      exact moves_reconfigureInsert foreign written named
  | syncRead =>
      obtain ⟨ends, written⟩ := resuming
      exact moves_syncRead written
  | syncLoglets todo newChain newVersion =>
      rcases resuming with ⟨ends, count, written, inside, rfl, rfl, rfl⟩ |
        ⟨appends, ends, opened, rfl, rfl, rfl⟩
      · rcases Nat.le_succ_iff.mp inside with known | rfl
        · exact moves_syncHeld written known
        · exact moves_syncMissing foreign written
      · exact .on cluster (.installChain (chainOf initial ends) ends.length) rfl rfl
          ⟨appends, ends, opened, rfl, rfl⟩ (Nat.lt_succ_self _)
  | installChain newChain newVersion =>
      obtain ⟨appends, ends, opened, rfl, rfl⟩ := resuming
      exact moves_installChain appends opened
  | installVersion newVersion =>
      obtain ⟨appends, ends, opened, chain, rfl⟩ := resuming
      exact moves_installVersion appends opened chain
  | readChain pos =>
      obtain ⟨rfl, ends, between⟩ := resuming
      exact moves_readChain between
  | readLoglets localPos logletId =>
      obtain ⟨ends, epoch, seeking, rfl⟩ := resuming
      exact moves_readLoglets seeking
  | read loglet localPos inner =>
      obtain ⟨ends, epoch, seeking, backing⟩ := resuming
      exact moves_read seeking backing inner
  | trimChain | trimSegments | trim => exact resuming.elim

end SoloLog

end Relos
