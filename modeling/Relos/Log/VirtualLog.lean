import Relos.Log.Chain
import Relos.Log.Loglet
import Mathlib.Logic.Function.Basic

set_option autoImplicit false

/-! Virtual logs over one MetaStore. Every `await` of the source is a scheduling
point, so a future holds exactly the locals that are live there. Locks that are
held across an `await` are not modelled: the tasks interleave more freely here. -/

namespace Relos

open Async

/-! ### MetaStore and loglet factories -/

structure MemoryMetaStore where
  chain : LogChain
  version : Nat
deriving DecidableEq

namespace MemoryMetaStore

def new (initialChain : LogChain) : MemoryMetaStore := { chain := initialChain, version := 0 }

def write (store : MemoryMetaStore) (chain : LogChain) (expectedVersion : Nat) :
    MemoryMetaStore × Bool :=
  if store.version ≠ expectedVersion then (store, false)
  else ({ chain := chain, version := store.version + 1 }, true)

end MemoryMetaStore

/-- `fresh` gives a new loglet at every `create`, as the factories of the
repository do; `shared` resolves an identifier to the same loglet everywhere. -/
inductive Factory where
  | fresh
  | shared
deriving DecidableEq

/-- An `Arc<dyn Loglet>`: the identifier it was created for and the creation. -/
structure LogletRef where
  logletId : String
  serial : Nat
deriving DecidableEq

structure VirtualLog where
  chain : LogChain
  chainVersion : Nat
  loglets : Std.ExtTreeMap String LogletRef
deriving DecidableEq

/-- Virtual logs named by `Node`, their MetaStore and all loglets.
`installed` is the history of the MetaStore; only statements read it. -/
structure Cluster (Node State : Type) where
  metaStore : MemoryMetaStore
  installed : List LogChain
  logs : Node → VirtualLog
  heap : LogletRef → State
  nextSerial : Nat
  factoryError : Option RelosError

namespace Cluster

variable {Node State : Type}

/-- The state after `VirtualLog::new` on a MetaStore that holds `LogChain::new`. -/
def new (initialLogletId : String) (loglet : State) : Cluster Node State where
  metaStore := .new (.new initialLogletId)
  installed := [.new initialLogletId]
  logs _ :=
    { chain := .new initialLogletId
      chainVersion := 0
      loglets := (∅ : Std.ExtTreeMap String LogletRef).insert initialLogletId ⟨initialLogletId, 0⟩ }
  heap _ := loglet
  nextSerial := 1
  factoryError := none

def create (cluster : Cluster Node State) (factory : Factory) (logletId : String) :
    Result (LogletRef × Cluster Node State) :=
  match cluster.factoryError with
  | some error => .error error
  | none =>
      match factory with
      | .fresh => .ok (⟨logletId, cluster.nextSerial⟩,
          { cluster with nextSerial := cluster.nextSerial + 1 })
      | .shared => .ok (⟨logletId, 0⟩, cluster)

def setHeap [DecidableEq LogletRef] (cluster : Cluster Node State) (loglet : LogletRef)
    (state : State) : Cluster Node State :=
  { cluster with heap := Function.update cluster.heap loglet state }

variable [DecidableEq Node]

def setLog (cluster : Cluster Node State) (node : Node) (log : VirtualLog) : Cluster Node State :=
  { cluster with logs := Function.update cluster.logs node log }

def insertLoglet (cluster : Cluster Node State) (node : Node) (logletId : String)
    (loglet : LogletRef) : Cluster Node State :=
  cluster.setLog node
    { cluster.logs node with loglets := (cluster.logs node).loglets.insert logletId loglet }

def setChain (cluster : Cluster Node State) (node : Node) (chain : LogChain) :
    Cluster Node State :=
  cluster.setLog node { cluster.logs node with chain := chain }

def setVersion (cluster : Cluster Node State) (node : Node) (version : Nat) :
    Cluster Node State :=
  cluster.setLog node { cluster.logs node with chainVersion := version }

/-- The loop of `VirtualLog::new` over the segments of the chain it read. -/
def createAll (cluster : Cluster Node State) (factory : Factory) :
    List ChainSegment → Std.ExtTreeMap String LogletRef →
      Result (Std.ExtTreeMap String LogletRef × Cluster Node State)
  | [], loglets => .ok (loglets, cluster)
  | segment :: rest, loglets =>
      match cluster.create factory segment.logletId with
      | .error error => .error error
      | .ok (loglet, next) =>
          createAll next factory rest (loglets.insert segment.logletId loglet)

/-- `VirtualLog::new`; a failed creation leaves no instance behind. -/
def openLog (cluster : Cluster Node State) (factory : Factory) (node : Node) :
    Cluster Node State :=
  match cluster.createAll factory cluster.metaStore.chain.segments ∅ with
  | .error _ => cluster
  | .ok (loglets, next) =>
      next.setLog node
        { chain := cluster.metaStore.chain
          chainVersion := cluster.metaStore.version
          loglets := loglets }

end Cluster

/-! ### Futures -/

namespace VirtualLog

/-- The four callers of `get_active_loglet`. -/
inductive Caller where
  | append
  | reconfigure
  | checkTail
  | seal
deriving DecidableEq

inductive Future (Fut : Type) where
  | activeChain (caller : Caller)
  | activeLoglet (caller : Caller) (startPos : Nat) (logletId : String)
  | append (loglet : LogletRef) (startPos : Nat) (future : Fut)
  | checkTail (loglet : LogletRef) (startPos : Nat) (future : Fut)
  | seal (loglet : LogletRef) (startPos : Nat) (future : Fut)
  | reconfigureSeal (loglet : LogletRef) (startPos : Nat) (future : Fut)
  | reconfigureVersion (loglet : LogletRef) (startPos globalSealPos : Nat)
  | reconfigureChain (loglet : LogletRef) (startPos globalSealPos version : Nat)
  | reconfigureWrite (loglet : LogletRef) (startPos version : Nat) (newChain : LogChain)
      (newLogletId : String)
  | reconfigureCreate (version : Nat) (newChain : LogChain) (newLogletId : String)
  | reconfigureInsert (version : Nat) (newChain : LogChain) (newLogletId : String)
      (newLoglet : LogletRef)
  | syncRead
  | syncLoglets (todo : List ChainSegment) (newChain : LogChain) (newVersion : Nat)
  | installChain (newChain : LogChain) (newVersion : Nat)
  | installVersion (newVersion : Nat)
  | readChain (globalPos : Nat)
  | readLoglets (localPos : Nat) (logletId : String)
  | read (loglet : LogletRef) (localPos : Nat) (future : Fut)
  | trimChain (globalPos : Nat)
  | trimSegments (globalPos : Nat) (todo : List ChainSegment)
  | trim (globalPos : Nat) (loglet : LogletRef) (localPos : Nat) (future : Fut)
      (todo : List ChainSegment)
deriving DecidableEq

def begin {Fut : Type} : LogletOp → Future Fut
  | .append _ => .activeChain .append
  | .checkTail => .activeChain .checkTail
  | .read pos => .readChain pos
  | .trim pos => .trimChain pos
  | .seal => .activeChain .seal

section Poll

variable {Node State Fut Event : Type} [DecidableEq Node]

abbrev Poll (Node State Fut : Type) : Type :=
  Option (Cluster Node State × Progress (Future Fut) LogletResult)

def suspend (cluster : Cluster Node State) (future : Future Fut) : Poll Node State Fut :=
  some (cluster, .running future)

def finish (cluster : Cluster Node State) (result : LogletResult) : Poll Node State Fut :=
  some (cluster, .finished result)

/-- Poll the future of a loglet call and go on with its result. -/
def await (component : LogletComponent State Fut Event) (cluster : Cluster Node State)
    (index : Nat) (loglet : LogletRef) (op : LogletOp) (future : Fut)
    (pending : Fut → Future Fut)
    (resume : LogletResult → Option (Progress (Future Fut) LogletResult)) : Poll Node State Fut :=
  match component.poll (cluster.heap loglet) index op future with
  | none => none
  | some (state, .running future) => suspend (cluster.setHeap loglet state) (pending future)
  | some (state, .finished result) =>
      (resume result).map fun progress => (cluster.setHeap loglet state, progress)

/-- The rest of the caller after `get_active_loglet` returned. -/
def Caller.proceed (component : LogletComponent State Fut Event) (op : LogletOp)
    (loglet : LogletRef) (startPos : Nat) : Caller → Future Fut
  | .append => .append loglet startPos (component.begin op)
  | .reconfigure => .reconfigureSeal loglet startPos (component.begin .seal)
  | .checkTail => .checkTail loglet startPos (component.begin .checkTail)
  | .seal => .seal loglet startPos (component.begin .seal)

/-- `append` after its loglet answered: a sealed loglet starts a reconfiguration. -/
def resumeAppend (startPos : Nat) : LogletResult → Option (Progress (Future Fut) LogletResult)
  | .ok (.pos localPos) => some (.finished (.ok (.pos (localToGlobal startPos localPos))))
  | .error (.sealed _) => some (.running (.activeChain .reconfigure))
  | .error error => some (.finished (.error error))
  | .ok _ => none

/-- `check_tail` and `seal` after their loglet answered. -/
def resumeGlobal (startPos : Nat) : LogletResult → Option (Progress (Future Fut) LogletResult)
  | .ok (.pos localPos) => some (.finished (.ok (.pos (localToGlobal startPos localPos))))
  | .error error => some (.finished (.error error))
  | .ok _ => none

def resumeReconfigure (loglet : LogletRef) (startPos : Nat) :
    LogletResult → Option (Progress (Future Fut) LogletResult)
  | .ok (.pos localTail) =>
      some (.running (.reconfigureVersion loglet startPos (localToGlobal startPos localTail)))
  | .error error => some (.finished (.error error))
  | .ok _ => none

def resumeTrim (globalPos : Nat) (todo : List ChainSegment) :
    LogletResult → Option (Progress (Future Fut) LogletResult)
  | .ok _ => some (.running (.trimSegments globalPos todo))
  | .error error => some (.finished (.error error))

def poll (factory : Factory) (component : LogletComponent State Fut Event)
    (cluster : Cluster Node State) (index : Nat) (call : Node × LogletOp) :
    Future Fut → Poll Node State Fut
  | .activeChain caller =>
      match (cluster.logs call.1).chain.activeSegment with
      | none => finish cluster (.error (.internal "no active segment in chain"))
      | some segment =>
          suspend cluster (.activeLoglet caller segment.startPos segment.logletId)
  | .activeLoglet caller startPos logletId =>
      match (cluster.logs call.1).loglets[logletId]? with
      | none => finish cluster (.error (.internal s!"active loglet {logletId} not found"))
      | some loglet => suspend cluster (caller.proceed component call.2 loglet startPos)
  | .append loglet startPos future =>
      await component cluster index loglet call.2 future (.append loglet startPos)
        (resumeAppend startPos)
  | .checkTail loglet startPos future =>
      await component cluster index loglet .checkTail future (.checkTail loglet startPos)
        (resumeGlobal startPos)
  | .seal loglet startPos future =>
      await component cluster index loglet .seal future (.seal loglet startPos)
        (resumeGlobal startPos)
  -- `reconfigure`, step 1
  | .reconfigureSeal loglet startPos future =>
      await component cluster index loglet .seal future (.reconfigureSeal loglet startPos)
        (resumeReconfigure loglet startPos)
  -- step 2
  | .reconfigureVersion loglet startPos globalSealPos =>
      suspend cluster (.reconfigureChain loglet startPos globalSealPos
        (cluster.logs call.1).chainVersion)
  | .reconfigureChain loglet startPos globalSealPos version =>
      let chain := (cluster.logs call.1).chain
      let newLogletId := generateLogletId chain
      suspend cluster (.reconfigureWrite loglet startPos version
        (chain.extend globalSealPos newLogletId) newLogletId)
  | .reconfigureWrite _ _ version newChain newLogletId =>
      match cluster.metaStore.write newChain version with
      | (metaStore, true) =>
          suspend { cluster with
              metaStore := metaStore, installed := cluster.installed ++ [newChain] }
            (.reconfigureCreate version newChain newLogletId)
      -- step 3
      | (_, false) => suspend cluster .syncRead
  | .reconfigureCreate version newChain newLogletId =>
      match cluster.create factory newLogletId with
      | .error error => finish cluster (.error error)
      | .ok (newLoglet, next) =>
          suspend next (.reconfigureInsert version newChain newLogletId newLoglet)
  | .reconfigureInsert version newChain newLogletId newLoglet =>
      suspend (cluster.insertLoglet call.1 newLogletId newLoglet)
        (.installChain newChain (version + 1))
  -- `sync_chain`
  | .syncRead =>
      suspend cluster (.syncLoglets cluster.metaStore.chain.segments cluster.metaStore.chain
        cluster.metaStore.version)
  | .syncLoglets [] newChain newVersion => suspend cluster (.installChain newChain newVersion)
  | .syncLoglets (segment :: todo) newChain newVersion =>
      if (cluster.logs call.1).loglets.contains segment.logletId then
        suspend cluster (.syncLoglets todo newChain newVersion)
      else
        match cluster.create factory segment.logletId with
        | .error error => finish cluster (.error error)
        | .ok (loglet, next) =>
            suspend (next.insertLoglet call.1 segment.logletId loglet)
              (.syncLoglets todo newChain newVersion)
  -- the two last writes of `reconfigure` and of `sync_chain`, then `append` retries
  | .installChain newChain newVersion =>
      suspend (cluster.setChain call.1 newChain) (.installVersion newVersion)
  | .installVersion newVersion =>
      suspend (cluster.setVersion call.1 newVersion) (.activeChain .append)
  | .readChain globalPos =>
      match (cluster.logs call.1).chain.findSegment globalPos with
      | none => finish cluster (.error (.internal s!"no segment found for position {globalPos}"))
      | some segment =>
          suspend cluster (.readLoglets (globalToLocal segment.startPos globalPos)
            segment.logletId)
  | .readLoglets localPos logletId =>
      match (cluster.logs call.1).loglets[logletId]? with
      | none => finish cluster (.error (.internal s!"loglet {logletId} not found"))
      | some loglet => suspend cluster (.read loglet localPos (component.begin (.read localPos)))
  | .read loglet localPos future =>
      await component cluster index loglet (.read localPos) future (.read loglet localPos)
        fun result => some (.finished result)
  | .trimChain globalPos =>
      suspend cluster (.trimSegments globalPos (cluster.logs call.1).chain.segments)
  | .trimSegments _ [] => finish cluster (.ok .unit)
  | .trimSegments globalPos (segment :: todo) =>
      if segment.startPos < globalPos then
        let trimGlobal := min globalPos (segment.endPos.getD logPosMax)
        let localTrim := globalToLocal segment.startPos trimGlobal
        match (cluster.logs call.1).loglets[segment.logletId]? with
        | none => suspend cluster (.trimSegments globalPos todo)
        | some loglet =>
            suspend cluster (.trim globalPos loglet localTrim (component.begin (.trim localTrim))
              todo)
      else suspend cluster (.trimSegments globalPos todo)
  | .trim globalPos loglet localPos future todo =>
      await component cluster index loglet (.trim localPos) future
        (fun future => .trim globalPos loglet localPos future todo) (resumeTrim globalPos todo)

end Poll

end VirtualLog

/-- What happens outside the calls: background tasks of the loglets, instances
being created, and the factory starting or ceasing to fail. -/
inductive ClusterEvent (Node Event : Type) where
  | loglet (loglet : LogletRef) (event : Event)
  | openLog (node : Node)
  | factory (error : Option RelosError)

def virtualLogComponent {Node State Fut Event : Type} [DecidableEq Node] (factory : Factory)
    (component : LogletComponent State Fut Event) :
    Component (Cluster Node State) (Node × LogletOp) (VirtualLog.Future Fut) LogletResult
      (ClusterEvent Node Event) where
  begin call := VirtualLog.begin call.2
  poll := VirtualLog.poll factory component
  background
    | cluster, .loglet loglet event =>
        (component.background (cluster.heap loglet) event).map (cluster.setHeap loglet)
    | cluster, .openLog node => some (cluster.openLog factory node)
    | cluster, .factory error => some { cluster with factoryError := error }

end Relos
