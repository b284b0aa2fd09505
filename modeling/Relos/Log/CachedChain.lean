import Relos.Log.SharedInstance

set_option autoImplicit false

/-! The chain and the version that an instance has cached. Tasks write them one after the
other, from pairs that the MetaStore held. -/

namespace Relos

open Async

variable {Node State Fut Event : Type}

namespace Cluster

/-- What the instance has cached. -/
def cached (cluster : Cluster Node State) (node : Node) : LogChain × Nat :=
  ((cluster.logs node).chain, (cluster.logs node).chainVersion)

/-- The MetaStore held the chain at this version, and not too long ago. -/
def Held (cluster : Cluster Node State) (floor : Nat) (chain : LogChain) (version : Nat) : Prop :=
  cluster.installed[version]? = some chain ∧ floor ≤ version

/-- The MetaStore and its history are the same. -/
structure SameStore (cluster next : Cluster Node State) : Prop where
  metaStore : next.metaStore = cluster.metaStore
  installed : next.installed = cluster.installed

theorem SameStore.refl (cluster : Cluster Node State) : cluster.SameStore cluster := ⟨rfl, rfl⟩

theorem SameStore.trans {cluster middle next : Cluster Node State}
    (before : cluster.SameStore middle) (after : middle.SameStore next) :
    cluster.SameStore next :=
  ⟨after.metaStore.trans before.metaStore, after.installed.trans before.installed⟩

theorem create_store {cluster next : Cluster Node State} {factory : Factory} {logletId : String}
    {loglet : LogletRef} (created : cluster.create factory logletId = .ok (loglet, next)) :
    cluster.SameStore next := by
  unfold create at created
  split at created
  · cases created
  · split at created <;> cases created <;> exact ⟨rfl, rfl⟩

theorem createAll_store {cluster next : Cluster Node State} {factory : Factory}
    {segments : List ChainSegment} {loglets made : Std.ExtTreeMap String LogletRef}
    (created : cluster.createAll factory segments loglets = .ok (made, next)) :
    cluster.SameStore next ∧ next.logs = cluster.logs := by
  induction segments generalizing cluster loglets with
  | nil =>
      cases created
      exact ⟨.refl _, rfl⟩
  | cons segment rest ih =>
      unfold createAll at created
      split at created
      · cases created
      · rename_i loglet middle first
        obtain ⟨same, logs⟩ := ih created
        exact ⟨(create_store first).trans same, logs.trans (VirtualLog.create_logs first)⟩

/-- What every instance has, after one of them was replaced by an instance that has it. -/
theorem forall_setLog [DecidableEq Node] {cluster : Cluster Node State}
    (Good : Node → VirtualLog → Prop) (all : ∀ other, Good other (cluster.logs other)) {node : Node}
    {log : VirtualLog} (good : Good node log) (other : Node) :
    Good other ((cluster.setLog node log).logs other) := by
  unfold setLog
  dsimp only
  by_cases here : other = node
  · subst here
    rw [Function.update_self]
    exact good
  · rw [Function.update_of_ne here]
    exact all other

end Cluster

namespace VirtualLog

/-- A task of the instance is inside `reconfigure` or `sync_chain`. -/
def Future.reconfiguring : Future Fut → Bool
  | .activeChain caller | .activeLoglet caller _ _ => decide (caller = .reconfigure)
  | .reconfigureSeal _ _ _ | .reconfigureVersion _ _ _ | .reconfigureChain _ _ _ _
  | .reconfigureWrite _ _ _ _ _ | .reconfigureCreate _ _ _ | .reconfigureInsert _ _ _ _
  | .syncRead | .syncLoglets _ _ _ | .installChain _ _ | .installVersion _ => true
  | .append _ _ _ | .checkTail _ _ _ | .seal _ _ _ | .readChain _ | .readLoglets _ _
  | .read _ _ _ | .trimChain _ | .trimSegments _ _ | .trim _ _ _ _ _ => false

/-- The task has written the chain, and is about to write its version. -/
def Future.WritesVersion : Future Fut → Prop
  | .installVersion _ => True
  | _ => False

/-- The pair that a task is going to write. -/
def Future.Carries (Pair : LogChain → Nat → Prop) : Future Fut → Prop
  | .reconfigureCreate version newChain _ | .reconfigureInsert version newChain _ _ =>
      Pair newChain (version + 1)
  | .syncLoglets _ newChain newVersion | .installChain newChain newVersion =>
      Pair newChain newVersion
  | .installVersion newVersion => ∃ chain, Pair chain newVersion
  | _ => True

theorem Future.carries_of_calm (Pair : LogChain → Nat → Prop) {future : Future Fut}
    (calm : future.reconfiguring = false) : future.Carries Pair := by
  cases future with
  | reconfigureCreate | reconfigureInsert | syncLoglets | installChain | installVersion =>
      cases calm
  | activeChain | activeLoglet | append | checkTail | «seal» | reconfigureSeal | reconfigureVersion
  | reconfigureChain | reconfigureWrite | syncRead | readChain | readLoglets | read | trimChain
  | trimSegments | trim => trivial

theorem Future.Carries.mono {Pair Other : LogChain → Nat → Prop} {future : Future Fut}
    (carries : future.Carries Pair)
    (weaker : ∀ chain version, Pair chain version → Other chain version) :
    future.Carries Other := by
  cases future with
  | reconfigureCreate | reconfigureInsert | syncLoglets | installChain => exact weaker _ _ carries
  | installVersion =>
      obtain ⟨chain, pair⟩ := carries
      exact ⟨chain, weaker _ _ pair⟩
  | activeChain | activeLoglet | append | checkTail | «seal» | reconfigureSeal | reconfigureVersion
  | reconfigureChain | reconfigureWrite | syncRead | readChain | readLoglets | read | trimChain
  | trimSegments | trim => trivial

variable [DecidableEq Node]

/-- What one poll does to the MetaStore and to the cached pairs. -/
inductive Effect (cluster : Cluster Node State) (node : Node) :
    Future Fut → Cluster Node State → Progress (Future Fut) LogletResult → Prop where
  | kept {future : Future Fut} {next : Cluster Node State}
      {progress : Progress (Future Fut) LogletResult} :
      ¬ future.WritesVersion → cluster.SameStore next →
      (∀ other, next.cached other = cluster.cached other) →
      (∀ Pair, future.Carries Pair → Pair cluster.metaStore.chain cluster.metaStore.version →
        progress.Holds (Future.Carries Pair) fun _ => True) →
      Effect cluster node future next progress
  | write (loglet : LogletRef) (startPos : Nat) (newChain : LogChain) (newLogletId : String) :
      Effect cluster node
        (.reconfigureWrite loglet startPos cluster.metaStore.version newChain newLogletId)
        { cluster with
          metaStore := { chain := newChain, version := cluster.metaStore.version + 1 }
          installed := cluster.installed ++ [newChain] }
        (.running (.reconfigureCreate cluster.metaStore.version newChain newLogletId))
  | chain (newChain : LogChain) (newVersion : Nat) :
      Effect cluster node (.installChain newChain newVersion) (cluster.setChain node newChain)
        (.running (.installVersion newVersion))
  | version (newVersion : Nat) :
      Effect cluster node (.installVersion newVersion) (cluster.setVersion node newVersion)
        (.running (.activeChain .append))

variable {component : LogletComponent State Fut Event} {factory : Factory}
  {cluster next : Cluster Node State} {node : Node} {index : Nat} {op : LogletOp}
  {future later : Future Fut} {progress : Progress (Future Fut) LogletResult}

theorem Effect.suspended (polled : suspend cluster later = some (next, progress))
    (other : ¬ future.WritesVersion)
    (carries : ∀ Pair, future.Carries Pair →
      Pair cluster.metaStore.chain cluster.metaStore.version → later.Carries Pair) :
    Effect cluster node future next progress := by
  cases polled
  exact .kept other (.refl cluster) (fun _ => rfl) carries

theorem Effect.ended {result : LogletResult}
    (polled : finish cluster result = some (next, progress)) (other : ¬ future.WritesVersion) :
    Effect cluster node future next progress := by
  cases polled
  exact .kept other (.refl cluster) (fun _ => rfl) fun _ _ _ => trivial

/-- Nothing that a call to a loglet resumes with carries a chain. -/
theorem Effect.awaited {loglet : LogletRef} {callee : LogletOp} {inner : Fut}
    {pending : Fut → Future Fut}
    {resume : LogletResult → Option (Progress (Future Fut) LogletResult)}
    (polled : await component cluster index loglet callee inner pending resume =
      some (next, progress)) (other : ¬ future.WritesVersion)
    (waits : ∀ Pair inner, (pending inner).Carries Pair)
    (resumed : ∀ Pair result progress, resume result = some progress →
      progress.Holds (Future.Carries Pair) fun _ => True) :
    Effect cluster node future next progress := by
  obtain ⟨state, answer, -, rfl, outcome⟩ := await_cases polled
  refine .kept other ⟨rfl, rfl⟩ (fun _ => rfl) fun Pair _ _ => ?_
  rcases outcome with ⟨later, -, rfl⟩ | ⟨result, -, same⟩
  · exact waits Pair later
  · exact resumed Pair result progress same

theorem resumeAppend_carries (Pair : LogChain → Nat → Prop) {startPos : Nat} {result : LogletResult}
    (resumed : resumeAppend startPos result = some progress) :
    progress.Holds (Future.Carries Pair) fun _ => True := by
  unfold resumeAppend at resumed
  split at resumed <;> cases resumed <;> trivial

theorem resumeGlobal_carries (Pair : LogChain → Nat → Prop) {startPos : Nat} {result : LogletResult}
    (resumed : resumeGlobal startPos result = some progress) :
    progress.Holds (Future.Carries Pair) fun _ => True := by
  unfold resumeGlobal at resumed
  split at resumed <;> cases resumed <;> trivial

theorem resumeReconfigure_carries (Pair : LogChain → Nat → Prop) {loglet : LogletRef}
    {startPos : Nat} {result : LogletResult}
    (resumed : resumeReconfigure loglet startPos result = some progress) :
    progress.Holds (Future.Carries Pair) fun _ => True := by
  unfold resumeReconfigure at resumed
  split at resumed <;> cases resumed <;> trivial

theorem resumeTrim_carries (Pair : LogChain → Nat → Prop) {globalPos : Nat}
    {todo : List ChainSegment} {result : LogletResult}
    (resumed : resumeTrim globalPos todo result = some progress) :
    progress.Holds (Future.Carries Pair) fun _ => True := by
  unfold resumeTrim at resumed
  split at resumed <;> cases resumed <;> trivial

theorem insertLoglet_cached (logletId : String) (loglet : LogletRef) (other : Node) :
    (cluster.insertLoglet node logletId loglet).cached other = cluster.cached other := by
  refine Cluster.forall_setLog (fun other log => (log.chain, log.chainVersion) =
    cluster.cached other) (fun _ => rfl) ?_ other
  rfl

theorem reconfigureWrite_effect {loglet : LogletRef} {startPos version : Nat} {newChain : LogChain}
    {newLogletId : String}
    (polled : (match cluster.metaStore.write newChain version with
      | (metaStore, true) => suspend { cluster with
          metaStore := metaStore, installed := cluster.installed ++ [newChain] }
            (.reconfigureCreate version newChain newLogletId)
      | (_, false) => suspend cluster .syncRead) = some (next, progress)) :
    Effect cluster node (.reconfigureWrite loglet startPos version newChain newLogletId) next
      progress := by
  unfold MemoryMetaStore.write at polled
  by_cases current : cluster.metaStore.version = version
  · subst current
    rw [if_neg (not_not_intro rfl)] at polled
    cases polled
    exact .write loglet startPos newChain newLogletId
  · rw [if_pos current] at polled
    refine .suspended polled id fun _ _ _ => ?_
    trivial

theorem poll_effect (polled : poll factory component cluster index (node, op) future =
    some (next, progress)) : Effect cluster node future next progress := by
  cases future with
  | activeChain caller =>
      dsimp only [poll] at polled
      split at polled
      · exact .ended polled id
      · exact .suspended polled id fun _ _ _ => trivial
  | activeLoglet caller startPos logletId =>
      dsimp only [poll] at polled
      split at polled
      · exact .ended polled id
      · refine .suspended polled id fun _ _ _ => ?_
        cases caller <;> trivial
  | append loglet startPos inner =>
      dsimp only [poll] at polled
      exact .awaited polled id (fun _ _ => trivial) fun Pair _ _ => resumeAppend_carries Pair
  | checkTail loglet startPos inner =>
      dsimp only [poll] at polled
      exact .awaited polled id (fun _ _ => trivial) fun Pair _ _ => resumeGlobal_carries Pair
  | «seal» loglet startPos inner =>
      dsimp only [poll] at polled
      exact .awaited polled id (fun _ _ => trivial) fun Pair _ _ => resumeGlobal_carries Pair
  | reconfigureSeal loglet startPos inner =>
      dsimp only [poll] at polled
      exact .awaited polled id (fun _ _ => trivial) fun Pair _ _ => resumeReconfigure_carries Pair
  | reconfigureVersion loglet startPos globalSealPos =>
      dsimp only [poll] at polled
      exact .suspended polled id fun _ _ _ => trivial
  | reconfigureChain loglet startPos globalSealPos version =>
      dsimp only [poll] at polled
      exact .suspended polled id fun _ _ _ => trivial
  | reconfigureWrite loglet startPos version newChain newLogletId =>
      exact reconfigureWrite_effect polled
  | reconfigureCreate version newChain newLogletId =>
      dsimp only [poll] at polled
      split at polled
      · exact .ended polled id
      · rename_i newLoglet made created
        cases polled
        refine .kept id (Cluster.create_store created) (fun other => ?_) fun _ pair _ => pair
        exact congrArg (fun logs => ((logs other).chain, (logs other).chainVersion))
          (create_logs created)
  | reconfigureInsert version newChain newLogletId newLoglet =>
      dsimp only [poll] at polled
      cases polled
      exact .kept id ⟨rfl, rfl⟩ (insertLoglet_cached newLogletId newLoglet) fun _ pair _ => pair
  | syncRead =>
      dsimp only [poll] at polled
      exact .suspended polled id fun _ _ pair => pair
  | syncLoglets todo newChain newVersion =>
      cases todo with
      | nil =>
          dsimp only [poll] at polled
          exact .suspended polled id fun _ pair _ => pair
      | cons segment todo =>
          dsimp only [poll] at polled
          split at polled
          · exact .suspended polled id fun _ pair _ => pair
          · split at polled
            · exact .ended polled id
            · rename_i loglet made created
              cases polled
              have store := Cluster.create_store created
              refine .kept id ⟨store.metaStore, store.installed⟩ (fun other => ?_)
                fun _ pair _ => pair
              rw [insertLoglet_cached]
              exact congrArg (fun logs => ((logs other).chain, (logs other).chainVersion))
                (create_logs created)
  | installChain newChain newVersion =>
      cases polled
      exact .chain newChain newVersion
  | installVersion newVersion =>
      cases polled
      exact .version newVersion
  | readChain globalPos =>
      dsimp only [poll] at polled
      split at polled
      · exact .ended polled id
      · exact .suspended polled id fun _ _ _ => trivial
  | readLoglets localPos logletId =>
      dsimp only [poll] at polled
      split at polled
      · exact .ended polled id
      · exact .suspended polled id fun _ _ _ => trivial
  | read loglet localPos inner =>
      dsimp only [poll] at polled
      refine .awaited polled id (fun _ _ => trivial) ?_
      rintro Pair result progress ⟨⟩
      trivial
  | trimChain globalPos =>
      dsimp only [poll] at polled
      exact .suspended polled id fun _ _ _ => trivial
  | trimSegments globalPos todo =>
      cases todo with
      | nil =>
          dsimp only [poll] at polled
          exact .ended polled id
      | cons segment todo =>
          dsimp only [poll] at polled
          split at polled
          · split at polled
            · exact .suspended polled id fun _ _ _ => trivial
            · exact .suspended polled id fun _ _ _ => trivial
          · exact .suspended polled id fun _ _ _ => trivial
  | trim globalPos loglet localPos inner todo =>
      dsimp only [poll] at polled
      exact .awaited polled id (fun _ _ => trivial) fun Pair _ _ => resumeTrim_carries Pair

/-- The task has written the cached chain, and is about to write its version. -/
def Publishing (cluster : Cluster Node State) (node : Node) :
    Call (Node × LogletOp) (Future Fut) LogletResult → Prop
  | ⟨call, .running (.installVersion version)⟩ => call.1 = node ∧
      cluster.installed[version]? = some (cluster.logs node).chain
  | _ => False

end VirtualLog

open VirtualLog

abbrev Logs (Node State Fut : Type) :=
  System (Cluster Node State) (Node × LogletOp) (VirtualLog.Future Fut) LogletResult

namespace Logs

/-- No task of the instance is inside `reconfigure` or `sync_chain`. -/
def Calm (system : Logs Node State Fut) (node : Node) : Prop :=
  ∀ call ∈ system.calls, call.op.1 = node →
    call.progress.Holds (fun future => future.reconfiguring = false) fun _ => True

/-- When a task writes its version, it or a task that has not written its own yet was the
last to write the chain. An instance is created before it is used. -/
def Untangled (node : Node) (system : Logs Node State Fut) :
    Action (Node × LogletOp) (ClusterEvent Node Event) → Prop
  | .start _ => True
  | .poll index => Call.Meets (fun call future => call.1 = node → future.WritesVersion →
      ∃ call ∈ system.calls, Publishing system.shared node call) system.calls[index]?
  | .background (.openLog other) => other = node →
      ∀ call ∈ system.calls, call.op.1 = node → call.isReturned = true
  | .background _ => True

/-- The cached pair is one that the MetaStore held, or a task is about to make it one. -/
structure Tracked (node : Node) (floor : Nat) (system : Logs Node State Fut) : Prop where
  length : system.shared.installed.length = system.shared.metaStore.version + 1
  current : system.shared.Held floor system.shared.metaStore.chain system.shared.metaStore.version
  carried : ∀ call ∈ system.calls, call.op.1 = node →
    call.progress.Holds (Future.Carries (system.shared.Held floor)) fun _ => True
  reached : floor ≤ (system.shared.logs node).chainVersion
  cached : system.shared.installed[(system.shared.logs node).chainVersion]? =
      some (system.shared.logs node).chain ∨
    ∃ call ∈ system.calls, Publishing system.shared node call

variable {node who : Node} {floor index : Nat} {system : Logs Node State Fut}
  {next : Cluster Node State} {op : LogletOp} {future : VirtualLog.Future Fut}
  {progress : Progress (VirtualLog.Future Fut) LogletResult}
  {call : Call (Node × LogletOp) (VirtualLog.Future Fut) LogletResult}

theorem publishing_ne (publishing : Publishing next node call)
    (other : who = node → ¬ future.WritesVersion) : call ≠ ⟨(who, op), .running future⟩ := by
  rintro rfl
  cases future with
  | installVersion version => exact other publishing.1 trivial
  | _ => exact publishing.elim

theorem publishing_grown {last : Cluster Node State} (publishing : Publishing next node call)
    (grown : next.installed <+: last.installed)
    (same : (last.logs node).chain = (next.logs node).chain) : Publishing last node call := by
  obtain ⟨call, progress⟩ := call
  cases progress with
  | finished result => exact publishing.elim
  | running future =>
      cases future with
      | installVersion version =>
          refine ⟨publishing.1, ?_⟩
          rw [same]
          exact getElem?_of_longer grown publishing.2
      | _ => exact publishing.elim

theorem mem_set_of_ne {calls : List (Call (Node × LogletOp) (VirtualLog.Future Fut) LogletResult)}
    {old new : Call (Node × LogletOp) (VirtualLog.Future Fut) LogletResult}
    (pending : calls[index]? = some old) (member : call ∈ calls) (different : call ≠ old) :
    call ∈ calls.set index new := by
  obtain ⟨place, found⟩ := List.mem_iff_getElem?.mp member
  have elsewhere : index ≠ place := by
    rintro rfl
    exact different (Option.some.inj (found.symm.trans pending))
  refine List.mem_iff_getElem?.mpr ⟨place, ?_⟩
  rw [List.getElem?_set_ne elsewhere]
  exact found

theorem held_grown {last : Cluster Node State} (grown : next.installed <+: last.installed)
    (chain : LogChain) (version : Nat) (held : next.Held floor chain version) :
    last.Held floor chain version :=
  ⟨getElem?_of_longer grown held.1, held.2⟩

/-- What the calls carry, after a poll of one. -/
theorem Tracked.carried_set (tracked : system.Tracked node floor)
    (grown : system.shared.installed <+: next.installed)
    (here : who = node → progress.Holds (Future.Carries (next.Held floor)) fun _ => True) :
    ∀ call ∈ system.calls.set index ⟨(who, op), progress⟩, call.op.1 = node →
      call.progress.Holds (Future.Carries (next.Held floor)) fun _ => True := by
  refine forall_mem_set (fun call member mine => ?_) index here
  exact (tracked.carried call member mine).imp
    (fun _ carries => carries.mono (held_grown grown)) fun _ done => done

/-- A poll that leaves the cached pair as it is, and does not end a publication. -/
theorem Tracked.cached_kept (tracked : system.Tracked node floor)
    (pending : system.Pending index (who, op) future)
    (grown : system.shared.installed <+: next.installed)
    (same : next.cached node = system.shared.cached node)
    (other : who = node → ¬ future.WritesVersion) :
    next.installed[(next.logs node).chainVersion]? = some (next.logs node).chain ∨
      ∃ call ∈ system.calls.set index ⟨(who, op), progress⟩, Publishing next node call := by
  obtain ⟨chain, version⟩ := Prod.mk.inj same
  rcases tracked.cached with coherent | ⟨call, member, publishing⟩
  · refine Or.inl ?_
    rw [chain, version]
    exact getElem?_of_longer grown coherent
  · exact Or.inr ⟨call, mem_set_of_ne pending member (publishing_ne publishing other),
      publishing_grown publishing grown chain⟩

/-- The MetaStore, the cached pair and what the calls carry are as before. -/
theorem Tracked.still (tracked : system.Tracked node floor)
    (pending : system.Pending index (who, op) future) (store : system.shared.SameStore next)
    (same : next.cached node = system.shared.cached node)
    (other : who = node → ¬ future.WritesVersion)
    (here : who = node →
      progress.Holds (Future.Carries (system.shared.Held floor)) fun _ => True) :
    Tracked node floor ⟨next, system.calls.set index ⟨(who, op), progress⟩⟩ := by
  have grown : system.shared.installed <+: next.installed := prefix_of_same store.installed
  refine ⟨?_, ?_, tracked.carried_set grown fun mine => ?_, ?_,
    tracked.cached_kept pending grown same other⟩
  · rw [store.installed, store.metaStore]
    exact tracked.length
  · rw [store.metaStore]
    exact held_grown grown _ _ tracked.current
  · exact (here mine).imp (fun _ carries => carries.mono (held_grown grown)) fun _ done => done
  · exact Nat.le_trans tracked.reached (Nat.le_of_eq (congrArg Prod.snd same).symm)

theorem tracked_new (initial : String) (state : State) (node : Node) :
    Tracked node 0 (.fresh (Cluster.new initial state) : Logs Node State Fut) where
  length := rfl
  current := ⟨rfl, Nat.zero_le _⟩
  carried _ impossible := absurd impossible List.not_mem_nil
  reached := Nat.zero_le _
  cached := Or.inl rfl

theorem Tracked.coherent (tracked : system.Tracked node floor) (calm : system.Calm node) :
    system.shared.installed[(system.shared.logs node).chainVersion]? =
      some (system.shared.logs node).chain := by
  rcases tracked.cached with coherent | ⟨⟨call, progress⟩, member, publishing⟩
  · exact coherent
  · cases progress with
    | finished result => exact publishing.elim
    | running future =>
        cases future with
        | installVersion version =>
            have impossible := calm _ member publishing.1
            cases impossible
        | _ => exact publishing.elim

/-- What a task begins after such a moment is not older than what was cached then. -/
theorem Tracked.raise (tracked : system.Tracked node floor) (calm : system.Calm node) :
    system.Tracked node (system.shared.logs node).chainVersion := by
  have coherent := tracked.coherent calm
  have inside := (List.getElem?_eq_some_iff.mp coherent).1
  rw [tracked.length] at inside
  refine ⟨tracked.length, ⟨tracked.current.1, Nat.lt_succ_iff.mp inside⟩,
    fun call member mine => ?_, Nat.le_refl _, tracked.cached⟩
  exact (calm call member mine).imp (fun _ calm => Future.carries_of_calm _ calm) fun _ done => done

variable [DecidableEq Node]

theorem setLog_other {cluster : Cluster Node State} (different : who ≠ node) (log : VirtualLog) :
    (cluster.setLog who log).cached node = cluster.cached node := by
  unfold Cluster.cached Cluster.setLog
  dsimp only
  rw [Function.update_of_ne different.symm]

/-- A task of the instance writes the chain, and will write its version next. -/
theorem Tracked.writeChain (tracked : system.Tracked node floor) {newChain : LogChain}
    {newVersion : Nat}
    (pending : system.Pending index (node, op) (.installChain newChain newVersion))
    (pair : system.shared.Held floor newChain newVersion) :
    Tracked node floor ⟨system.shared.setChain node newChain,
      system.calls.set index ⟨(node, op), .running (.installVersion newVersion)⟩⟩ := by
  have grown : system.shared.installed <+: (system.shared.setChain node newChain).installed :=
    List.prefix_refl _
  have inside := (List.getElem?_eq_some_iff.mp pending).1
  have log : (system.shared.setChain node newChain).logs node =
      { system.shared.logs node with chain := newChain } := Function.update_self ..
  refine ⟨tracked.length, tracked.current, tracked.carried_set grown fun _ => ⟨newChain, pair⟩, ?_,
    Or.inr ⟨_, List.mem_set inside _, rfl, ?_⟩⟩
  · dsimp only
    rw [log]
    exact tracked.reached
  · dsimp only
    rw [log]
    exact pair.1

/-- A task of the instance writes its version, while the chain is that of a task which has
not written its own yet. -/
theorem Tracked.writeVersion (tracked : system.Tracked node floor) {newVersion : Nat}
    (pending : system.Pending index (node, op) (.installVersion newVersion))
    (recent : floor ≤ newVersion)
    (untangled : ∃ call ∈ system.calls, Publishing system.shared node call) :
    Tracked node floor ⟨system.shared.setVersion node newVersion,
      system.calls.set index ⟨(node, op), .running (.activeChain .append)⟩⟩ := by
  have grown : system.shared.installed <+: (system.shared.setVersion node newVersion).installed :=
    List.prefix_refl _
  have log : (system.shared.setVersion node newVersion).logs node =
      { system.shared.logs node with chainVersion := newVersion } := Function.update_self ..
  have chain := congrArg VirtualLog.chain log
  refine ⟨tracked.length, tracked.current, tracked.carried_set grown fun _ => trivial, ?_, ?_⟩
  · dsimp only
    rw [log]
    exact recent
  · obtain ⟨call, member, publishing⟩ := untangled
    by_cases self : call = ⟨(node, op), .running (.installVersion newVersion)⟩
    · subst self
      refine Or.inl ?_
      dsimp only
      rw [log]
      exact publishing.2
    · exact Or.inr ⟨call, mem_set_of_ne pending member self,
        publishing_grown publishing grown chain⟩

theorem Tracked.poll (tracked : system.Tracked node floor)
    (pending : system.Pending index (who, op) future)
    (untangled : who = node → future.WritesVersion →
      ∃ call ∈ system.calls, Publishing system.shared node call)
    (effect : Effect system.shared who future next progress) :
    Tracked node floor ⟨next, system.calls.set index ⟨(who, op), progress⟩⟩ := by
  have mine : who = node → future.Carries (system.shared.Held floor) := fun same =>
    tracked.carried _ (List.mem_of_getElem? pending) same
  cases effect with
  | kept other store cached carries =>
      exact tracked.still pending store (cached node) (fun _ => other)
        fun same => carries _ (mine same) tracked.current
  | write loglet startPos newChain newLogletId =>
      have grown : system.shared.installed <+: system.shared.installed ++ [newChain] :=
        List.prefix_append _ _
      have last : (system.shared.installed ++ [newChain])[system.shared.metaStore.version + 1]? =
          some newChain := by
        rw [← tracked.length]
        exact List.getElem?_concat_length
      have recent : floor ≤ system.shared.metaStore.version + 1 :=
        Nat.le_succ_of_le tracked.current.2
      refine ⟨?_, ⟨last, recent⟩, tracked.carried_set grown fun _ => ⟨last, recent⟩,
        tracked.reached, tracked.cached_kept pending grown rfl fun _ => id⟩
      dsimp only
      rw [List.length_append, tracked.length]
      rfl
  | chain newChain newVersion =>
      by_cases same : who = node
      · subst same
        exact tracked.writeChain pending (mine rfl)
      · exact tracked.still pending ⟨rfl, rfl⟩ (setLog_other same _)
          (fun impossible => absurd impossible same) fun impossible => absurd impossible same
  | version newVersion =>
      by_cases same : who = node
      · subst same
        obtain ⟨_, pair⟩ := mine rfl
        exact tracked.writeVersion pending pair.2 (untangled rfl trivial)
      · exact tracked.still pending ⟨rfl, rfl⟩ (setLog_other same _)
          (fun impossible => absurd impossible same) fun impossible => absurd impossible same

/-- What a background step does to the MetaStore and to the cached pairs. -/
theorem event_cached {component : LogletComponent State Fut Event} {factory : Factory}
    {cluster last : Cluster Node State} {event : ClusterEvent Node Event}
    (ran : (virtualLogComponent factory component).background cluster event = some last)
    (node : Node) : cluster.SameStore last ∧ (last.cached node = cluster.cached node ∨
      last.cached node = (cluster.metaStore.chain, cluster.metaStore.version)) := by
  cases event with
  | loglet loglet event =>
      obtain ⟨_, _, rfl⟩ := Option.map_eq_some_iff.mp ran
      exact ⟨⟨rfl, rfl⟩, Or.inl rfl⟩
  | factory error =>
      cases ran
      exact ⟨⟨rfl, rfl⟩, Or.inl rfl⟩
  | openLog who =>
      cases ran
      unfold Cluster.openLog
      split
      · exact ⟨.refl _, Or.inl rfl⟩
      · rename_i created
        obtain ⟨store, logs⟩ := Cluster.createAll_store created
        refine ⟨⟨store.metaStore, store.installed⟩, ?_⟩
        unfold Cluster.cached Cluster.setLog
        dsimp only
        by_cases same : node = who
        · subst same
          rw [Function.update_self]
          exact Or.inr rfl
        · rw [Function.update_of_ne same, logs]
          exact Or.inl rfl

theorem Tracked.step {component : LogletComponent State Fut Event} {factory : Factory}
    {after : Logs Node State Fut} {action : Action (Node × LogletOp) (ClusterEvent Node Event)}
    (tracked : system.Tracked node floor) (untangled : Untangled node system action)
    (moved : (virtualLogComponent factory component).machine.step system action = some after) :
    after.Tracked node floor := by
  cases action with
  | start call =>
      rw [Component.step_start moved]
      refine ⟨tracked.length, tracked.current, fun call' member mine => ?_, tracked.reached, ?_⟩
      · rcases List.mem_append.mp member with before | added
        · exact tracked.carried call' before mine
        · cases List.mem_singleton.mp added
          obtain ⟨who, op⟩ := call
          cases op <;> trivial
      · exact tracked.cached.imp id fun ⟨call', member, publishing⟩ =>
          ⟨call', List.mem_append_left _ member, publishing⟩
  | poll index =>
      obtain ⟨⟨who, op⟩, future, shared, progress, pending, ran, rfl⟩ := Component.step_poll moved
      have polled : VirtualLog.poll factory component system.shared index (who, op) future =
          some (shared, progress) := ran
      refine tracked.poll pending ?_ (poll_effect polled)
      unfold System.Pending at pending
      simp only [Untangled, pending] at untangled
      exact untangled
  | background event =>
      obtain ⟨shared, ran, rfl⟩ := Component.step_background moved
      obtain ⟨store, cached⟩ := event_cached ran node
      have grown : system.shared.installed <+: shared.installed := prefix_of_same store.installed
      have current : shared.Held floor shared.metaStore.chain shared.metaStore.version := by
        rw [store.metaStore]
        exact held_grown grown _ _ tracked.current
      refine ⟨?_, current, fun call member mine => ?_, ?_, ?_⟩
      · rw [store.installed, store.metaStore]
        exact tracked.length
      · exact (tracked.carried call member mine).imp
          (fun _ carries => carries.mono (held_grown grown)) fun _ done => done
      · rcases cached with same | same
        · exact Nat.le_trans tracked.reached (Nat.le_of_eq (congrArg Prod.snd same).symm)
        · exact Nat.le_trans tracked.current.2 (Nat.le_of_eq (congrArg Prod.snd same).symm)
      · rcases cached with same | same
        · obtain ⟨chain, version⟩ := Prod.mk.inj same
          rcases tracked.cached with coherent | ⟨call, member, publishing⟩
          · refine Or.inl ?_
            rw [chain, version]
            exact getElem?_of_longer grown coherent
          · exact Or.inr ⟨call, member, publishing_grown publishing grown chain⟩
        · obtain ⟨chain, version⟩ := Prod.mk.inj same
          refine Or.inl ?_
          rw [chain, version]
          exact getElem?_of_longer grown tracked.current.1

/-- The MetaStore only adds to its history. -/
theorem installed_step {component : LogletComponent State Fut Event} {factory : Factory}
    {after : Logs Node State Fut} {action : Action (Node × LogletOp) (ClusterEvent Node Event)}
    (moved : (virtualLogComponent factory component).machine.step system action = some after) :
    system.shared.installed <+: after.shared.installed := by
  cases action with
  | start call =>
      cases Component.step_start moved
      exact List.prefix_refl _
  | poll index =>
      obtain ⟨⟨who, op⟩, future, shared, progress, _, ran, rfl⟩ := Component.step_poll moved
      have polled : VirtualLog.poll factory component system.shared index (who, op) future =
          some (shared, progress) := ran
      cases poll_effect polled with
      | kept other store cached carries => exact prefix_of_same store.installed
      | write => exact List.prefix_append _ _
      | chain => exact List.prefix_refl _
      | version => exact List.prefix_refl _
  | background event =>
      obtain ⟨shared, ran, rfl⟩ := Component.step_background moved
      cases event with
      | openLog who => exact prefix_of_same (event_cached ran who).1.installed
      | loglet loglet event =>
          obtain ⟨_, _, rfl⟩ := Option.map_eq_some_iff.mp ran
          exact List.prefix_refl _
      | factory error =>
          cases ran
          exact List.prefix_refl _

theorem Tracked.run {component : LogletComponent State Fut Event} {factory : Factory}
    {later : Logs Node State Fut} (tracked : system.Tracked node floor)
    (run : (virtualLogComponent factory component).machine.Run (Untangled node) system later) :
    later.Tracked node floor :=
  run.invariant (fun later => Tracked node floor later) tracked
    fun _ _ _ tracked untangled moved => tracked.step untangled moved

/-- Both cached pairs are ones that the MetaStore held, the later one not before the
earlier one. -/
structure KeepsUp (node : Node) (earlier later : Logs Node State Fut) : Prop where
  history : earlier.shared.installed <+: later.shared.installed
  before : earlier.shared.installed[(earlier.shared.logs node).chainVersion]? =
    some (earlier.shared.logs node).chain
  after : later.shared.installed[(later.shared.logs node).chainVersion]? =
    some (later.shared.logs node).chain
  onwards : (earlier.shared.logs node).chainVersion ≤ (later.shared.logs node).chainVersion

/-- Whenever no task is inside a reconfiguration, an instance keeps up with the MetaStore,
if its tasks write chains and versions in the same order. -/
theorem keeps_up_of_untangled {component : LogletComponent State Fut Event} {factory : Factory}
    {initial : String} {state : State} {node : Node} {earlier later : Logs Node State Fut}
    (before : (virtualLogComponent factory component).machine.Run (Untangled node)
      (.fresh (Cluster.new initial state)) earlier) (calm : earlier.Calm node)
    (after : (virtualLogComponent factory component).machine.Run (Untangled node) earlier later)
    (calm' : later.Calm node) : KeepsUp node earlier later := by
  have tracked := (tracked_new initial state node).run before
  have tracked' := (tracked.raise calm).run after
  refine ⟨?_, tracked.coherent calm, tracked'.coherent calm', tracked'.reached⟩
  exact after.invariant (fun later => earlier.shared.installed <+: later.shared.installed)
    (List.prefix_refl _) fun _ _ _ grown _ moved => grown.trans (installed_step moved)

instance (future : VirtualLog.Future Fut) : Decidable future.WritesVersion := by
  cases future <;> unfold Future.WritesVersion <;> infer_instance

instance (cluster : Cluster Node State) (node : Node) :
    (call : Call (Node × LogletOp) (VirtualLog.Future Fut) LogletResult) →
      Decidable (Publishing cluster node call)
  | ⟨_, .finished _⟩ => isFalse id
  | ⟨call, .running (.installVersion version)⟩ =>
      inferInstanceAs (Decidable (call.1 = node ∧
        cluster.installed[version]? = some (cluster.logs node).chain))
  | ⟨_, .running (.activeChain _)⟩ | ⟨_, .running (.activeLoglet _ _ _)⟩
  | ⟨_, .running (.append _ _ _)⟩ | ⟨_, .running (.checkTail _ _ _)⟩
  | ⟨_, .running (.seal _ _ _)⟩ | ⟨_, .running (.reconfigureSeal _ _ _)⟩
  | ⟨_, .running (.reconfigureVersion _ _ _)⟩ | ⟨_, .running (.reconfigureChain _ _ _ _)⟩
  | ⟨_, .running (.reconfigureWrite _ _ _ _ _)⟩ | ⟨_, .running (.reconfigureCreate _ _ _)⟩
  | ⟨_, .running (.reconfigureInsert _ _ _ _)⟩ | ⟨_, .running .syncRead⟩
  | ⟨_, .running (.syncLoglets _ _ _)⟩ | ⟨_, .running (.installChain _ _)⟩
  | ⟨_, .running (.readChain _)⟩ | ⟨_, .running (.readLoglets _ _)⟩
  | ⟨_, .running (.read _ _ _)⟩ | ⟨_, .running (.trimChain _)⟩
  | ⟨_, .running (.trimSegments _ _)⟩ | ⟨_, .running (.trim _ _ _ _ _)⟩ => isFalse id

instance (node : Node) (system : Logs Node State Fut)
    (action : Action (Node × LogletOp) (ClusterEvent Node Event)) :
    Decidable (Untangled node system action) :=
  match action with
  | .start _ => isTrue trivial
  | .poll index => inferInstanceAs (Decidable (Call.Meets (fun call future => call.1 = node →
      future.WritesVersion → ∃ call ∈ system.calls, Publishing system.shared node call)
        system.calls[index]?))
  | .background (.openLog other) => inferInstanceAs (Decidable (other = node →
      ∀ call ∈ system.calls, call.op.1 = node → call.isReturned = true))
  | .background (.loglet _ _) => isTrue trivial
  | .background (.factory _) => isTrue trivial

end Logs

namespace MemoryLogs

open Logs

theorem calm_of_returned {Node : Type} {system : MemoryLogs Node}
    (returned : system.calls.all Call.isReturned = true) (node : Node) : Logs.Calm system node := by
  intro call member _
  have ended := List.all_eq_true.mp returned call member
  obtain ⟨op, progress⟩ := call
  cases progress with
  | finished result => trivial
  | running future => cases ended

/-- One instance has reconfigured. -/
def otherReconfigured : List (MemoryLogsAction Bool) :=
  [.start (true, .seal)] ++ polls 0 3 ++ [.start (true, .append (.new [1]))] ++ polls 1 16

/-- Two tasks of the other instance find the loglet sealed, and their writes of the same
pair interleave. -/
def syncedTwice : List (MemoryLogsAction Bool) :=
  ([.start (false, .append (.new [2])), .start (false, .append (.new [3]))] :
      List (MemoryLogsAction Bool)) ++ polls 2 13 ++ polls 3 13 ++
    ([.poll 2, .poll 3, .poll 2, .poll 3] : List (MemoryLogsAction Bool)) ++ polls 2 3 ++ polls 3 3

set_option maxRecDepth 10000 in
theorem keeps_up_syncedTwice : ∃ earlier later : MemoryLogs Bool,
    (earlier.shared.logs false).chainVersion = 0 ∧ (later.shared.logs false).chainVersion = 1 ∧
    Logs.KeepsUp false earlier later := by
  obtain ⟨earlier, later, before, after, seen, seen'⟩ := Machine.exists_runs_of_execute
    (memoryLogs Bool .shared) (Untangled false) (new Bool "memory-0") otherReconfigured
    syncedTwice
    (fun system => (system.calls.all Call.isReturned, (system.shared.logs false).chainVersion))
    (true, 0) (true, 1) (by decide)
  obtain ⟨returned, version⟩ := Prod.mk.inj seen
  obtain ⟨returned', version'⟩ := Prod.mk.inj seen'
  exact ⟨earlier, later, version, version', keeps_up_of_untangled before
    (calm_of_returned returned false) after (calm_of_returned returned' false)⟩

/-- A task that is about to write the chain of version 1 stops until another task has
reconfigured to version 2. It writes its chain first, and its version last. -/
def mixedWrites : List (MemoryLogsAction Unit) :=
  ([.start ((), .seal)] : List (MemoryLogsAction Unit)) ++ polls 0 3 ++
    ([.start ((), .append (.new [1])), .start ((), .append (.new [2]))] :
      List (MemoryLogsAction Unit)) ++ polls 1 11 ++ polls 2 18 ++
    ([.start ((), .seal)] : List (MemoryLogsAction Unit)) ++ polls 3 3 ++
    ([.start ((), .append (.new [3]))] : List (MemoryLogsAction Unit)) ++ polls 4 11 ++ polls 1 1 ++
    polls 4 2 ++ polls 1 4 ++ polls 4 3

set_option maxRecDepth 10000 in
theorem not_keeps_up : ¬ ∀ system, (memoryLogs Unit .fresh).Run Tasks (new Unit "memory-0") system →
    Logs.Calm system () → system.shared.installed[(system.shared.logs ()).chainVersion]? =
      some (system.shared.logs ()).chain := by
  intro coherent
  obtain ⟨system, run, seen⟩ := Machine.exists_run_of_execute (memoryLogs Unit .fresh) Tasks
    (new Unit "memory-0") mixedWrites
    (fun system => (system.calls.all Call.isReturned,
      decide (system.shared.installed[(system.shared.logs ()).chainVersion]? =
        some (system.shared.logs ()).chain))) (true, false) (by decide)
  obtain ⟨returned, differs⟩ := Prod.mk.inj seen
  exact of_decide_eq_false differs (coherent system run (calm_of_returned returned ()))

end MemoryLogs

end Relos
