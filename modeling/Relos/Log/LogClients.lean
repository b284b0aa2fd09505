import Relos.Async.Clients
import Relos.Log.ClusterSteps

set_option autoImplicit false

/-! Instances that run one operation at a time, over a factory that shares
loglets. What an instance caches changes only under its own operation, so its
reconfigurations close the segment that they sealed. -/

namespace Relos

open Async Epochs

namespace VirtualLog

/-- The cached chain is the one of the cached version. -/
def Paired (log : VirtualLog) : Prop := log.chain.segments.length = log.chainVersion + 1

/-- What an operation that runs alone knows of its own instance. -/
def Busy {Fut : Type} (log : VirtualLog) : Future Fut → Prop
  | .activeLoglet _ startPos logletId =>
      log.Paired ∧ lastSegment log.chain.segments = some (logletId, startPos)
  | .reconfigureSeal loglet startPos _ =>
      log.Paired ∧ lastSegment log.chain.segments = some (loglet.logletId, startPos)
  | .reconfigureVersion loglet startPos _ =>
      log.Paired ∧ lastSegment log.chain.segments = some (loglet.logletId, startPos)
  | .reconfigureChain loglet startPos _ version => log.Paired ∧ version = log.chainVersion ∧
      lastSegment log.chain.segments = some (loglet.logletId, startPos)
  | .reconfigureWrite loglet startPos version newChain _ =>
      log.Paired ∧ version = log.chainVersion ∧
      lastSegment newChain.segments.dropLast = some (loglet.logletId, startPos)
  | .reconfigureCreate version _ _ => log.Paired ∧ version = log.chainVersion
  | .reconfigureInsert version _ _ _ => log.Paired ∧ version = log.chainVersion
  | .syncLoglets _ _ newVersion => log.Paired ∧ log.chainVersion ≤ newVersion
  | .installChain _ newVersion => log.Paired ∧ log.chainVersion ≤ newVersion
  | .installVersion newVersion => log.chain.segments.length = newVersion + 1
  | _ => log.Paired

variable {Node State Fut Event : Type} {component : LogletComponent State Fut Event}
  {outline : LogletOutline component} {factory : Factory} {initial : String}
  {cluster next : Cluster Node State} {index : Nat} {call : Node × LogletOp}
  {progress : Progress (Future Fut) LogletResult}

theorem await_logs {loglet : LogletRef} {op : LogletOp} {future : Fut}
    {pending : Fut → Future Fut} {resume : LogletResult → Option (Progress (Future Fut) LogletResult)}
    (polled : await component cluster index loglet op future pending resume =
      some (next, progress)) : next.logs = cluster.logs := by
  obtain ⟨_, _, _, rfl, _⟩ := await_cases polled
  rfl

/-- A loglet call leads to states of the caller that know only that the pair is intact. -/
theorem await_busy {loglet : LogletRef} {op : LogletOp} {future : Fut}
    {pending : Fut → Future Fut} {resume : LogletResult → Option (Progress (Future Fut) LogletResult)}
    (polled : await component cluster index loglet op future pending resume =
      some (next, progress)) {node : Node}
    (suspended : ∀ later, Busy (cluster.logs node) (pending later))
    (resumed : ∀ result answer, resume result = some answer →
      answer.Holds (Busy (cluster.logs node)) fun _ => (cluster.logs node).Paired) :
    progress.Holds (Busy (next.logs node)) fun _ => (next.logs node).Paired := by
  rw [await_logs polled]
  obtain ⟨_, _, _, _, ⟨later, _, rfl⟩ | ⟨result, _, answered⟩⟩ := await_cases polled
  · exact suspended later
  · exact resumed result progress answered

theorem installable_length {node : Node} {newChain : LogChain} {version : Nat}
    (installable : Installable initial cluster node newChain version) :
    newChain.segments.length = version + 1 := by
  obtain ⟨inside, rfl, _⟩ := installable
  rw [chainOf_length, List.length_take, Nat.min_eq_left inside]

/-- An operation that runs alone on its instance reconfigures coherently, if it
inserts no loglet over another one. -/
theorem coherent_of_busy {future : Future Fut}
    (running : Knows outline factory initial cluster index call future)
    (busy : Busy (cluster.logs call.1) future)
    (inserts : ∀ version newChain newLogletId newLoglet,
      future = .reconfigureInsert version newChain newLogletId newLoglet →
      ∀ held, cluster.Holds call.1 newLogletId held → held = newLoglet) :
    Coherent cluster call.1 future := by
  cases future with
  | reconfigureWrite loglet startPos version newChain newLogletId => exact fun _ => busy.2.2
  | reconfigureInsert version newChain newLogletId newLoglet => exact inserts _ _ _ _ rfl
  | installChain newChain newVersion =>
      have length := installable_length running.2
      have paired : (cluster.logs call.1).chain.segments.length =
        (cluster.logs call.1).chainVersion + 1 := busy.1
      have forward := busy.2
      change (cluster.logs call.1).chain.segments.length ≤ newChain.segments.length
      omega
  | activeChain | activeLoglet | append | checkTail | «seal» | reconfigureSeal | reconfigureVersion
  | reconfigureChain | reconfigureCreate | syncRead | syncLoglets | installVersion | readChain
  | readLoglets | read | trimChain | trimSegments | trim => trivial

/-- A shared factory gives the same loglet for the same id. -/
theorem coherent_of_shared (inv : cluster.Inv outline .shared initial) {future : Future Fut}
    (running : Knows outline .shared initial cluster index call future)
    (busy : Busy (cluster.logs call.1) future) : Coherent cluster call.1 future := by
  refine coherent_of_busy running busy ?_
  rintro version newChain newLogletId newLoglet rfl held holds
  obtain ⟨_, _, named, first⟩ := running
  obtain ⟨named', first', _⟩ := inv.known call.1 newLogletId held holds
  cases held
  cases newLoglet
  cases named
  cases named'
  cases first rfl
  cases first' rfl
  rfl

variable [DecidableEq Node]

/-- A call that is not appending leaves every cached chain and the MetaStore alone. -/
theorem poll_logs_plain (plain : ¬ call.2.IsAppend) {future : Future Fut}
    (running : Knows outline factory initial cluster index call future)
    (polled : poll factory component cluster index call future = some (next, progress)) :
    next.logs = cluster.logs ∧ next.metaStore = cluster.metaStore := by
  have awaited : ∀ {loglet : LogletRef} {op : LogletOp} {fut : Fut} {pending : Fut → Future Fut}
      {resume : LogletResult → Option (Progress (Future Fut) LogletResult)},
      await component cluster index loglet op fut pending resume = some (next, progress) →
      next.logs = cluster.logs ∧ next.metaStore = cluster.metaStore := by
    intro loglet op fut pending resume moved
    obtain ⟨_, _, _, rfl, _⟩ := await_cases moved
    exact ⟨rfl, rfl⟩
  cases future with
  | activeChain caller =>
      simp only [poll] at polled
      split at polled <;> cases polled <;> exact ⟨rfl, rfl⟩
  | activeLoglet caller startPos logletId =>
      simp only [poll] at polled
      split at polled <;> cases polled <;> exact ⟨rfl, rfl⟩
  | append | reconfigureSeal | reconfigureVersion | reconfigureChain | reconfigureWrite
  | reconfigureCreate | reconfigureInsert | syncLoglets | installChain | installVersion =>
      exact absurd running.1 plain
  | syncRead => exact absurd running plain
  | checkTail loglet startPos future => exact awaited polled
  | «seal» loglet startPos future => exact awaited polled
  | readChain globalPos =>
      simp only [poll] at polled
      split at polled <;> cases polled <;> exact ⟨rfl, rfl⟩
  | readLoglets localPos logletId =>
      simp only [poll] at polled
      split at polled <;> cases polled <;> exact ⟨rfl, rfl⟩
  | read loglet localPos future => exact awaited polled
  | trimChain globalPos =>
      cases polled
      exact ⟨rfl, rfl⟩
  | trimSegments globalPos todo =>
      cases todo with
      | nil =>
          cases polled
          exact ⟨rfl, rfl⟩
      | cons segment todo =>
          simp only [poll] at polled
          split at polled
          · split at polled <;> cases polled <;> exact ⟨rfl, rfl⟩
          · cases polled
            exact ⟨rfl, rfl⟩
  | trim globalPos loglet localPos future todo => exact awaited polled

theorem poll_logs_other {future : Future Fut} {who : Node}
    (polled : poll factory component cluster index call future = some (next, progress))
    (stranger : who ≠ call.1) : next.logs who = cluster.logs who := by
  cases future with
  | append loglet startPos future => rw [await_logs polled]
  | checkTail loglet startPos future => rw [await_logs polled]
  | «seal» loglet startPos future => rw [await_logs polled]
  | reconfigureSeal loglet startPos future => rw [await_logs polled]
  | read loglet localPos future => rw [await_logs polled]
  | trim globalPos loglet localPos future todo => rw [await_logs polled]
  | activeChain | activeLoglet | reconfigureVersion | reconfigureChain | reconfigureWrite
  | reconfigureCreate | reconfigureInsert | syncRead | syncLoglets | installChain | installVersion
  | readChain | readLoglets | trimChain | trimSegments =>
      exact (poll_local polled trivial).2 who stranger

theorem setLog_self (node : Node) (log : VirtualLog) : (cluster.setLog node log).logs node = log :=
  Function.update_self ..

theorem busy_paired {log : VirtualLog} {future : Future Fut} (busy : Busy log future)
    (whole : ∀ newVersion, future ≠ .installVersion newVersion) : log.Paired := by
  cases future with
  | installVersion newVersion => exact absurd rfl (whole newVersion)
  | activeLoglet | reconfigureSeal | reconfigureVersion | reconfigureChain | reconfigureWrite
  | reconfigureCreate | reconfigureInsert | syncLoglets | installChain => exact busy.1
  | activeChain | append | checkTail | «seal» | syncRead | readChain | readLoglets | read
  | trimChain | trimSegments | trim => exact busy

theorem resumeAppend_busy {log : VirtualLog} (paired : log.Paired) {startPos : Nat}
    {result : LogletResult} (resumed : resumeAppend startPos result = some progress) :
    progress.Holds (Busy log) fun _ => log.Paired := by
  unfold resumeAppend at resumed
  split at resumed <;> cases resumed <;> exact paired

theorem resumeGlobal_busy {log : VirtualLog} (paired : log.Paired) {startPos : Nat}
    {result : LogletResult} (resumed : resumeGlobal startPos result = some progress) :
    progress.Holds (Busy log) fun _ => log.Paired := by
  rcases resumeGlobal_cases resumed with ⟨_, _, rfl⟩ | ⟨_, _, rfl⟩ <;> exact paired

theorem resumeReconfigure_busy {log : VirtualLog} {loglet : LogletRef} {startPos : Nat}
    (busy : log.Paired ∧ lastSegment log.chain.segments = some (loglet.logletId, startPos))
    {result : LogletResult} (resumed : resumeReconfigure loglet startPos result = some progress) :
    progress.Holds (Busy log) fun _ => log.Paired := by
  unfold resumeReconfigure at resumed
  split at resumed
  · cases resumed
    exact busy
  · cases resumed
    exact busy.1
  · cases resumed

theorem resumeTrim_busy {log : VirtualLog} (paired : log.Paired) {globalPos : Nat}
    {todo : List ChainSegment} {result : LogletResult}
    (resumed : resumeTrim globalPos todo result = some progress) :
    progress.Holds (Busy log) fun _ => log.Paired := by
  cases result with
  | ok value =>
      cases resumed
      exact paired
  | error error =>
      cases resumed
      exact paired

theorem poll_busy (inv : cluster.Inv outline factory initial) {future : Future Fut}
    (running : Knows outline factory initial cluster index call future)
    (polled : poll factory component cluster index call future = some (next, progress))
    (busy : Busy (cluster.logs call.1) future) :
    progress.Holds (Busy (next.logs call.1)) fun _ => (next.logs call.1).Paired := by
  cases future with
  | activeChain caller =>
      simp only [poll] at polled
      rw [inv.cached call.1, activeSegment_chainOf] at polled
      cases polled
      refine ⟨busy, ?_⟩
      rw [inv.cached call.1, lastSegment_chainOf]
  | activeLoglet caller startPos logletId =>
      simp only [poll] at polled
      split at polled
      · cases polled
        exact busy.1
      · rename_i loglet found
        have named := (inv.known call.1 logletId loglet found).1
        cases polled
        cases caller with
        | reconfigure => exact ⟨busy.1, by rw [named]; exact busy.2⟩
        | append | checkTail | «seal» => exact busy.1
  | append loglet startPos future =>
      exact await_busy polled (fun _ => busy) fun _ _ => resumeAppend_busy busy
  | checkTail loglet startPos future =>
      exact await_busy polled (fun _ => busy) fun _ _ => resumeGlobal_busy busy
  | «seal» loglet startPos future =>
      exact await_busy polled (fun _ => busy) fun _ _ => resumeGlobal_busy busy
  | reconfigureSeal loglet startPos future =>
      exact await_busy polled (fun _ => busy) fun _ _ => resumeReconfigure_busy busy
  | reconfigureVersion loglet startPos globalSealPos =>
      cases polled
      exact ⟨busy.1, rfl, busy.2⟩
  | reconfigureChain loglet startPos globalSealPos version =>
      cases polled
      refine ⟨busy.1, busy.2.1, ?_⟩
      rw [lastSegment_extend]
      exact busy.2.2
  | reconfigureWrite loglet startPos version newChain newLogletId =>
      simp only [poll] at polled
      split at polled
      · cases polled
        exact ⟨busy.1, busy.2.1⟩
      · cases polled
        exact busy.1
  | reconfigureCreate version newChain newLogletId =>
      simp only [poll] at polled
      split at polled
      · cases polled
        exact busy.1
      · rename_i created
        cases polled
        rw [create_logs created]
        exact busy
  | reconfigureInsert version newChain newLogletId newLoglet =>
      cases polled
      unfold Cluster.insertLoglet
      rw [setLog_self]
      exact ⟨busy.1, Nat.le_succ_of_le (Nat.le_of_eq busy.2.symm)⟩
  | syncRead =>
      cases polled
      refine ⟨busy, ?_⟩
      rw [inv.version]
      exact Nat.le_trans (inv.version_le call.1) (inv.epoch_le call.1)
  | syncLoglets todo newChain newVersion =>
      cases todo with
      | nil =>
          cases polled
          exact busy
      | cons segment todo =>
          simp only [poll] at polled
          split at polled
          · cases polled
            exact busy
          · split at polled
            · cases polled
              exact busy.1
            · rename_i created
              cases polled
              unfold Cluster.insertLoglet
              rw [setLog_self, create_logs created]
              exact busy
  | installChain newChain newVersion =>
      cases polled
      unfold Cluster.setChain
      rw [setLog_self]
      exact installable_length running.2
  | installVersion newVersion =>
      cases polled
      unfold Cluster.setVersion
      rw [setLog_self]
      exact busy
  | readChain globalPos =>
      simp only [poll] at polled
      split at polled <;> cases polled <;> exact busy
  | readLoglets localPos logletId =>
      simp only [poll] at polled
      split at polled <;> cases polled <;> exact busy
  | read loglet localPos future =>
      refine await_busy polled (fun _ => busy) fun _ _ resumed => ?_
      cases resumed
      exact busy
  | trimChain globalPos =>
      cases polled
      exact busy
  | trimSegments globalPos todo =>
      cases todo with
      | nil =>
          cases polled
          exact busy
      | cons segment todo =>
          simp only [poll] at polled
          split at polled
          · split at polled <;> cases polled <;> exact busy
          · cases polled
            exact busy
  | trim globalPos loglet localPos future todo =>
      exact await_busy polled (fun _ => busy) fun _ _ => resumeTrim_busy busy

/-! ### The private outline -/

def touches : ClusterEvent Node Event → Option Node
  | .openLog node => some node
  | .loglet _ _ => none
  | .factory _ => none

theorem event_logs (inv : cluster.Inv outline .shared initial) {event : ClusterEvent Node Event}
    (ran : (virtualLogComponent .shared component).background cluster event = some next) {who : Node}
    (untouched : touches event ≠ some who) : next.logs who = cluster.logs who := by
  cases event with
  | loglet loglet event =>
      obtain ⟨_, _, rfl⟩ := Option.map_eq_some_iff.mp ran
      rfl
  | openLog node =>
      cases ran
      unfold Cluster.openLog
      split
      · rfl
      · rename_i created
        obtain ⟨rfl, _⟩ := createAll_shared _ _ created
        exact Function.update_of_ne (fun same => untouched (congrArg some same.symm)) ..
  | factory error =>
      cases ran
      rfl

theorem event_paired (inv : cluster.Inv outline .shared initial) {event : ClusterEvent Node Event}
    (ran : (virtualLogComponent .shared component).background cluster event = some next) {who : Node}
    (touched : touches event = some who) (paired : (cluster.logs who).Paired) :
    (next.logs who).Paired := by
  cases event with
  | loglet loglet event => cases touched
  | openLog node =>
      cases touched
      cases ran
      unfold Cluster.openLog
      split
      · exact paired
      · rw [setLog_self]
        unfold Paired
        simp only
        rw [inv.chain, inv.version, chainOf_length]
  | factory error => cases touched

/-- Every operation belongs to the instance it runs on. -/
def instanceOf (call : Node × LogletOp) : Option Node := some call.1

variable (Node) in
/-- What each instance holds for itself between its operations. -/
def logClients (outline : LogletOutline component) (initial : String) :
    PrivateOutline (virtualLogOutline Node outline .shared initial) instanceOf touches where
  Local := VirtualLog
  view cluster := cluster.logs
  Idle := Paired
  Busy log _ future := Busy log future
  PollOk _ _ _ := True
  begin_busy := by
    intro log call paired
    obtain ⟨node, op⟩ := call
    cases op <;> exact paired
  poll_busy := by
    intro cluster index call future next progress who mine inv running _ polled busy
    cases mine
    exact poll_busy inv running.1 polled busy
  poll_frame := by
    intro cluster index call future next progress who stranger _ polled
    exact poll_logs_other polled fun same => stranger (congrArg some same.symm)
  event_frame inv _ ran untouched := event_logs inv ran untouched
  event_idle inv _ ran touched paired := event_paired inv ran touched paired

theorem logClients_permit
    {system : System (Cluster Node State) (Node × LogletOp) (Future Fut) LogletResult}
    (action : Action (Node × LogletOp) (ClusterEvent Node Event)) :
    (logClients Node outline initial).permit system action := by
  cases action with
  | poll index => exact fun _ _ _ => trivial
  | start | background => trivial

end VirtualLog

end Relos
