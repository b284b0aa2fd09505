import Relos.Log.CachedChain
import Relos.Log.ClusterOutline
import Relos.Log.Positions
import Mathlib.Data.List.Nodup

set_option autoImplicit false

/-! Every chain that is stored, cached or about to be has the first id and then the generated
ones, whatever the interleaving. So a first id that is not a generated one makes every new
id a new one. -/

namespace Relos

open Async Epochs

variable {Node State Fut Event : Type}

/-- The segments have the first id, and then the generated ones. -/
structure LogChain.Numbered (initial : String) (chain : LogChain) : Prop where
  nonempty : chain.segments ≠ []
  ids : chain.ids = (List.range chain.segments.length).map (idAt initial)

namespace LogChain

variable {initial : String} {chain : LogChain}

theorem Numbered.new (initial : String) : (LogChain.new initial).Numbered initial :=
  ⟨List.cons_ne_nil _ _, rfl⟩

theorem Numbered.generated (numbered : chain.Numbered initial) :
    generateLogletId chain = idAt initial chain.segments.length := by
  obtain ⟨count, same⟩ := Nat.exists_eq_succ_of_ne_zero
    (Nat.ne_of_gt (List.length_pos_of_ne_nil numbered.nonempty))
  unfold generateLogletId
  rw [same]
  rfl

theorem Numbered.extend (numbered : chain.Numbered initial) (sealPos : Nat) :
    (chain.extend sealPos (generateLogletId chain)).Numbered initial := by
  have ids := chain.extend_ids sealPos (generateLogletId chain)
  have length : (chain.extend sealPos (generateLogletId chain)).segments.length =
      chain.segments.length + 1 := by
    have counted := congrArg List.length ids
    unfold LogChain.ids at counted
    rw [List.length_map, List.length_append, List.length_map] at counted
    exact counted
  refine ⟨List.ne_nil_of_length_pos (by rw [length]; exact Nat.succ_pos _), ?_⟩
  rw [ids, length, List.range_succ, List.map_append, ← numbered.ids, numbered.generated]
  rfl

theorem Numbered.distinct (numbered : chain.Numbered initial)
    (foreign : ∀ index, initial ≠ generatedId (index + 1)) : chain.ids.Nodup := by
  rw [numbered.ids]
  exact List.Nodup.map (fun _ _ same => idAt_injective foreign same) List.nodup_range

end LogChain

namespace VirtualLog

/-- The chain that a task is about to store. -/
def Future.Writes (Good : LogChain → Prop) : Future Fut → Prop
  | .reconfigureWrite _ _ _ newChain _ => Good newChain
  | _ => True

section Polls

variable {Good : LogChain → Prop} {component : LogletComponent State Fut Event}
  {factory : Factory} {cluster next : Cluster Node State} {node : Node} {index : Nat}
  {op : LogletOp} {future later : Future Fut} {progress : Progress (Future Fut) LogletResult}

theorem writes_suspended (polled : suspend cluster later = some (next, progress))
    (writes : later.Writes Good) : progress.Holds (Future.Writes Good) fun _ => True := by
  cases polled
  exact writes

theorem writes_ended {result : LogletResult}
    (polled : finish cluster result = some (next, progress)) :
    progress.Holds (Future.Writes Good) fun _ => True := by
  cases polled
  trivial

/-- Nothing that a call to a loglet resumes with stores a chain. -/
theorem writes_awaited {loglet : LogletRef} {callee : LogletOp} {inner : Fut}
    {pending : Fut → Future Fut}
    {resume : LogletResult → Option (Progress (Future Fut) LogletResult)}
    (polled : await component cluster index loglet callee inner pending resume =
      some (next, progress)) (waits : ∀ inner, (pending inner).Writes Good)
    (resumed : ∀ result progress, resume result = some progress →
      progress.Holds (Future.Writes Good) fun _ => True) :
    progress.Holds (Future.Writes Good) fun _ => True := by
  obtain ⟨_, _, _, _, ⟨later, _, rfl⟩ | ⟨result, _, answered⟩⟩ := await_cases polled
  · exact waits later
  · exact resumed result progress answered

/-- A task comes to store a chain only by extending the cached one. -/
theorem poll_writes [DecidableEq Node]
    (extended : ∀ sealPos, Good ((cluster.logs node).chain.extend sealPos
      (generateLogletId (cluster.logs node).chain)))
    (polled : poll factory component cluster index (node, op) future = some (next, progress)) :
    progress.Holds (Future.Writes Good) fun _ => True := by
  cases future with
  | activeChain caller =>
      dsimp only [poll] at polled
      split at polled
      · exact writes_ended polled
      · exact writes_suspended polled trivial
  | activeLoglet caller startPos logletId =>
      dsimp only [poll] at polled
      split at polled
      · exact writes_ended polled
      · refine writes_suspended polled ?_
        cases caller <;> trivial
  | append loglet startPos inner =>
      refine writes_awaited polled (fun _ => trivial) fun result progress resumed => ?_
      unfold resumeAppend at resumed
      split at resumed <;> cases resumed <;> trivial
  | checkTail loglet startPos inner | «seal» loglet startPos inner =>
      refine writes_awaited polled (fun _ => trivial) fun result progress resumed => ?_
      unfold resumeGlobal at resumed
      split at resumed <;> cases resumed <;> trivial
  | reconfigureSeal loglet startPos inner =>
      refine writes_awaited polled (fun _ => trivial) fun result progress resumed => ?_
      unfold resumeReconfigure at resumed
      split at resumed <;> cases resumed <;> trivial
  | reconfigureChain loglet startPos globalSealPos version =>
      exact writes_suspended polled (extended globalSealPos)
  | reconfigureWrite loglet startPos version newChain newLogletId =>
      dsimp only [poll] at polled
      split at polled <;> exact writes_suspended polled trivial
  | reconfigureCreate version newChain newLogletId =>
      dsimp only [poll] at polled
      split at polled
      · exact writes_ended polled
      · exact writes_suspended polled trivial
  | syncLoglets todo newChain newVersion =>
      cases todo with
      | nil => exact writes_suspended polled trivial
      | cons segment todo =>
          dsimp only [poll] at polled
          split at polled
          · exact writes_suspended polled trivial
          · split at polled
            · exact writes_ended polled
            · exact writes_suspended polled trivial
  | reconfigureVersion | reconfigureInsert | syncRead | installChain | installVersion
  | trimChain => exact writes_suspended polled trivial
  | readChain globalPos =>
      dsimp only [poll] at polled
      split at polled
      · exact writes_ended polled
      · exact writes_suspended polled trivial
  | readLoglets localPos logletId =>
      dsimp only [poll] at polled
      split at polled
      · exact writes_ended polled
      · exact writes_suspended polled trivial
  | read loglet localPos inner =>
      refine writes_awaited polled (fun _ => trivial) ?_
      rintro result progress ⟨⟩
      trivial
  | trimSegments globalPos todo =>
      cases todo with
      | nil => exact writes_ended polled
      | cons segment todo =>
          dsimp only [poll] at polled
          split at polled
          · split at polled <;> exact writes_suspended polled trivial
          · exact writes_suspended polled trivial
  | trim globalPos loglet localPos inner todo =>
      refine writes_awaited polled (fun _ => trivial) fun result progress resumed => ?_
      unfold resumeTrim at resumed
      split at resumed <;> cases resumed <;> trivial

end Polls

end VirtualLog

open VirtualLog

namespace Logs

/-- The polled reconfiguration gives its segment a new id. -/
def Anew (system : Logs Node State Fut) : Action (Node × LogletOp) (ClusterEvent Node Event) → Prop
  | .poll index => Call.Meets (fun _ future => NamesAnew system.shared future) system.calls[index]?
  | .start _ | .background _ => True

instance (system : Logs Node State Fut)
    (action : Action (Node × LogletOp) (ClusterEvent Node Event)) : Decidable (system.Anew action) :=
  match action with
  | .poll index => inferInstanceAs (Decidable (Call.Meets
      (fun _ future => NamesAnew system.shared future) system.calls[index]?))
  | .start _ | .background _ => isTrue trivial

/-- The steps of these that give new ids. -/
abbrev UnderNewIds
    (permit : Logs Node State Fut → Action (Node × LogletOp) (ClusterEvent Node Event) → Prop)
    (system : Logs Node State Fut) (action : Action (Node × LogletOp) (ClusterEvent Node Event)) :
    Prop :=
  permit system action ∧ system.Anew action

theorem Anew.of_pending {system : Logs Node State Fut} {index : Nat} {call : Node × LogletOp}
    {future : VirtualLog.Future Fut}
    (anew : system.Anew (.poll index : Action (Node × LogletOp) (ClusterEvent Node Event)))
    (pending : system.Pending index call future) : NamesAnew system.shared future := by
  unfold System.Pending at pending
  simp only [Anew, pending] at anew
  exact anew

/-- No two segments of the stored chain have one id. -/
def DistinctIds (system : Logs Node State Fut) : Prop := system.shared.metaStore.chain.ids.Nodup

/-- All chains of the system have numbered segments. -/
structure Numbered (initial : String) (system : Logs Node State Fut) : Prop where
  stored : system.shared.metaStore.chain.Numbered initial
  cached : ∀ node, (system.shared.logs node).chain.Numbered initial
  carried : ∀ call ∈ system.calls, call.progress.Holds
    (Future.Carries fun chain _ => chain.Numbered initial) fun _ => True
  written : ∀ call ∈ system.calls, call.progress.Holds
    (Future.Writes (LogChain.Numbered initial)) fun _ => True

theorem numbered_new (initial : String) (state : State) :
    Numbered initial (.fresh (.new initial state) : Logs Node State Fut) where
  stored := .new initial
  cached _ := .new initial
  carried _ impossible := absurd impossible List.not_mem_nil
  written _ impossible := absurd impossible List.not_mem_nil

variable {component : LogletComponent State Fut Event} {factory : Factory} {initial : String}
  {state : State} {system next : Logs Node State Fut}

theorem Numbered.start (numbered : system.Numbered initial) (call : Node × LogletOp) :
    Numbered initial { system with
      calls := system.calls ++ [⟨call, .running (VirtualLog.begin call.2)⟩] } := by
  refine ⟨numbered.stored, numbered.cached,
    List.forall_mem_append.mpr ⟨numbered.carried, List.forall_mem_singleton.mpr ?_⟩,
    List.forall_mem_append.mpr ⟨numbered.written, List.forall_mem_singleton.mpr ?_⟩⟩
  · cases call.2 <;> trivial
  · cases call.2 <;> trivial

theorem Numbered.anew (numbered : system.Numbered initial)
    (foreign : ∀ index, initial ≠ generatedId (index + 1))
    (action : Action (Node × LogletOp) (ClusterEvent Node Event)) : system.Anew action := by
  cases action with
  | start | background => trivial
  | poll index =>
      change Call.Meets (fun _ future => NamesAnew system.shared future) system.calls[index]?
      cases pending : system.calls[index]? with
      | none => trivial
      | some call =>
          obtain ⟨who, progress⟩ := call
          cases progress with
          | finished result => trivial
          | running future =>
              have written : future.Writes (LogChain.Numbered initial) :=
                numbered.written _ (List.mem_of_getElem? pending)
              cases future with
              | reconfigureWrite loglet startPos version newChain newLogletId =>
                  exact fun _ => written.distinct foreign
              | _ => trivial

variable [DecidableEq Node]

theorem Numbered.poll (numbered : system.Numbered initial) {index : Nat} {node : Node}
    {op : LogletOp} {future : VirtualLog.Future Fut} {shared : Cluster Node State}
    {progress : Progress (VirtualLog.Future Fut) LogletResult}
    (pending : system.Pending index (node, op) future)
    (polled : VirtualLog.poll factory component system.shared index (node, op) future =
      some (shared, progress)) :
    Numbered initial ⟨shared, system.calls.set index ⟨(node, op), progress⟩⟩ := by
  have member := List.mem_of_getElem? pending
  have carries : future.Carries fun chain _ => chain.Numbered initial := numbered.carried _ member
  have written : progress.Holds (Future.Writes (LogChain.Numbered initial)) fun _ => True :=
    poll_writes (fun sealPos => (numbered.cached node).extend sealPos) polled
  have effect : Effect system.shared node future shared progress := poll_effect polled
  cases effect with
  | kept calm same cached carried =>
      refine ⟨?_, fun other => ?_, forall_mem_set numbered.carried index
        (carried _ carries numbered.stored), forall_mem_set numbered.written index written⟩
      · rw [same.metaStore]
        exact numbered.stored
      · have kept : (shared.logs other).chain = (system.shared.logs other).chain :=
          congrArg Prod.fst (cached other)
        change (shared.logs other).chain.Numbered initial
        rw [kept]
        exact numbered.cached other
  | write loglet startPos newChain newLogletId =>
      have stored : newChain.Numbered initial := numbered.written _ member
      exact ⟨stored, numbered.cached, forall_mem_set numbered.carried index stored,
        forall_mem_set numbered.written index written⟩
  | chain newChain newVersion =>
      exact ⟨numbered.stored,
        Cluster.forall_setLog (fun _ log => log.chain.Numbered initial) numbered.cached carries,
        forall_mem_set numbered.carried index ⟨newChain, carries⟩,
        forall_mem_set numbered.written index written⟩
  | version newVersion =>
      exact ⟨numbered.stored, Cluster.forall_setLog (fun _ log => log.chain.Numbered initial)
          numbered.cached (numbered.cached node), forall_mem_set numbered.carried index trivial,
        forall_mem_set numbered.written index written⟩

theorem Numbered.openLog (numbered : system.Numbered initial) (node : Node) :
    Numbered initial { system with shared := system.shared.openLog factory node } := by
  unfold Cluster.openLog
  split
  · exact numbered
  · rename_i loglets made created
    obtain ⟨store, logs⟩ := Cluster.createAll_store created
    refine ⟨?_, Cluster.forall_setLog (fun _ log => log.chain.Numbered initial) (fun other => ?_)
      numbered.stored, numbered.carried, numbered.written⟩
    · change made.metaStore.chain.Numbered initial
      rw [store.metaStore]
      exact numbered.stored
    · rw [logs]
      exact numbered.cached other

theorem Numbered.step (numbered : system.Numbered initial)
    {action : Action (Node × LogletOp) (ClusterEvent Node Event)}
    (moved : (virtualLogComponent factory component).machine.step system action = some next) :
    next.Numbered initial := by
  cases action with
  | start call =>
      rw [Component.step_start moved]
      exact numbered.start call
  | poll index =>
      obtain ⟨⟨node, op⟩, future, shared, progress, pending, ran, rfl⟩ := Component.step_poll moved
      exact numbered.poll pending ran
  | background event =>
      obtain ⟨shared, ran, rfl⟩ := Component.step_background moved
      cases event with
      | loglet loglet event =>
          obtain ⟨_, _, rfl⟩ := Option.map_eq_some_iff.mp ran
          exact ⟨numbered.stored, numbered.cached, numbered.carried, numbered.written⟩
      | openLog node =>
          cases ran
          exact numbered.openLog node
      | factory error =>
          cases ran
          exact ⟨numbered.stored, numbered.cached, numbered.carried, numbered.written⟩

theorem DistinctIds.step (distinct : system.DistinctIds)
    {action : Action (Node × LogletOp) (ClusterEvent Node Event)} (anew : system.Anew action)
    (moved : (virtualLogComponent factory component).machine.step system action = some next) :
    next.DistinctIds := by
  cases action with
  | start call =>
      rw [Component.step_start moved]
      exact distinct
  | poll index =>
      obtain ⟨⟨node, op⟩, future, shared, progress, pending, ran, rfl⟩ := Component.step_poll moved
      have names := anew.of_pending pending
      have effect : Effect system.shared node future shared progress := poll_effect ran
      cases effect with
      | kept other same =>
          unfold DistinctIds
          rw [same.metaStore]
          exact distinct
      | write => exact names rfl
      | chain | version => exact distinct
  | background event =>
      obtain ⟨shared, ran, rfl⟩ := Component.step_background moved
      cases event with
      | loglet loglet event =>
          obtain ⟨_, _, rfl⟩ := Option.map_eq_some_iff.mp ran
          exact distinct
      | openLog node =>
          cases ran
          unfold Cluster.openLog
          split
          · exact distinct
          · rename_i loglets made created
            change made.metaStore.chain.ids.Nodup
            rw [(Cluster.createAll_store created).1.metaStore]
            exact distinct
      | factory error =>
          cases ran
          exact distinct

theorem distinctIds_run
    {permit : Logs Node State Fut → Action (Node × LogletOp) (ClusterEvent Node Event) → Prop}
    (run : (virtualLogComponent factory component).machine.Run (UnderNewIds permit)
      (.fresh (.new initial state)) system) : system.DistinctIds := by
  have single : DistinctIds (.fresh (.new initial state) : Logs Node State Fut) :=
    List.nodup_singleton _
  exact run.invariant DistinctIds single fun _ _ _ distinct allowed moved =>
    distinct.step allowed.2 moved

/-- Unless the first id is a generated one, all reconfigurations give new ids. -/
theorem run_underNewIds (foreign : ∀ index, initial ≠ generatedId (index + 1))
    {permit : Logs Node State Fut → Action (Node × LogletOp) (ClusterEvent Node Event) → Prop}
    (run : (virtualLogComponent factory component).machine.Run permit
      (.fresh (.new initial state)) system) :
    (virtualLogComponent factory component).machine.Run (UnderNewIds permit)
      (.fresh (.new initial state)) system :=
  (run.strengthen (Numbered initial) (numbered_new initial state)
    fun _ action _ numbered permitted moved =>
      ⟨⟨permitted, numbered.anew foreign action⟩, numbered.step moved⟩).1

end Logs

end Relos
