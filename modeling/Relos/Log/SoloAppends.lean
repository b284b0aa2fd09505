import Relos.Log.LogClients

set_option autoImplicit false

/-! One instance over a factory that gives a new loglet at every creation. It
runs one append at a time, with any other calls beside it. -/

namespace Relos

open Async Epochs

namespace VirtualLog

variable {Node State Fut Event : Type} {component : LogletComponent State Fut Event}
  {outline : LogletOutline component} {factory : Factory} {initial : String}
  {cluster next : Cluster Node State} {index : Nat} {call : Node × LogletOp}
  {progress : Progress (Future Fut) LogletResult}

/-- Only appends change the instance they run on. -/
def appendOf (call : Node × LogletOp) : Option Node :=
  match call.2 with
  | .append _ => some call.1
  | _ => none

/-- No loglet is held yet under the id that is about to be inserted. -/
def NewId {Fut : Type} (log : VirtualLog) : Future Fut → Prop
  | .reconfigureCreate _ _ newLogletId => log.loglets[newLogletId]? = none
  | .reconfigureInsert _ _ newLogletId _ => log.loglets[newLogletId]? = none
  | _ => True

theorem plain_of_appendOf {who : Node} (stranger : appendOf call ≠ some who) (mine : call.1 = who) :
    ¬ call.2.IsAppend := by
  intro appends
  obtain ⟨node, op⟩ := call
  cases op with
  | append entry => exact stranger (congrArg some mine)
  | checkTail | read | trim | «seal» => exact appends.elim

/-- A write that succeeds opens a segment whose id the instance does not hold. -/
theorem newId_of_write (inv : cluster.Inv outline factory initial) {loglet : LogletRef}
    {startPos version : Nat} {newChain : LogChain} {newLogletId : String}
    (running : Knows outline factory initial cluster index call
      (.reconfigureWrite loglet startPos version newChain newLogletId))
    (current : cluster.metaStore.version = version) (distinct : newChain.ids.Nodup) :
    (cluster.logs call.1).loglets[newLogletId]? = none := by
  obtain ⟨_, epoch, _, _, older, inside, rfl, _⟩ := running
  have bound := inv.epoch_le call.1
  rw [inv.version] at current
  have whole : epoch = cluster.ends.length := by omega
  rw [whole, List.take_length, LogChain.extend_ids, chainOf_ids] at distinct
  cases held : (cluster.logs call.1).loglets[newLogletId]? with
  | none => rfl
  | some found =>
      obtain ⟨_, _, known, below, same⟩ := inv.known call.1 _ found held
      have listed : newLogletId ∈ (List.range (cluster.ends.length + 1)).map (idAt initial) :=
        List.mem_map.mpr ⟨known, List.mem_range.mpr (Nat.lt_succ_of_le below), same.symm⟩
      exact absurd rfl ((List.nodup_append.mp distinct).2.2 newLogletId listed newLogletId
        (List.mem_singleton_self _))

theorem await_newId {loglet : LogletRef} {op : LogletOp} {future : Fut} {pending : Fut → Future Fut}
    {resume : LogletResult → Option (Progress (Future Fut) LogletResult)}
    (polled : await component cluster index loglet op future pending resume =
      some (next, progress)) {log : VirtualLog} (suspended : ∀ later, NewId log (pending later))
    (resumed : ∀ result answer, resume result = some answer →
      answer.Holds (NewId log) fun _ => True) :
    progress.Holds (NewId log) fun _ => True := by
  obtain ⟨_, _, _, _, ⟨later, _, rfl⟩ | ⟨result, _, answered⟩⟩ := await_cases polled
  · exact suspended later
  · exact resumed result progress answered

variable [DecidableEq Node]

theorem poll_newId (inv : cluster.Inv outline factory initial) {future : Future Fut}
    (running : Knows outline factory initial cluster index call future)
    (anew : NamesAnew cluster future)
    (polled : poll factory component cluster index call future = some (next, progress))
    (newId : NewId (cluster.logs call.1) future) :
    progress.Holds (NewId (next.logs call.1)) fun _ => True := by
  cases future with
  | activeChain caller =>
      simp only [poll] at polled
      split at polled <;> cases polled <;> trivial
  | activeLoglet caller startPos logletId =>
      simp only [poll] at polled
      split at polled
      · cases polled
        trivial
      · cases polled
        cases caller <;> trivial
  | append loglet startPos future =>
      refine await_newId polled (fun _ => trivial) fun result answer resumed => ?_
      unfold resumeAppend at resumed
      split at resumed <;> cases resumed <;> trivial
  | checkTail loglet startPos future =>
      refine await_newId polled (fun _ => trivial) fun result answer resumed => ?_
      rcases resumeGlobal_cases resumed with ⟨_, _, rfl⟩ | ⟨_, _, rfl⟩ <;> trivial
  | «seal» loglet startPos future =>
      refine await_newId polled (fun _ => trivial) fun result answer resumed => ?_
      rcases resumeGlobal_cases resumed with ⟨_, _, rfl⟩ | ⟨_, _, rfl⟩ <;> trivial
  | reconfigureSeal loglet startPos future =>
      refine await_newId polled (fun _ => trivial) fun result answer resumed => ?_
      unfold resumeReconfigure at resumed
      split at resumed <;> cases resumed <;> trivial
  | reconfigureVersion loglet startPos globalSealPos => cases polled; trivial
  | reconfigureChain loglet startPos globalSealPos version => cases polled; trivial
  | reconfigureWrite loglet startPos version newChain newLogletId =>
      simp only [poll, MemoryMetaStore.write] at polled
      by_cases current : cluster.metaStore.version = version
      · rw [if_neg (not_not.mpr current)] at polled
        cases polled
        exact newId_of_write inv running current (anew current)
      · rw [if_pos current] at polled
        cases polled
        trivial
  | reconfigureCreate version newChain newLogletId =>
      simp only [poll] at polled
      split at polled
      · cases polled
        trivial
      · rename_i created
        cases polled
        rw [create_logs created]
        exact newId
  | reconfigureInsert version newChain newLogletId newLoglet => cases polled; trivial
  | syncRead => cases polled; trivial
  | syncLoglets todo newChain newVersion =>
      cases todo with
      | nil => cases polled; trivial
      | cons segment todo =>
          simp only [poll] at polled
          split at polled
          · cases polled
            trivial
          · split at polled <;> cases polled <;> trivial
  | installChain newChain newVersion => cases polled; trivial
  | installVersion newVersion => cases polled; trivial
  | readChain globalPos =>
      simp only [poll] at polled
      split at polled <;> cases polled <;> trivial
  | readLoglets localPos logletId =>
      simp only [poll] at polled
      split at polled <;> cases polled <;> trivial
  | read loglet localPos future =>
      refine await_newId polled (fun _ => trivial) fun result answer resumed => ?_
      cases resumed
      trivial
  | trimChain globalPos => cases polled; trivial
  | trimSegments globalPos todo =>
      cases todo with
      | nil => cases polled; trivial
      | cons segment todo =>
          simp only [poll] at polled
          split at polled
          · split at polled <;> cases polled <;> trivial
          · cases polled
            trivial
  | trim globalPos loglet localPos future todo =>
      refine await_newId polled (fun _ => trivial) fun result answer resumed => ?_
      cases result <;> cases resumed <;> trivial

/-- What the instance holds for itself between its appends. -/
def soloAppends (outline : LogletOutline component) (initial : String) :
    PrivateOutline (virtualLogOutline Unit outline .fresh initial) appendOf touches where
  Local := VirtualLog
  view cluster := cluster.logs
  Idle := Paired
  Busy log _ future := Busy log future ∧ NewId log future
  PollOk cluster _ future := NamesAnew cluster future
  begin_busy := by
    intro log call paired
    obtain ⟨node, op⟩ := call
    cases op <;> exact ⟨paired, trivial⟩
  poll_busy := by
    intro cluster index call future next progress who _ inv running anew polled busy
    have held := poll_busy inv running.1 polled busy.1
    have newId := poll_newId inv running.1 anew polled busy.2
    cases progress with
    | running later => exact ⟨held, newId⟩
    | finished result => exact held
  poll_frame := by
    intro cluster index call future next progress who stranger running polled
    rw [(poll_logs_plain (plain_of_appendOf stranger rfl) running.1 polled).1]
  event_frame := by
    intro cluster event next who _ eventOk ran untouched
    cases event with
    | loglet loglet event =>
        obtain ⟨_, _, rfl⟩ := Option.map_eq_some_iff.mp ran
        rfl
    | openLog node => cases eventOk
    | factory error =>
        cases ran
        rfl
  event_idle := by
    intro cluster event next who _ eventOk _ touched
    cases event with
    | loglet loglet event => cases touched
    | openLog node => cases eventOk
    | factory error => cases touched

/-- One append at a time reconfigures coherently. -/
theorem coherent_of_solo {cluster : Cluster Unit State} {call : Unit × LogletOp} {future : Future Fut}
    (running : Knows outline factory initial cluster index call future)
    (busy : call.2.IsAppend → Busy (cluster.logs ()) future ∧ NewId (cluster.logs ()) future) :
    Coherent cluster call.1 future := by
  by_cases appends : call.2.IsAppend
  · refine coherent_of_busy running (busy appends).1 ?_
    rintro version newChain newLogletId newLoglet rfl held holds
    have absent : (cluster.logs ()).loglets[newLogletId]? = none := (busy appends).2
    unfold Cluster.Holds at holds
    rw [absent] at holds
    cases holds
  · cases future with
    | reconfigureWrite | reconfigureInsert | installChain => exact absurd running.1 appends
    | activeChain | activeLoglet | append | checkTail | «seal» | reconfigureSeal
    | reconfigureVersion | reconfigureChain | reconfigureCreate | syncRead | syncLoglets
    | installVersion | readChain | readLoglets | read | trimChain | trimSegments | trim => trivial

end VirtualLog

end Relos
