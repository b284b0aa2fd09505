import Relos.Async.Sequential
import Relos.Log.SegmentIds
import Mathlib.Data.List.Nodup
import Mathlib.Data.List.Perm.Subperm

set_option autoImplicit false

/-! How many segments a virtual log over memory loglets has, given how often its loglets
were sealed from outside. -/

namespace Relos

open Async

/-- No two segments have one id, and all but the last have a loglet among these. -/
structure LogChain.Vouched (closed : List LogletRef) (chain : LogChain) : Prop where
  distinct : chain.ids.Nodup
  vouched : ∀ logletId ∈ chain.ids.dropLast, ∃ loglet ∈ closed, loglet.logletId = logletId

namespace LogChain

variable {closed more : List LogletRef} {chain : LogChain}

theorem Vouched.new (initial : String) (closed : List LogletRef) :
    (LogChain.new initial).Vouched closed :=
  ⟨List.nodup_singleton _, fun _ impossible => absurd impossible List.not_mem_nil⟩

theorem Vouched.mono (vouched : chain.Vouched closed) (grown : closed ⊆ more) :
    chain.Vouched more := by
  refine ⟨vouched.distinct, fun logletId member => ?_⟩
  obtain ⟨loglet, held, same⟩ := vouched.vouched logletId member
  exact ⟨loglet, grown held, same⟩

/-- A chain whose last segment has such a loglet may be extended, under a new id. -/
theorem Vouched.extend (vouched : chain.Vouched closed) (sealPos : Nat) {newLogletId : String}
    {loglet : LogletRef} (held : loglet ∈ closed)
    (last : (chain.extend sealPos newLogletId).ids.dropLast.getLast? = some loglet.logletId)
    (anew : (chain.extend sealPos newLogletId).ids.Nodup) :
    (chain.extend sealPos newLogletId).Vouched closed := by
  refine ⟨anew, fun logletId member => ?_⟩
  rw [chain.extend_ids, List.dropLast_concat] at member last
  obtain ⟨earlier, same⟩ := List.getLast?_eq_some_iff.mp last
  rw [same] at member
  rcases List.mem_append.mp member with before | here
  · refine vouched.vouched logletId ?_
    rw [same, List.dropLast_concat]
    exact before
  · cases List.mem_singleton.mp here
    exact ⟨loglet, held, rfl⟩

theorem Vouched.length_le (vouched : chain.Vouched closed) :
    chain.segments.length ≤ closed.length + 1 := by
  have inside : chain.ids.dropLast ⊆ closed.map LogletRef.logletId := by
    intro logletId member
    obtain ⟨loglet, held, same⟩ := vouched.vouched logletId member
    exact List.mem_map.mpr ⟨loglet, held, same⟩
  have distinct : chain.ids.dropLast.Nodup := vouched.distinct.sublist (List.dropLast_sublist _)
  have bound := (List.subperm_of_subset distinct inside).length_le
  unfold ids at bound
  rw [List.length_dropLast, List.length_map, List.length_map] at bound
  omega

end LogChain

/-! ### Which loglets have been sealed -/

theorem MemoryLoglet.call_sealed (loglet : MemoryLoglet) (op : LogletOp) :
    (loglet.call op).1.sealed = true ↔ loglet.sealed = true ∨ op = .seal := by
  cases op with
  | append entry =>
      simp only [MemoryLoglet.call, MemoryLoglet.append]
      split <;> simp
  | trim pos =>
      simp only [MemoryLoglet.call, MemoryLoglet.trim]
      split <;> simp
  | checkTail | read pos => simp [MemoryLoglet.call]
  | «seal» => simp [MemoryLoglet.call, MemoryLoglet.seal]

/-- The sealed loglets are these, and they vouch for the chains. -/
structure Cluster.Counted (closed : List LogletRef)
    (cluster : Cluster Unit TrackedLoglet) : Prop where
  stored : cluster.metaStore.chain.Vouched closed
  cached : (cluster.logs ()).chain.Vouched closed
  closed : ∀ loglet, (cluster.heap loglet).loglet.sealed = true ↔ loglet ∈ closed

namespace VirtualLog

/-- A reconfiguration finds the loglet that it seals sealed, and a CAS that is going to
succeed closes the segment of this loglet. -/
def Expected (cluster : Cluster Unit TrackedLoglet) : Future Unit → Prop
  | .reconfigureSeal loglet _ _ => (cluster.heap loglet).loglet.sealed = true
  | .reconfigureWrite loglet _ version newChain _ => cluster.metaStore.version = version →
      newChain.ids.dropLast.getLast? = some loglet.logletId
  | _ => True

/-- A seal from outside is under way. -/
def Future.sealing : Future Unit → Bool
  | .activeChain caller | .activeLoglet caller _ _ => decide (caller = .seal)
  | .seal _ _ _ => true
  | _ => false

/-- What a suspended reconfiguration has seen to be sealed. -/
def Future.Saw (closed : List LogletRef) : Future Unit → Prop
  | .reconfigureVersion loglet _ _ | .reconfigureChain loglet _ _ _ => loglet ∈ closed
  | .reconfigureWrite loglet _ _ newChain _ => loglet ∈ closed ∧
      ∃ (chain : LogChain) (sealPos : Nat) (newLogletId : String), chain.Vouched closed ∧
        newChain = chain.extend sealPos newLogletId
  | .reconfigureCreate _ newChain _ | .reconfigureInsert _ newChain _ _
  | .syncLoglets _ newChain _ | .installChain newChain _ => newChain.Vouched closed
  | _ => True

structure Vouches (closed : List LogletRef) (op : LogletOp)
    (future : Future Unit) : Prop where
  seals : future.sealing = true ↔ op = .seal
  saw : future.Saw closed

variable {closed more : List LogletRef} {cluster next : Cluster Unit TrackedLoglet}
  {op : LogletOp} {future : Future Unit} {progress : Progress (Future Unit) LogletResult}

theorem Vouches.mono (vouches : Vouches closed op future) (grown : closed ⊆ more) :
    Vouches more op future := by
  have saw := vouches.saw
  refine ⟨vouches.seals, ?_⟩
  cases future with
  | reconfigureVersion | reconfigureChain => exact grown saw
  | reconfigureWrite =>
      obtain ⟨held, chain, sealPos, newLogletId, vouched, same⟩ := saw
      exact ⟨grown held, chain, sealPos, newLogletId, vouched.mono grown, same⟩
  | reconfigureCreate | reconfigureInsert | syncLoglets | installChain =>
      exact LogChain.Vouched.mono saw grown
  | activeChain | activeLoglet | «seal» | append | checkTail | reconfigureSeal | syncRead
  | installVersion | readChain | readLoglets | read | trimChain | trimSegments | trim => trivial

/-- What a poll leaves behind. -/
abbrev Outcome (closed : List LogletRef) (op : LogletOp)
    (next : Cluster Unit TrackedLoglet) (progress : Progress (Future Unit) LogletResult) : Prop :=
  next.Counted closed ∧ progress.Holds (Vouches closed op) fun _ => True

theorem await_memory {index : Nat} {loglet : LogletRef} {pending : Unit → Future Unit}
    {resume : LogletResult → Option (Progress (Future Unit) LogletResult)}
    (polled : await memoryComponent cluster index loglet op () pending resume =
      some (next, progress)) :
    next = cluster.setHeap loglet ((cluster.heap loglet).call index op).1 ∧
      resume ((cluster.heap loglet).call index op).2 = some progress := by
  obtain ⟨state, answer, moved, rfl, outcome⟩ := await_cases polled
  cases moved
  rcases outcome with ⟨later, impossible, -⟩ | ⟨result, same, resumed⟩
  · cases impossible
  · cases same
    exact ⟨rfl, resumed⟩

end VirtualLog

namespace Cluster

variable {closed : List LogletRef} {cluster : Cluster Unit TrackedLoglet} {loglet : LogletRef}

theorem sealed_setHeap (index : Nat) (op : LogletOp) (other : LogletRef) :
    ((cluster.setHeap loglet ((cluster.heap loglet).call index op).1).heap other).loglet.sealed =
      true ↔ (cluster.heap other).loglet.sealed = true ∨ other = loglet ∧ op = .seal := by
  by_cases here : other = loglet
  · subst here
    unfold setHeap
    dsimp only
    rw [Function.update_self]
    exact (MemoryLoglet.call_sealed _ op).trans (or_congr_right (and_iff_right rfl).symm)
  · unfold setHeap
    dsimp only
    rw [Function.update_of_ne here]
    exact (or_iff_left fun both => here both.1).symm

/-- A call to a loglet, where a seal finds it sealed. -/
theorem Counted.call (counted : cluster.Counted closed) (index : Nat) {op : LogletOp}
    (known : op = .seal → loglet ∈ closed) :
    (cluster.setHeap loglet ((cluster.heap loglet).call index op).1).Counted closed := by
  refine ⟨counted.stored, counted.cached, fun other => ?_⟩
  rw [sealed_setHeap, counted.closed]
  constructor
  · rintro (held | ⟨rfl, seals⟩)
    · exact held
    · exact known seals
  · exact Or.inl

/-- One more loglet may be sealed. -/
theorem Counted.seal (counted : cluster.Counted closed) (index : Nat) :
    ∃ more, closed ⊆ more ∧ more.length ≤ closed.length + 1 ∧
      (cluster.setHeap loglet ((cluster.heap loglet).call index .seal).1).Counted more := by
  refine ⟨loglet :: closed, List.subset_cons_self .., Nat.le_refl _,
    counted.stored.mono (List.subset_cons_self ..), counted.cached.mono (List.subset_cons_self ..),
    fun other => ?_⟩
  rw [sealed_setHeap, counted.closed, List.mem_cons]
  constructor
  · rintro (held | ⟨same, -⟩)
    · exact Or.inr held
    · exact Or.inl same
  · rintro (same | held)
    · exact Or.inr ⟨same, rfl⟩
    · exact Or.inl held

theorem Counted.create (counted : cluster.Counted closed) {factory : Factory}
    {logletId : String} {next : Cluster Unit TrackedLoglet}
    (created : cluster.create factory logletId = .ok (loglet, next)) :
    next.Counted closed := by
  unfold Cluster.create at created
  cases failing : cluster.factoryError with
  | some error =>
      rw [failing] at created
      cases created
  | none =>
      rw [failing] at created
      cases factory <;> cases created
      · exact ⟨counted.stored, counted.cached, counted.closed⟩
      · exact counted

theorem Counted.setLog (counted : cluster.Counted closed) {log : VirtualLog}
    (vouched : log.chain.Vouched closed) :
    (cluster.setLog () log).Counted closed := by
  refine ⟨counted.stored, ?_, counted.closed⟩
  unfold Cluster.setLog
  dsimp only
  rw [Function.update_self]
  exact vouched

end Cluster

/-- A call from outside that has sealed a loglet. -/
def sealedOutside : Call (Unit × LogletOp) (VirtualLog.Future Unit) LogletResult → Bool
  | ⟨(_, .seal), .finished (.ok _)⟩ => true
  | _ => false

namespace VirtualLog

variable {closed : List LogletRef} {cluster next : Cluster Unit TrackedLoglet}
  {op : LogletOp} {future : Future Unit} {progress : Progress (Future Unit) LogletResult}
  {factory : Factory} {index : Nat}

/-- A call that only reads. -/
theorem Outcome.suspended (polled : suspend cluster future = some (next, progress))
    (counted : cluster.Counted closed) (vouches : Vouches closed op future) :
    Outcome closed op next progress := by
  cases polled
  exact ⟨counted, vouches⟩

theorem Outcome.ended {result : LogletResult}
    (polled : finish cluster result = some (next, progress))
    (counted : cluster.Counted closed) :
    Outcome closed op next progress := by
  cases polled
  exact ⟨counted, trivial⟩

/-- A call to a loglet that does not seal it. -/
theorem Outcome.awaited {loglet : LogletRef} {callee : LogletOp} {pending : Unit → Future Unit}
    {resume : LogletResult → Option (Progress (Future Unit) LogletResult)}
    (polled : await memoryComponent cluster index loglet callee () pending resume =
      some (next, progress)) (counted : cluster.Counted closed)
    (known : callee = .seal → loglet ∈ closed)
    (resumed : ∀ result progress, resume result = some progress →
      progress.Holds (Vouches closed op) fun _ => True) :
    Outcome closed op next progress := by
  obtain ⟨rfl, same⟩ := await_memory polled
  exact ⟨counted.call index known, resumed _ _ same⟩

theorem resumeAppend_vouches (other : op ≠ .seal) {startPos : Nat} {result : LogletResult}
    (resumed : resumeAppend startPos result = some progress) :
    progress.Holds (Vouches closed op) fun _ => True := by
  unfold resumeAppend at resumed
  split at resumed
  · cases resumed
    trivial
  · cases resumed
    exact ⟨by simp [Future.sealing, other], trivial⟩
  · cases resumed
    trivial
  · cases resumed

theorem resumeReconfigure_vouches (other : op ≠ .seal) {loglet : LogletRef} {startPos : Nat}
    (held : loglet ∈ closed) {result : LogletResult}
    (resumed : resumeReconfigure loglet startPos result = some progress) :
    progress.Holds (Vouches closed op) fun _ => True := by
  unfold resumeReconfigure at resumed
  split at resumed
  · cases resumed
    exact ⟨by simp [Future.sealing, other], held⟩
  · cases resumed
    trivial
  · cases resumed

theorem resumeGlobal_vouches {startPos : Nat} {result : LogletResult}
    (resumed : resumeGlobal startPos result = some progress) :
    progress.Holds (Vouches closed op) fun _ => True := by
  rcases resumeGlobal_cases resumed with ⟨pos, rfl, rfl⟩ | ⟨error, rfl, rfl⟩ <;> trivial

theorem reconfigureWrite_counted (counted : cluster.Counted closed) {loglet : LogletRef}
    {startPos version : Nat} {newChain : LogChain} {newLogletId : String}
    (vouches : Vouches closed op
      (.reconfigureWrite loglet startPos version newChain newLogletId))
    (expected : Expected cluster (.reconfigureWrite loglet startPos version newChain newLogletId))
    (anew : NamesAnew cluster
      (.reconfigureWrite loglet startPos version newChain newLogletId : Future Unit))
    (polled : (match cluster.metaStore.write newChain version with
      | (metaStore, true) => suspend { cluster with
          metaStore := metaStore, installed := cluster.installed ++ [newChain] }
            (.reconfigureCreate version newChain newLogletId)
      | (_, false) => suspend cluster .syncRead) = some (next, progress)) :
    Outcome closed op next progress := by
  obtain ⟨held, chain, sealPos, _, vouched, rfl⟩ := vouches.saw
  unfold MemoryMetaStore.write at polled
  by_cases current : cluster.metaStore.version = version
  · have grown := vouched.extend sealPos held (expected current) (anew current)
    rw [if_neg (not_not_intro current)] at polled
    cases polled
    exact ⟨⟨grown, counted.cached, counted.closed⟩, ⟨vouches.seals, grown⟩⟩
  · rw [if_pos current] at polled
    exact .suspended polled counted ⟨vouches.seals, trivial⟩

/-- One poll of any call but a seal from outside. -/
theorem poll_counted (counted : cluster.Counted closed)
    (vouches : Vouches closed op future) (expected : Expected cluster future)
    (anew : NamesAnew cluster future)
    (internal : ∀ loglet startPos inner, future ≠ .seal loglet startPos inner)
    (polled : poll factory memoryComponent cluster index ((), op) future = some (next, progress)) :
    Outcome closed op next progress := by
  obtain ⟨seals, saw⟩ := vouches
  have other : future.sealing = false → op ≠ .seal := by
    rintro open' rfl
    rw [open'] at seals
    cases seals.mpr rfl
  cases future with
  | activeChain caller =>
      dsimp only [poll] at polled
      split at polled
      · exact .ended polled counted
      · exact .suspended polled counted ⟨seals, trivial⟩
  | activeLoglet caller startPos logletId =>
      dsimp only [poll] at polled
      split at polled
      · exact .ended polled counted
      · refine .suspended polled counted ?_
        cases caller <;> exact ⟨seals, trivial⟩
  | append loglet startPos inner =>
      have appends : op ≠ .seal := other rfl
      dsimp only [poll] at polled
      refine .awaited polled counted (fun same => absurd same appends) fun result progress => ?_
      exact resumeAppend_vouches appends
  | checkTail loglet startPos inner =>
      dsimp only [poll] at polled
      have reads : LogletOp.checkTail ≠ .seal := by decide
      refine .awaited polled counted (fun same => absurd same reads) fun result progress => ?_
      exact resumeGlobal_vouches
  | «seal» loglet startPos inner => exact absurd rfl (internal loglet startPos inner)
  | reconfigureSeal loglet startPos inner =>
      have held : loglet ∈ closed := (counted.closed loglet).mp expected
      dsimp only [poll] at polled
      refine .awaited polled counted (fun _ => held) fun result progress => ?_
      exact resumeReconfigure_vouches (other rfl) held
  | reconfigureVersion loglet startPos globalSealPos =>
      dsimp only [poll] at polled
      exact .suspended polled counted ⟨seals, saw⟩
  | reconfigureChain loglet startPos globalSealPos version =>
      dsimp only [poll] at polled
      exact .suspended polled counted ⟨seals, saw, _, globalSealPos, _, counted.cached, rfl⟩
  | reconfigureWrite loglet startPos version newChain newLogletId =>
      exact reconfigureWrite_counted counted ⟨seals, saw⟩ expected anew polled
  | reconfigureCreate version newChain newLogletId =>
      dsimp only [poll] at polled
      split at polled
      · exact .ended polled counted
      · rename_i created
        exact .suspended polled (counted.create created) ⟨seals, saw⟩
  | reconfigureInsert version newChain newLogletId newLoglet =>
      dsimp only [poll] at polled
      exact .suspended polled (counted.setLog counted.cached) ⟨seals, saw⟩
  | syncRead =>
      dsimp only [poll] at polled
      exact .suspended polled counted ⟨seals, counted.stored⟩
  | syncLoglets todo newChain newVersion =>
      cases todo with
      | nil =>
          dsimp only [poll] at polled
          exact .suspended polled counted ⟨seals, saw⟩
      | cons segment todo =>
          dsimp only [poll] at polled
          split at polled
          · exact .suspended polled counted ⟨seals, saw⟩
          · split at polled
            · exact .ended polled counted
            · rename_i created
              have created' := counted.create created
              exact .suspended polled (created'.setLog created'.cached) ⟨seals, saw⟩
  | installChain newChain newVersion =>
      dsimp only [poll] at polled
      exact .suspended polled (counted.setLog saw) ⟨seals, trivial⟩
  | installVersion newVersion =>
      dsimp only [poll] at polled
      exact .suspended polled (counted.setLog counted.cached) ⟨seals, trivial⟩
  | readChain pos =>
      dsimp only [poll] at polled
      split at polled
      · exact .ended polled counted
      · exact .suspended polled counted ⟨seals, trivial⟩
  | readLoglets localPos logletId =>
      dsimp only [poll] at polled
      split at polled
      · exact .ended polled counted
      · exact .suspended polled counted ⟨seals, trivial⟩
  | read loglet localPos inner =>
      dsimp only [poll] at polled
      refine .awaited polled counted (by intro impossible; cases impossible) ?_
      rintro result progress ⟨⟩
      trivial
  | trimChain pos =>
      dsimp only [poll] at polled
      exact .suspended polled counted ⟨seals, trivial⟩
  | trimSegments pos todo =>
      cases todo with
      | nil =>
          dsimp only [poll] at polled
          exact .ended polled counted
      | cons segment todo =>
          dsimp only [poll] at polled
          split at polled
          · split at polled
            · exact .suspended polled counted ⟨seals, trivial⟩
            · exact .suspended polled counted ⟨seals, trivial⟩
          · exact .suspended polled counted ⟨seals, trivial⟩
  | trim pos loglet localPos inner todo =>
      dsimp only [poll] at polled
      refine .awaited polled counted (by intro impossible; cases impossible) ?_
      intro result progress resumed
      unfold resumeTrim at resumed
      split at resumed
      · cases resumed
        exact ⟨seals, trivial⟩
      · cases resumed
        trivial

/-- A seal from outside. -/
theorem seal_counted (counted : cluster.Counted closed) {loglet : LogletRef}
    {startPos : Nat} {inner : Unit}
    (polled : poll factory memoryComponent cluster index ((), .seal)
      (.seal loglet startPos inner) = some (next, progress)) :
    ∃ more, closed ⊆ more ∧ more.length ≤ closed.length + 1 ∧
      Outcome more .seal next progress ∧
      sealedOutside ⟨((), .seal), progress⟩ = true := by
  dsimp only [poll] at polled
  obtain ⟨rfl, resumed⟩ := await_memory polled
  obtain ⟨more, grown, length, counted'⟩ := counted.seal index
  cases resumed
  exact ⟨more, grown, length, ⟨counted', trivial⟩, rfl⟩

end VirtualLog

namespace MemoryLogs

/-- How many seals from outside have returned. -/
def outsideSeals (system : MemoryLogs Unit) : Nat := system.calls.countP sealedOutside

/-- The polled reconfiguration acts on what was sealed before. -/
def ExpectedTasks (system : MemoryLogs Unit) : MemoryLogsAction Unit → Prop
  | .start _ => True
  | .poll index =>
      Call.Meets (fun _ future => VirtualLog.Expected system.shared future) system.calls[index]?
  | .background (.openLog _) => False
  | .background _ => True

structure Counted (closed : List LogletRef) (system : MemoryLogs Unit) :
    Prop where
  shared : system.shared.Counted closed
  calls : ∀ call ∈ system.calls,
    call.progress.Holds (VirtualLog.Vouches closed call.op.2) fun _ => True
  bound : closed.length ≤ system.outsideSeals

variable {initial : String} {closed : List LogletRef} {system next : MemoryLogs Unit}
  {factory : Factory}

theorem counted_new (initial : String) : (new Unit initial).Counted [] := by
  refine ⟨⟨.new initial [], .new initial [], fun loglet => ?_⟩, ?_, Nat.zero_le _⟩
  · constructor
    · intro impossible
      cases impossible
    · exact fun impossible => absurd impossible List.not_mem_nil
  · exact fun call impossible => absurd impossible List.not_mem_nil

theorem begin_vouches (closed : List LogletRef) (op : LogletOp) :
    VirtualLog.Vouches closed op (VirtualLog.begin op) := by
  cases op <;> exact ⟨by simp [VirtualLog.begin, VirtualLog.Future.sealing], trivial⟩

/-- A poll that leaves this behind, and seals at most one more loglet if it is a seal from
outside. -/
theorem Counted.poll (counted : system.Counted closed) {index : Nat}
    {op : LogletOp} {future : VirtualLog.Future Unit}
    {shared : Cluster Unit TrackedLoglet}
    {progress : Progress (VirtualLog.Future Unit) LogletResult} {more : List LogletRef}
    (pending : system.Pending index ((), op) future)
    (grown : closed ⊆ more) (outcome : VirtualLog.Outcome more op shared progress)
    (length : more.length ≤ closed.length + if sealedOutside ⟨((), op), progress⟩ then 1 else 0) :
    Counted more ⟨shared, system.calls.set index ⟨((), op), progress⟩⟩ := by
  refine ⟨outcome.1, forall_mem_set (fun call member => ?_) index outcome.2, ?_⟩
  · exact (counted.calls call member).imp (fun _ vouches => vouches.mono grown) fun _ done => done
  · obtain ⟨inside, held⟩ := List.getElem?_eq_some_iff.mp pending
    have bound := counted.bound
    unfold outsideSeals at bound ⊢
    rw [List.countP_set inside, held]
    have running : sealedOutside ⟨((), op), .running future⟩ = false := by
      cases op <;> rfl
    rw [running]
    simp only [Bool.false_eq_true, if_false]
    omega

theorem Counted.step (counted : system.Counted closed) {action : MemoryLogsAction Unit}
    (expected : system.ExpectedTasks action) (anew : Logs.Anew system action)
    (moved : (memoryLogs Unit factory).step system action = some next) :
    ∃ more, next.Counted more := by
  cases action with
  | start call =>
      rw [Component.step_start moved]
      refine ⟨closed, counted.shared, fun call' member => ?_, ?_⟩
      · rcases List.mem_append.mp member with before | added
        · exact counted.calls call' before
        · rw [List.mem_singleton.mp added]
          exact begin_vouches closed call.2
      · have bound := counted.bound
        unfold outsideSeals at bound ⊢
        rw [List.countP_append]
        omega
  | poll index =>
      obtain ⟨⟨⟨⟩, op⟩, future, shared, progress, pending, ran, rfl⟩ := Component.step_poll moved
      have polled : VirtualLog.poll factory memoryComponent system.shared index ((), op) future =
          some (shared, progress) := ran
      have vouches : VirtualLog.Vouches closed op future :=
        counted.calls _ (List.mem_of_getElem? pending)
      have allowed : VirtualLog.Expected system.shared future := by
        unfold System.Pending at pending
        simp only [ExpectedTasks, pending] at expected
        exact expected
      by_cases outside : ∃ loglet startPos inner, future = .seal loglet startPos inner
      · obtain ⟨loglet, startPos, inner, rfl⟩ := outside
        cases vouches.seals.mp rfl
        obtain ⟨more, grown, length, outcome, seals⟩ :=
          VirtualLog.seal_counted counted.shared polled
        refine ⟨more, counted.poll pending grown outcome ?_⟩
        rw [seals]
        exact length
      · have outcome := VirtualLog.poll_counted counted.shared vouches allowed
          (Logs.Anew.of_pending anew pending)
          (fun loglet startPos inner same => outside ⟨loglet, startPos, inner, same⟩) polled
        exact ⟨closed, counted.poll pending (List.Subset.refl _) outcome (Nat.le_add_right _ _)⟩
  | background event =>
      obtain ⟨shared, ran, rfl⟩ := Component.step_background moved
      cases event with
      | loglet loglet event => cases event
      | openLog node => exact expected.elim
      | factory error =>
          cases ran
          exact ⟨closed, ⟨counted.shared.stored, counted.shared.cached, counted.shared.closed⟩,
            counted.calls, counted.bound⟩

theorem counted_run
    (run : (memoryLogs Unit factory).Run (Logs.UnderNewIds ExpectedTasks) (new Unit initial) system) :
    ∃ closed, system.Counted closed :=
  run.invariant (fun system => ∃ closed, system.Counted closed) ⟨[], counted_new initial⟩
    fun _ _ _ ⟨_, counted⟩ allowed moved => counted.step allowed.1 allowed.2 moved

/-- There is at most one segment more than there were seals from outside, no other loglet
is sealed, and only sealed segments have been closed. -/
structure OnePerSeal (system : MemoryLogs Unit) : Prop where
  stored : system.shared.metaStore.chain.segments.length ≤ system.outsideSeals + 1
  cached : (system.shared.logs ()).chain.segments.length ≤ system.outsideSeals + 1
  sealed : ∃ loglets : List LogletRef, loglets.length ≤ system.outsideSeals ∧
    ∀ loglet, (system.shared.heap loglet).loglet.sealed = true → loglet ∈ loglets
  closed : ∀ logletId ∈ system.shared.metaStore.chain.ids.dropLast, ∃ loglet,
    loglet.logletId = logletId ∧ (system.shared.heap loglet).loglet.sealed = true

/-- One seal causes one reconfiguration, if every reconfiguration acts on what was sealed
before and gives its segment a new id. -/
theorem one_per_seal (factory : Factory) {initial : String} {system : MemoryLogs Unit}
    (run : (memoryLogs Unit factory).Run (Logs.UnderNewIds ExpectedTasks) (new Unit initial) system) :
    OnePerSeal system := by
  obtain ⟨closed, counted⟩ := counted_run run
  have bound := Nat.succ_le_succ counted.bound
  refine ⟨?_, ?_, ⟨closed, counted.bound, fun loglet => (counted.shared.closed loglet).mp⟩,
    fun logletId member => ?_⟩
  · exact Nat.le_trans counted.shared.stored.length_le bound
  · exact Nat.le_trans counted.shared.cached.length_le bound
  · obtain ⟨loglet, held, same⟩ := counted.shared.stored.vouched logletId member
    exact ⟨loglet, same, (counted.shared.closed loglet).mpr held⟩

instance (cluster : Cluster Unit TrackedLoglet) (future : VirtualLog.Future Unit) :
    Decidable (VirtualLog.Expected cluster future) :=
  match future with
  | .reconfigureSeal loglet _ _ =>
      inferInstanceAs (Decidable ((cluster.heap loglet).loglet.sealed = true))
  | .reconfigureWrite loglet _ version newChain _ =>
      inferInstanceAs (Decidable (cluster.metaStore.version = version →
        newChain.ids.dropLast.getLast? = some loglet.logletId))
  | .activeChain _ | .activeLoglet _ _ _ | .append _ _ _ | .checkTail _ _ _ | .seal _ _ _
  | .reconfigureVersion _ _ _ | .reconfigureChain _ _ _ _ | .reconfigureCreate _ _ _
  | .reconfigureInsert _ _ _ _ | .syncRead | .syncLoglets _ _ _ | .installChain _ _
  | .installVersion _ | .readChain _ | .readLoglets _ _ | .read _ _ _ | .trimChain _
  | .trimSegments _ _ | .trim _ _ _ _ _ => isTrue trivial

instance (system : MemoryLogs Unit) (action : MemoryLogsAction Unit) :
    Decidable (system.ExpectedTasks action) :=
  match action with
  | .start _ => isTrue trivial
  | .poll index => inferInstanceAs (Decidable (Call.Meets
      (fun _ future => VirtualLog.Expected system.shared future) system.calls[index]?))
  | .background (.openLog _) => isFalse id
  | .background (.factory _) => isTrue trivial
  | .background (.loglet _ _) => isTrue trivial

/-- Two appends find the loglet sealed and seal it again; the CAS of the second one fails. -/
def reconfiguredOnce : List (MemoryLogsAction Unit) :=
  ([.start ((), .seal)] : List (MemoryLogsAction Unit)) ++ polls 0 3 ++
    ([.start ((), .append (.new [1])), .start ((), .append (.new [2]))] :
      List (MemoryLogsAction Unit)) ++ polls 1 6 ++ polls 2 8 ++ polls 1 10 ++ polls 2 10

set_option maxRecDepth 10000 in
theorem one_per_seal_twice : ∃ system : MemoryLogs Unit,
    system.Returned 1 ((), .append (.new [1])) (.ok (.pos 1)) ∧
    system.Returned 2 ((), .append (.new [2])) (.ok (.pos 2)) ∧ system.OnePerSeal := by
  obtain ⟨system, run, seen⟩ := Machine.exists_run_of_execute (memoryLogs Unit .fresh)
    (Logs.UnderNewIds ExpectedTasks) (new Unit "memory-0") reconfiguredOnce System.calls
    [⟨((), .seal), .finished (.ok (.pos 1))⟩,
      ⟨((), .append (.new [1])), .finished (.ok (.pos 1))⟩,
      ⟨((), .append (.new [2])), .finished (.ok (.pos 2))⟩] (by decide)
  exact ⟨system, congrArg (fun calls => calls[1]?) seen, congrArg (fun calls => calls[2]?) seen,
    one_per_seal .fresh run⟩

/-- An append has looked the first loglet up before another one replaces it. -/
def overtaken : List (MemoryLogsAction Unit) :=
  ([.start ((), .append (.new [1]))] : List (MemoryLogsAction Unit)) ++ polls 0 2 ++
    ([.start ((), .seal)] : List (MemoryLogsAction Unit)) ++ polls 1 3 ++
    ([.start ((), .append (.new [2]))] : List (MemoryLogsAction Unit)) ++ polls 2 16 ++ polls 0 14

set_option maxRecDepth 10000 in
theorem not_one_per_seal : ¬ ∀ system,
    (memoryLogs Unit .fresh).Run Tasks (new Unit "memory-0") system → system.Settled →
      system.shared.metaStore.chain.segments.length ≤ system.outsideSeals + 1 := by
  intro bounded
  obtain ⟨system, run, seen⟩ := Machine.exists_run_of_execute (memoryLogs Unit .fresh) Tasks
    (new Unit "memory-0") overtaken
    (fun system => (system.calls.all Call.isReturned,
      system.shared.metaStore.chain.segments.length, system.outsideSeals)) (true, 3, 1) (by decide)
  obtain ⟨returned, counted⟩ := Prod.mk.inj seen
  obtain ⟨segments, seals⟩ := Prod.mk.inj counted
  have bound := bounded system run (List.all_eq_true.mp returned)
  omega

end MemoryLogs

end Relos
