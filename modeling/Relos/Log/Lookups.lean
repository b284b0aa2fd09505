import Relos.Log.CachedChain
import Relos.Log.NativeLoglet
import Relos.Log.Positions

set_option autoImplicit false

/-! What the cached chain of an instance names is always there to be found: a loglet is in
the map before a chain with it is published, and stays. -/

namespace Relos

open Async

variable {Node State Fut Event : Type}

/-- What a failed lookup reports. -/
def LookupError : RelosError → Prop
  | .internal message =>
      message = "no active segment in chain" ∨
      (∃ logletId : String, message = s!"active loglet {logletId} not found") ∨
      (∃ logletId : String, message = s!"loglet {logletId} not found") ∨
      ∃ pos : Nat, message = s!"no segment found for position {pos}"
  | _ => False

/-- How the messages of failed lookups begin. -/
def lookupTexts : List String :=
  ["no active segment in chain", "active loglet ", "loglet ", "no segment found for position "]

theorem LookupError.begins {message : String} (failed : LookupError (.internal message)) :
    ∃ text ∈ lookupTexts, text.toList <+: message.toList := by
  rcases failed with rfl | ⟨logletId, rfl⟩ | ⟨logletId, rfl⟩ | ⟨pos, rfl⟩
  · exact ⟨_, .head _, List.prefix_rfl⟩
  · refine ⟨"active loglet ", .tail _ (.head _), ?_⟩
    rw [String.append_assoc, String.toList_append]
    exact List.prefix_append ..
  · refine ⟨"loglet ", .tail _ (.tail _ (.head _)), ?_⟩
    rw [String.append_assoc, String.toList_append]
    exact List.prefix_append ..
  · refine ⟨"no segment found for position ", .tail _ (.tail _ (.tail _ (.head _))), ?_⟩
    rw [String.toList_append]
    exact List.prefix_append ..

/-- A loglet of this kind never answers with such an error itself. -/
def AnswersPlainly (component : LogletComponent State Fut Event) : Prop :=
  ∀ state index op future next error,
    component.poll state index op future = some (next, .finished (.error error)) →
      ¬ LookupError error

theorem memory_answersPlainly : AnswersPlainly memoryComponent := by
  intro state index op future next error polled
  have result := congrArg Prod.snd (Option.some.inj polled)
  cases op with
  | append entry =>
      cases isSealed : state.loglet.sealed with
      | true =>
          have refused : (state.call index (.append entry)).2 = _ :=
            congrArg Prod.snd (TrackedLoglet.append_sealed isSealed entry)
          cases result.symm.trans (congrArg Progress.finished refused)
          exact id
      | false =>
          have stored : (state.call index (.append entry)).2 = _ :=
            congrArg Prod.snd (TrackedLoglet.append_open isSealed entry)
          cases result.symm.trans (congrArg Progress.finished stored)
  | read pos =>
      simp only [TrackedLoglet.call, MemoryLoglet.call, MemoryLoglet.read] at result
      split at result
      · cases result
        exact id
      · split at result <;> cases result
  | checkTail | trim | «seal» => cases result

namespace NativeLoglet

variable {n : Nat} {state next : NativeLoglet n} {index : Nat} {op : LogletOp}
  {error : RelosError}

theorem sendTo_plain {server : Fin n} {request : LogServerRequest} {later : Nat → Future}
    (polled : sendTo state index op server request later = some (next, .finished (.error error))) :
    ¬ LookupError error := by
  unfold sendTo at polled
  split at polled <;> cases polled
  exact fun failed => absurd failed.begins (by decide)

theorem fanOut_plain {request : LogServerRequest} {receivers : List Nat}
    {more : List Nat → Future} {sentAll : Future}
    (polled : fanOut state index op request receivers more sentAll =
      some (next, .finished (.error error))) : ¬ LookupError error := by
  unfold fanOut at polled
  split at polled
  · exact sendTo_plain polled
  · cases polled

theorem acknowledge_plain {pos ackCount : Nat} {sealTail : Option Nat}
    (polled : acknowledge state pos ackCount sealTail = some (next, .finished (.error error))) :
    ¬ LookupError error := by
  unfold acknowledge at polled
  split at polled
  · cases polled
  · split at polled <;> cases polled
    · exact id
    · exact fun failed => absurd failed.begins (by decide)

theorem tailResult_plain {tail : Nat} (failed : tailResult tail op = .error error) :
    ¬ LookupError error := by
  cases op with
  | append entry =>
      cases failed
      exact id
  | checkTail | read | trim | «seal» => cases failed

theorem answersPlainly (n : Nat) : AnswersPlainly (nativeComponent n) := by
  intro state index op future next error polled
  change NativeLoglet.poll state index op future = _ at polled
  cases future with
  | append =>
      dsimp only [NativeLoglet.poll] at polled
      split at polled <;> cases polled
  | nextPos | markSealed | checkTail | sealSequencer => cases polled
  | nextPosReply receiver | sealSequencerReply receiver =>
      dsimp only [NativeLoglet.poll] at polled
      split at polled <;> cases polled
      exact fun failed => absurd failed.begins (by decide)
  | checkTailReply receiver =>
      dsimp only [NativeLoglet.poll] at polled
      split at polled
      · exact tailResult_plain (Progress.finished.inj (congrArg Prod.snd (Option.some.inj polled)))
      · cases polled
        exact fun failed => absurd failed.begins (by decide)
      · cases polled
  | fanOutStore pos receivers =>
      dsimp only [NativeLoglet.poll] at polled
      split at polled
      · exact fanOut_plain polled
      · cases polled
  | storeReplies pos receivers ackCount sealTail =>
      cases receivers with
      | nil => exact acknowledge_plain polled
      | cons receiver receivers =>
          dsimp only [NativeLoglet.poll] at polled
          split at polled <;> cases polled
  | read pos server =>
      dsimp only [NativeLoglet.poll] at polled
      split at polled
      · exact sendTo_plain polled
      · cases polled
  | readReply pos server receiver =>
      dsimp only [NativeLoglet.poll] at polled
      split at polled <;> cases polled
      · exact id
      · exact fun failed => absurd failed.begins (by decide)
  | fanOutTrim pos receivers => exact fanOut_plain polled
  | fanOutSeal sequencerTail receivers => exact fanOut_plain polled
  | trimReplies receivers =>
      cases receivers with
      | nil => cases polled
      | cons receiver receivers =>
          dsimp only [NativeLoglet.poll] at polled
          split at polled <;> cases polled
          exact fun failed => absurd failed.begins (by decide)
  | sealReplies sequencerTail receivers sealedCount maxTail =>
      cases receivers with
      | nil =>
          dsimp only [NativeLoglet.poll] at polled
          split at polled <;> cases polled
          exact fun failed => absurd failed.begins (by decide)
      | cons receiver receivers =>
          dsimp only [NativeLoglet.poll] at polled
          split at polled <;> cases polled

end NativeLoglet

namespace VirtualLog

def Present (log : VirtualLog) (logletId : String) : Prop :=
  ∃ loglet, log.loglets[logletId]? = some loglet

/-- The chain covers all positions, and its loglets are present or still expected. -/
structure Backed (log : VirtualLog) (expected : String → Prop) (chain : LogChain) : Prop where
  linked : Linked logPosBegin chain.segments
  present : ∀ logletId ∈ chain.ids, expected logletId ∨ log.Present logletId

/-- What a task relies on to find. -/
def Future.Grounded (log : VirtualLog) (op : LogletOp) : Future Fut → Prop
  | .activeLoglet _ _ logletId | .readLoglets _ logletId => log.Present logletId
  | .reconfigureWrite _ _ _ newChain newLogletId | .reconfigureCreate _ newChain newLogletId
  | .reconfigureInsert _ newChain newLogletId _ => log.Backed (· = newLogletId) newChain
  | .syncLoglets todo newChain _ =>
      log.Backed (· ∈ todo.map ChainSegment.logletId) newChain
  | .installChain newChain _ => log.Backed (fun _ => False) newChain
  | .readChain globalPos => op = .read globalPos
  | .activeChain _ | .append _ _ _ | .checkTail _ _ _ | .seal _ _ _ | .reconfigureSeal _ _ _
  | .reconfigureVersion _ _ _ | .reconfigureChain _ _ _ _ | .syncRead | .installVersion _
  | .read _ _ _ | .trimChain _ | .trimSegments _ _ | .trim _ _ _ _ _ => True

/-- A lookup fails only for position 0, and a factory may have reasons that look like it. -/
def Found (reasons : RelosError → Prop) (op : LogletOp) (result : LogletResult) : Prop :=
  ∀ error, result = .error error → LookupError error →
    reasons error ∨ ∃ pos, op = .read pos ∧ pos < logPosBegin

/-- The map of loglets only grows. -/
def Grows (log later : VirtualLog) : Prop :=
  ∀ logletId, log.Present logletId → later.Present logletId

variable {log later : VirtualLog} {op : LogletOp} {future : Future Fut} {chain : LogChain}
  {expected : String → Prop} {logletId : String}

theorem present_insert (logletId : String) (loglet : LogletRef) :
    { log with loglets := log.loglets.insert logletId loglet }.Present logletId :=
  ⟨loglet, Std.ExtTreeMap.getElem?_insert_self⟩

theorem grows_insert (logletId : String) (loglet : LogletRef) :
    log.Grows { log with loglets := log.loglets.insert logletId loglet } := by
  intro other present
  obtain ⟨held, found⟩ := present
  unfold Present
  dsimp only
  rw [Std.ExtTreeMap.getElem?_insert]
  split
  · exact ⟨loglet, rfl⟩
  · exact ⟨held, found⟩

theorem Backed.grow (backed : log.Backed expected chain) (grows : log.Grows later) :
    later.Backed expected chain :=
  ⟨backed.linked, fun logletId member =>
    (backed.present logletId member).imp_right (grows logletId)⟩

/-- One more of the expected loglets is present. -/
theorem Backed.settle (backed : log.Backed expected chain) (held : log.Present logletId)
    {fewer : String → Prop} (rest : ∀ other, expected other → other = logletId ∨ fewer other) :
    log.Backed fewer chain := by
  refine ⟨backed.linked, fun other member => ?_⟩
  rcases backed.present other member with waits | present
  · rcases rest other waits with rfl | later
    · exact Or.inr held
    · exact Or.inl later
  · exact Or.inr present

/-- An extended chain needs one more loglet. -/
theorem Backed.extend (backed : log.Backed (fun _ => False) chain) (sealPos : Nat)
    (newLogletId : String) : log.Backed (· = newLogletId) (chain.extend sealPos newLogletId) := by
  refine ⟨backed.linked.extend sealPos newLogletId, fun other member => ?_⟩
  rw [chain.extend_ids] at member
  rcases List.mem_append.mp member with old | added
  · exact (backed.present other old).imp_left False.elim
  · exact Or.inl (List.mem_singleton.mp added)

theorem Backed.holds (backed : log.Backed (fun _ => False) chain) {segment : ChainSegment}
    (member : segment ∈ chain.segments) : log.Present segment.logletId :=
  (backed.present _ (List.mem_map_of_mem member)).resolve_left id

theorem Future.Grounded.grow (grounded : future.Grounded log op) (grows : log.Grows later) :
    future.Grounded later op := by
  cases future with
  | activeLoglet | readLoglets => exact grows _ grounded
  | reconfigureWrite | reconfigureCreate | reconfigureInsert | syncLoglets | installChain =>
      exact Backed.grow grounded grows
  | readChain => exact grounded
  | activeChain | append | checkTail | «seal» | reconfigureSeal | reconfigureVersion
  | reconfigureChain | syncRead | installVersion | read | trimChain | trimSegments | trim =>
      trivial

end VirtualLog

open VirtualLog

namespace Cluster

/-- The stored chain covers all positions, every cached one is backed, and a factory that
fails has one of these reasons. -/
structure Grounded (reasons : RelosError → Prop) (cluster : Cluster Node State) : Prop where
  stored : Linked logPosBegin cluster.metaStore.chain.segments
  cached : ∀ node, (cluster.logs node).Backed (fun _ => False) (cluster.logs node).chain
  factory : ∀ error, cluster.factoryError = some error → reasons error

variable {reasons : RelosError → Prop} {cluster next : Cluster Node State} {factory : Factory}
  {logletId : String} {loglet : LogletRef}

theorem grounded_new (initial : String) (state : State) :
    (Cluster.new initial state : Cluster Node State).Grounded reasons where
  stored := .last initial logPosBegin
  cached node := by
    refine ⟨.last initial logPosBegin, fun logletId member => Or.inr ?_⟩
    rw [List.mem_singleton.mp member]
    exact ⟨⟨initial, 0⟩, Std.ExtTreeMap.getElem?_insert_self⟩
  factory error impossible := by cases impossible

theorem create_grounded (grounded : cluster.Grounded reasons)
    (created : cluster.create factory logletId = .ok (loglet, next)) : next.Grounded reasons := by
  unfold create at created
  split at created
  · cases created
  · split at created <;> cases created <;>
      exact ⟨grounded.stored, grounded.cached, grounded.factory⟩

theorem create_error {error : RelosError} (grounded : cluster.Grounded reasons)
    (failed : cluster.create factory logletId = .error error) : reasons error := by
  unfold create at failed
  split at failed
  · rename_i known
    cases failed
    exact grounded.factory _ known
  · split at failed <;> cases failed

theorem createAll_grounded {segments : List ChainSegment}
    {loglets made : Std.ExtTreeMap String LogletRef} (grounded : cluster.Grounded reasons)
    (created : cluster.createAll factory segments loglets = .ok (made, next)) :
    next.Grounded reasons ∧ (∀ logletId, (∃ loglet, loglets[logletId]? = some loglet) ∨
      logletId ∈ segments.map ChainSegment.logletId → ∃ loglet, made[logletId]? = some loglet) := by
  induction segments generalizing cluster loglets with
  | nil =>
      cases created
      exact ⟨grounded, fun logletId known => known.resolve_right List.not_mem_nil⟩
  | cons segment rest ih =>
      unfold createAll at created
      split at created
      · cases created
      · rename_i loglet middle first
        obtain ⟨grounded', held⟩ := ih (create_grounded grounded first) created
        refine ⟨grounded', fun logletId known => held logletId ?_⟩
        rw [Std.ExtTreeMap.getElem?_insert]
        split
        · exact Or.inl ⟨loglet, rfl⟩
        · rename_i different
          rcases known with old | listed
          · exact Or.inl old
          · rcases List.mem_cons.mp listed with rfl | later
            · exact absurd (by simp) different
            · exact Or.inr later

variable [DecidableEq Node] {node : Node} {log : VirtualLog}

theorem logs_setLog (node : Node) (log : VirtualLog) : (cluster.setLog node log).logs node = log :=
  Function.update_self ..

/-- An instance is replaced by one that is backed. -/
theorem Grounded.setLog (grounded : cluster.Grounded reasons)
    (backed : log.Backed (fun _ => False) log.chain) : (cluster.setLog node log).Grounded reasons :=
  ⟨grounded.stored,
    forall_setLog (fun _ log => log.Backed (fun _ => False) log.chain) grounded.cached backed,
    grounded.factory⟩

theorem grows_setLog (grows : (cluster.logs node).Grows log) (other : Node) :
    (cluster.logs other).Grows ((cluster.setLog node log).logs other) :=
  forall_setLog (fun other log => (cluster.logs other).Grows log) (fun _ _ present => present)
    grows other

/-- A loglet is inserted: the cached chain is as it was. -/
theorem Grounded.insertLoglet (grounded : cluster.Grounded reasons) :
    (cluster.insertLoglet node logletId loglet).Grounded reasons :=
  grounded.setLog ((grounded.cached node).grow (grows_insert logletId loglet))

end Cluster

namespace VirtualLog

/-- What one poll of a call keeps. -/
structure Grounding (reasons : RelosError → Prop) (cluster : Cluster Node State) (node : Node)
    (op : LogletOp) (next : Cluster Node State)
    (progress : Progress (Future Fut) LogletResult) : Prop where
  grounded : next.Grounded reasons
  grows : ∀ other, (cluster.logs other).Grows (next.logs other)
  progress : progress.Holds (Future.Grounded (next.logs node) op) (Found reasons op)

variable {reasons : RelosError → Prop} {component : LogletComponent State Fut Event}
  {factory : Factory} {cluster next : Cluster Node State} {node : Node} {index : Nat} {op : LogletOp}
  {future later : Future Fut} {progress : Progress (Future Fut) LogletResult}

theorem found_of_plain {error : RelosError} (plain : ¬ LookupError error) :
    Found reasons op (.error error) := by
  rintro found ⟨⟩ failed
  exact absurd failed plain

theorem found_of_reason {error : RelosError} (reason : reasons error) :
    Found reasons op (.error error) := by
  rintro found ⟨⟩ -
  exact Or.inl reason

theorem found_ok (value : LogletValue) : Found reasons op (.ok value) := by
  intro error impossible
  cases impossible

theorem Grounding.suspended (polled : suspend cluster later = some (next, progress))
    (grounded : cluster.Grounded reasons) (held : later.Grounded (cluster.logs node) op) :
    Grounding reasons cluster node op next progress := by
  cases polled
  exact ⟨grounded, fun _ _ present => present, held⟩

theorem Grounding.ended {result : LogletResult} {progress : Progress (Future Fut) LogletResult}
    (polled : finish cluster result = some (next, progress)) (grounded : cluster.Grounded reasons)
    (found : Found reasons op result) : Grounding reasons cluster node op next progress := by
  cases polled
  exact ⟨grounded, fun _ _ present => present, found⟩

/-- A call to a loglet: what the caller goes on with needs no lookup that has been made. -/
theorem Grounding.awaited {loglet : LogletRef} {callee : LogletOp} {inner : Fut}
    {pending : Fut → Future Fut}
    {resume : LogletResult → Option (Progress (Future Fut) LogletResult)}
    (polled : await component cluster index loglet callee inner pending resume =
      some (next, progress)) (plain : AnswersPlainly component) (grounded : cluster.Grounded reasons)
    (waits : ∀ log inner, (pending inner).Grounded log op)
    (resumed : ∀ log result progress, resume result = some progress →
      (∀ error, result = .error error → ¬ LookupError error) →
      progress.Holds (Future.Grounded log op) (Found reasons op)) :
    Grounding reasons cluster node op next progress := by
  obtain ⟨state, answer, ran, rfl, outcome⟩ := await_cases polled
  refine ⟨⟨grounded.stored, grounded.cached, grounded.factory⟩, fun _ _ present => present, ?_⟩
  rcases outcome with ⟨later, -, rfl⟩ | ⟨result, rfl, same⟩
  · exact waits _ later
  · refine resumed _ result progress same fun error failed => ?_
    subst failed
    exact plain _ _ _ _ _ _ ran

section Resume

variable {log : VirtualLog} {startPos : Nat} {result : LogletResult}
  (plain : ∀ error, result = .error error → ¬ LookupError error)

include plain

theorem resumeAppend_found (resumed : resumeAppend startPos result = some progress) :
    progress.Holds (Future.Grounded log op) (Found reasons op) := by
  unfold resumeAppend at resumed
  split at resumed <;> cases resumed
  · exact found_ok _
  · trivial
  · exact found_of_plain (plain _ rfl)

theorem resumeGlobal_found (resumed : resumeGlobal startPos result = some progress) :
    progress.Holds (Future.Grounded log op) (Found reasons op) := by
  unfold resumeGlobal at resumed
  split at resumed <;> cases resumed
  · exact found_ok _
  · exact found_of_plain (plain _ rfl)

theorem resumeReconfigure_found {loglet : LogletRef}
    (resumed : resumeReconfigure loglet startPos result = some progress) :
    progress.Holds (Future.Grounded log op) (Found reasons op) := by
  unfold resumeReconfigure at resumed
  split at resumed <;> cases resumed
  · trivial
  · exact found_of_plain (plain _ rfl)

theorem resumeTrim_found {globalPos : Nat} {todo : List ChainSegment}
    (resumed : resumeTrim globalPos todo result = some progress) :
    progress.Holds (Future.Grounded log op) (Found reasons op) := by
  unfold resumeTrim at resumed
  split at resumed <;> cases resumed
  · trivial
  · exact found_of_plain (plain _ rfl)

end Resume

variable [DecidableEq Node]

/-- The four lookups of an instance succeed. -/
theorem poll_grounding (plain : AnswersPlainly component) (grounded : cluster.Grounded reasons)
    (held : future.Grounded (cluster.logs node) op)
    (polled : poll factory component cluster index (node, op) future = some (next, progress)) :
    Grounding reasons cluster node op next progress := by
  have backed := grounded.cached node
  cases future with
  | activeChain caller =>
      have active := LogChain.activeSegment_linked backed.linked
      dsimp only [poll] at polled
      split at polled
      · rename_i missing
        rw [active, List.getLast?_eq_none_iff] at missing
        exact absurd missing backed.linked.ne_nil
      · rename_i segment found
        rw [active] at found
        exact .suspended polled grounded (backed.holds (List.mem_of_getLast? found))
  | activeLoglet caller startPos logletId =>
      obtain ⟨loglet, found⟩ := id held
      dsimp only [poll] at polled
      rw [found] at polled
      refine .suspended polled grounded ?_
      cases caller <;> trivial
  | append loglet startPos inner =>
      dsimp only [poll] at polled
      exact .awaited polled plain grounded (fun _ _ => trivial)
        fun _ _ _ resumed plain => resumeAppend_found plain resumed
  | checkTail loglet startPos inner =>
      dsimp only [poll] at polled
      exact .awaited polled plain grounded (fun _ _ => trivial)
        fun _ _ _ resumed plain => resumeGlobal_found plain resumed
  | «seal» loglet startPos inner =>
      dsimp only [poll] at polled
      exact .awaited polled plain grounded (fun _ _ => trivial)
        fun _ _ _ resumed plain => resumeGlobal_found plain resumed
  | reconfigureSeal loglet startPos inner =>
      dsimp only [poll] at polled
      exact .awaited polled plain grounded (fun _ _ => trivial)
        fun _ _ _ resumed plain => resumeReconfigure_found plain resumed
  | reconfigureVersion loglet startPos globalSealPos =>
      dsimp only [poll] at polled
      exact .suspended polled grounded trivial
  | reconfigureChain loglet startPos globalSealPos version =>
      dsimp only [poll] at polled
      exact .suspended polled grounded (backed.extend _ _)
  | reconfigureWrite loglet startPos version newChain newLogletId =>
      dsimp only [poll, MemoryMetaStore.write] at polled
      by_cases current : cluster.metaStore.version = version
      · rw [if_neg (not_not_intro current)] at polled
        cases polled
        exact ⟨⟨held.linked, grounded.cached, grounded.factory⟩, fun _ _ present => present, held⟩
      · rw [if_pos current] at polled
        exact .suspended polled grounded trivial
  | reconfigureCreate version newChain newLogletId =>
      dsimp only [poll] at polled
      split at polled
      · rename_i error failed
        exact .ended polled grounded (found_of_reason (Cluster.create_error grounded failed))
      · rename_i newLoglet made created
        cases polled
        have logs := create_logs created
        refine ⟨Cluster.create_grounded grounded created, ?_, ?_⟩
        · intro other
          rw [logs]
          exact fun _ present => present
        · rw [logs]
          exact held
  | reconfigureInsert version newChain newLogletId newLoglet =>
      cases polled
      have grows : (cluster.logs node).Grows _ := grows_insert newLogletId newLoglet
      refine ⟨grounded.insertLoglet, Cluster.grows_setLog grows, ?_⟩
      rw [Cluster.insertLoglet, Cluster.logs_setLog]
      exact (Backed.grow held grows).settle (present_insert _ _) fun _ same => Or.inl same
  | syncRead =>
      dsimp only [poll] at polled
      refine .suspended polled grounded ⟨grounded.stored, fun logletId member => Or.inl member⟩
  | syncLoglets todo newChain newVersion =>
      cases todo with
      | nil =>
          dsimp only [poll] at polled
          refine .suspended polled grounded ⟨held.linked, fun logletId member => ?_⟩
          exact (held.present logletId member).imp_left List.not_mem_nil
      | cons segment todo =>
          have rest : ∀ other, other ∈ (segment :: todo).map ChainSegment.logletId →
              other = segment.logletId ∨ other ∈ todo.map ChainSegment.logletId :=
            fun other member => List.mem_cons.mp member
          dsimp only [poll] at polled
          split at polled
          · rename_i known
            have present : (cluster.logs node).Present segment.logletId :=
              Option.isSome_iff_exists.mp (Std.ExtTreeMap.isSome_getElem?_eq_contains.trans known)
            exact .suspended polled grounded (Backed.settle held present rest)
          · split at polled
            · rename_i error failed
              exact .ended polled grounded (found_of_reason (Cluster.create_error grounded failed))
            · rename_i loglet made created
              cases polled
              have logs := create_logs created
              have grows : (made.logs node).Grows _ := grows_insert segment.logletId loglet
              refine ⟨(Cluster.create_grounded grounded created).insertLoglet, ?_, ?_⟩
              · rw [← logs]
                exact Cluster.grows_setLog grows
              · rw [Cluster.insertLoglet, Cluster.logs_setLog]
                rw [← logs] at held
                exact (Backed.grow held grows).settle (present_insert _ _) rest
  | installChain newChain newVersion =>
      cases polled
      have grows : (cluster.logs node).Grows { cluster.logs node with chain := newChain } :=
        fun _ present => present
      exact ⟨grounded.setLog (Backed.grow held grows), Cluster.grows_setLog grows, trivial⟩
  | installVersion newVersion =>
      cases polled
      have grows : (cluster.logs node).Grows { cluster.logs node with chainVersion := newVersion } :=
        fun _ present => present
      exact ⟨grounded.setLog (backed.grow grows), Cluster.grows_setLog grows, trivial⟩
  | readChain globalPos =>
      dsimp only [poll] at polled
      split at polled
      · rename_i missing
        refine .ended polled grounded (fun _ _ _ => Or.inr ⟨globalPos, held, ?_⟩)
        by_contra covered
        obtain ⟨index, segment, found, contains⟩ :=
          backed.linked.exists_contains (Nat.not_lt.mp covered)
        exact List.find?_eq_none.mp missing segment (List.mem_of_getElem? found) contains
      · rename_i segment found
        exact .suspended polled grounded (backed.holds (List.mem_of_find?_eq_some found))
  | readLoglets localPos logletId =>
      obtain ⟨loglet, found⟩ := id held
      dsimp only [poll] at polled
      rw [found] at polled
      exact .suspended polled grounded trivial
  | read loglet localPos inner =>
      dsimp only [poll] at polled
      refine .awaited polled plain grounded (fun _ _ => trivial) ?_
      rintro log result progress ⟨⟩ plain
      cases result with
      | ok value => exact found_ok value
      | error error => exact found_of_plain (plain error rfl)
  | trimChain globalPos =>
      dsimp only [poll] at polled
      exact .suspended polled grounded trivial
  | trimSegments globalPos todo =>
      cases todo with
      | nil =>
          dsimp only [poll] at polled
          exact .ended polled grounded (found_ok _)
      | cons segment todo =>
          dsimp only [poll] at polled
          split at polled
          · split at polled <;> exact .suspended polled grounded trivial
          · exact .suspended polled grounded trivial
  | trim globalPos loglet localPos inner todo =>
      dsimp only [poll] at polled
      exact .awaited polled plain grounded (fun _ _ => trivial)
        fun _ _ _ resumed plain => resumeTrim_found plain resumed

end VirtualLog

namespace Logs

/-- An instance is created before it is used, and the factory fails for these reasons. -/
def Created (reasons : RelosError → Prop) (system : Logs Node State Fut) :
    Action (Node × LogletOp) (ClusterEvent Node Event) → Prop
  | .start _ | .poll _ | .background (.loglet _ _) => True
  | .background (.openLog who) => ∀ call ∈ system.calls, call.op.1 = who → call.isReturned = true
  | .background (.factory error) => ∀ failure, error = some failure → reasons failure

structure Grounded (reasons : RelosError → Prop) (system : Logs Node State Fut) : Prop where
  cluster : system.shared.Grounded reasons
  calls : ∀ call ∈ system.calls,
    call.progress.Holds (Future.Grounded (system.shared.logs call.op.1) call.op.2)
      (Found reasons call.op.2)

theorem begin_grounded (log : VirtualLog) (op : LogletOp) :
    (VirtualLog.begin op : VirtualLog.Future Fut).Grounded log op := by
  cases op with
  | read pos => rfl
  | append | checkTail | trim | «seal» => trivial

variable {reasons : RelosError → Prop} [DecidableEq Node]
  {component : LogletComponent State Fut Event} {factory : Factory} {system next : Logs Node State Fut}
  {action : Action (Node × LogletOp) (ClusterEvent Node Event)}

/-- The calls of a new instance have returned, and the others keep theirs. -/
theorem Grounded.openLog (grounded : system.Grounded reasons) (who : Node)
    (idle : ∀ call ∈ system.calls, call.op.1 = who → call.isReturned = true) :
    Grounded reasons { system with shared := system.shared.openLog factory who } := by
  unfold Cluster.openLog
  split
  · exact grounded
  · rename_i loglets made created
    obtain ⟨grounded', held⟩ := Cluster.createAll_grounded grounded.cluster created
    obtain ⟨store, logs⟩ := Cluster.createAll_store created
    refine ⟨grounded'.setLog ⟨grounded.cluster.stored, ?_⟩, fun call member => ?_⟩
    · intro logletId member
      exact Or.inr (held logletId (Or.inr member))
    · have before := grounded.calls call member
      by_cases here : call.op.1 = who
      · obtain ⟨op, progress⟩ := call
        cases progress with
        | finished result => exact before
        | running future => cases idle _ member here
      · unfold Cluster.setLog
        dsimp only
        rw [Function.update_of_ne here, logs]
        exact before

theorem Grounded.step (plain : AnswersPlainly component) (grounded : system.Grounded reasons)
    (permitted : Created reasons system action)
    (moved : (virtualLogComponent factory component).machine.step system action = some next) :
    next.Grounded reasons := by
  cases action with
  | start call =>
      rw [Component.step_start moved]
      refine ⟨grounded.cluster, fun call' member => ?_⟩
      rcases List.mem_append.mp member with before | added
      · exact grounded.calls call' before
      · cases List.mem_singleton.mp added
        exact begin_grounded _ call.2
  | poll index =>
      obtain ⟨⟨who, op⟩, future, shared, progress, pending, ran, rfl⟩ := Component.step_poll moved
      have held := grounded.calls _ (List.mem_of_getElem? pending)
      have kept := poll_grounding plain grounded.cluster held ran
      refine ⟨kept.grounded, forall_mem_set (fun call member => ?_) index kept.progress⟩
      exact (grounded.calls call member).imp
        (fun _ held => held.grow (kept.grows call.op.1)) fun _ found => found
  | background event =>
      obtain ⟨shared, ran, rfl⟩ := Component.step_background moved
      cases event with
      | loglet loglet event =>
          obtain ⟨_, _, rfl⟩ := Option.map_eq_some_iff.mp ran
          exact ⟨⟨grounded.cluster.stored, grounded.cluster.cached, grounded.cluster.factory⟩,
            grounded.calls⟩
      | openLog who =>
          cases ran
          exact grounded.openLog who permitted
      | factory error =>
          cases ran
          exact ⟨⟨grounded.cluster.stored, grounded.cluster.cached, permitted⟩, grounded.calls⟩

/-- In every run the cached chain of every instance has its last segment open and no other,
the map has all its loglets, and a call at a position from 1 on reports a failed lookup only
if the factory itself fails so. -/
theorem lookups_never_dangle (plain : AnswersPlainly component) {initial : String} {state : State}
    (run : (virtualLogComponent factory component).machine.Run (Created reasons)
      (.fresh (Cluster.new initial state)) system) (node : Node) :
    (system.shared.logs node).chain.segments ≠ [] ∧
    (∀ index segment, (system.shared.logs node).chain.segments[index]? = some segment →
      (segment.endPos = none ↔ index + 1 = (system.shared.logs node).chain.segments.length) ∧
      ∃ loglet, (system.shared.logs node).loglets[segment.logletId]? = some loglet) ∧
    ∀ index op error, system.Returned index (node, op) (.error error) →
      (∀ pos, op = .read pos → logPosBegin ≤ pos) → LookupError error → reasons error := by
  have grounded : system.Grounded reasons := run.invariant (Grounded reasons)
    ⟨Cluster.grounded_new initial state, fun call impossible => absurd impossible List.not_mem_nil⟩
    fun _ _ _ grounded permitted moved => grounded.step plain permitted moved
  have backed := grounded.cluster.cached node
  refine ⟨backed.linked.ne_nil, ?_, ?_⟩
  · intro index segment found
    exact ⟨backed.linked.open_iff found, backed.holds (List.mem_of_getElem? found)⟩
  · intro index op error returned positive failed
    rcases grounded.calls _ (List.mem_of_getElem? returned) error rfl failed with
      reason | ⟨pos, rfl, early⟩
    · exact reason
    · exact absurd (positive pos rfl) (Nat.not_le.mpr early)

instance [DecidablePred reasons] (system : Logs Node State Fut)
    (action : Action (Node × LogletOp) (ClusterEvent Node Event)) :
    Decidable (Created reasons system action) :=
  match action with
  | .start _ => isTrue trivial
  | .poll _ => isTrue trivial
  | .background (.loglet _ _) => isTrue trivial
  | .background (.openLog who) => inferInstanceAs (Decidable (∀ call ∈ system.calls,
      call.op.1 = who → call.isReturned = true))
  | .background (.factory none) => isTrue fun _ impossible => by cases impossible
  | .background (.factory (some failure)) => decidable_of_iff (reasons failure)
      ⟨fun reason _ same => Option.some.inj same ▸ reason, fun held => held failure rfl⟩

end Logs

namespace MemoryLogs

/-- One instance reconfigures, but the factory fails it after the MetaStore write; the other
one has a task stopped between its chain and its version. -/
def abandoned : List (MemoryLogsAction Bool) :=
  ([.start (true, .seal)] : List (MemoryLogsAction Bool)) ++ polls 0 3 ++
    ([.start (true, .append (.new [1]))] : List (MemoryLogsAction Bool)) ++ polls 1 9 ++
    ([.background (.factory (some (.internal "no loglet")))] : List (MemoryLogsAction Bool)) ++
    polls 1 1 ++ ([.background (.factory none), .start (false, .append (.new [2]))] :
      List (MemoryLogsAction Bool)) ++ polls 2 14

set_option maxRecDepth 10000 in
theorem lookups_abandoned : ∃ system : MemoryLogs Bool,
    (system.shared.logs false).chain.segments.length = 2 ∧
    (system.shared.logs true).chain.segments.length = 1 ∧ system.shared.metaStore.version = 1 ∧
    (∀ segment, (system.shared.logs false).chain.segments[1]? = some segment →
      ∃ loglet, (system.shared.logs false).loglets[segment.logletId]? = some loglet) ∧
    ∀ error, system.Returned 1 (true, .append (.new [1])) (.error error) → ¬ LookupError error := by
  obtain ⟨system, run, seen⟩ := Machine.exists_run_of_execute (memoryLogs Bool .fresh)
    (Logs.Created (· = .internal "no loglet")) (new Bool "memory-0") abandoned
    (fun system => ((system.shared.logs false).chain.segments.length,
      (system.shared.logs true).chain.segments.length, system.shared.metaStore.version))
    (2, 1, 1) (by decide)
  simp only [Prod.mk.injEq] at seen
  have dangles := Logs.lookups_never_dangle memory_answersPlainly run
  refine ⟨system, seen.1, seen.2.1, seen.2.2, fun segment found => ((dangles false).2.1 1 segment
    found).2, fun error returned failed => ?_⟩
  have reason := (dangles true).2.2 1 _ error returned (fun pos impossible => by cases impossible)
    failed
  rw [reason] at failed
  exact absurd failed.begins (by decide)

end MemoryLogs

end Relos
