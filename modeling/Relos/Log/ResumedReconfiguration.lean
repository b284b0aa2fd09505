import Relos.Async.OneByOne
import Relos.Log.ReconfigurationPolls

set_option autoImplicit false

/-! Runs in which the factory may fail at any call: what every append that failed leaves, and
what the next one returns. -/

namespace Relos

open Async Epochs

namespace SoloLog

variable {initial : String} {cluster next first : SoloLog} {ends : List Nat} {log : FlatLog}
  {loglet : LogletRef} {index : Nat} {op : LogletOp} {future : VirtualLog.Future Unit}
  {caller : VirtualLog.Caller}

/-! ### From a running call to its end -/

theorem Asking.alike (asking : Asking initial log first op cluster ends caller)
    (alike : Alike cluster next) : Asking initial log first op next ends caller := by
  refine ⟨asking.asks, asking.between.alike alike, ?_⟩
  have turn := asking.turn
  cases caller with
  | append =>
      exact turn.imp (fun unchanged => unchanged.alike alike) fun isOpen =>
        isOpen.of_same alike.loglets alike.heap
  | reconfigure => exact ⟨turn.1.alike alike, turn.2.of_same alike.loglets alike.heap⟩
  | checkTail | «seal» => trivial

theorem Seeking.alike {epoch localPos : Nat}
    (seeking : Seeking initial log op cluster ends epoch localPos) (alike : Alike cluster next) :
    Seeking initial log op next ends epoch localPos :=
  ⟨seeking.between.alike alike, seeking.inside, seeking.place⟩

theorem Resuming.alike (resuming : Resuming initial log first op cluster future)
    (alike : Alike cluster next) : Resuming initial log first op next future := by
  cases future with
  | activeChain caller =>
      obtain ⟨ends, asking⟩ := resuming
      exact ⟨ends, asking.alike alike⟩
  | activeLoglet | reconfigureVersion | reconfigureChain | reconfigureWrite =>
      obtain ⟨ends, asking, place⟩ := resuming
      exact ⟨ends, asking.alike alike, place⟩
  | append | checkTail | «seal» | reconfigureSeal =>
      obtain ⟨ends, asking, starts, backing⟩ := resuming
      exact ⟨ends, asking.alike alike, starts, backing.of_same alike.loglets⟩
  | reconfigureCreate | reconfigureInsert =>
      obtain ⟨ends, written, place⟩ := resuming
      exact ⟨ends, written.alike alike, place⟩
  | syncRead =>
      obtain ⟨ends, written⟩ := resuming
      exact ⟨ends, written.alike alike⟩
  | syncLoglets todo newChain newVersion =>
      rcases resuming with ⟨ends, count, written, place⟩ | ⟨appends, ends, opened, place⟩
      · exact Or.inl ⟨ends, count, written.alike alike, place⟩
      · exact Or.inr ⟨appends, ends, opened.alike alike, place⟩
  | installChain newChain newVersion =>
      obtain ⟨appends, ends, opened, place⟩ := resuming
      exact ⟨appends, ends, opened.alike alike, place⟩
  | installVersion newVersion =>
      obtain ⟨appends, ends, opened, chain, place⟩ := resuming
      refine ⟨appends, ends, opened.alike alike, ?_, place⟩
      rw [alike.logs]
      exact chain
  | readChain pos =>
      obtain ⟨reads, ends, between⟩ := resuming
      exact ⟨reads, ends, between.alike alike⟩
  | readLoglets localPos logletId =>
      obtain ⟨ends, epoch, seeking, place⟩ := resuming
      exact ⟨ends, epoch, seeking.alike alike, place⟩
  | read loglet localPos inner =>
      obtain ⟨ends, epoch, seeking, backing⟩ := resuming
      exact ⟨ends, epoch, seeking.alike alike, backing.of_same alike.loglets⟩
  | trimChain | trimSegments | trim => exact resuming.elim

theorem Given.alike {result : LogletResult} (given : Given initial log op cluster result)
    (alike : Alike cluster next) : Given initial log op next result := by
  obtain ⟨answers, ends, between⟩ := given
  exact ⟨answers, ends, between.alike alike⟩

theorem GivenUp.alike {result : LogletResult} (givenUp : GivenUp initial log first op cluster result)
    (alike : Alike cluster next) : GivenUp initial log first op next result := by
  obtain ⟨appends, failed, unchanged, ends, between⟩ := givenUp
  exact ⟨appends, failed, unchanged.alike alike, ends, between.alike alike⟩

theorem resuming_begin (between : Between initial cluster ends log) (noTrim : ¬ op.IsTrim) :
    Resuming initial log cluster op cluster (VirtualLog.begin op) := by
  cases op with
  | append entry => exact ⟨ends, trivial, between, Or.inl ⟨rfl, rfl⟩⟩
  | checkTail | «seal» => exact ⟨ends, rfl, between, trivial⟩
  | read pos => exact ⟨rfl, ends, between⟩
  | trim pos => exact absurd trivial noTrim

theorem resuming_poll (foreign : ∀ index, initial ≠ generatedId (index + 1))
    (resuming : Resuming initial log first op cluster future)
    {progress : Progress (VirtualLog.Future Unit) LogletResult}
    (polled : VirtualLog.poll .fresh memoryComponent cluster index ((), op) future =
      some (next, progress)) :
    next.factoryError = cluster.factoryError ∧ progress.Holds
      (fun later => Resuming initial log first op next later ∧
        remaining next later < remaining cluster future)
      fun result => Given initial log op next result ∨
        (¬ CreateWorks cluster future ∧ GivenUp initial log first op next result) := by
  obtain ⟨next', progress', polled', factory, holds⟩ := resuming_moves foreign index resuming
  rw [polled'] at polled
  cases polled
  exact ⟨factory, holds⟩

/-- Polls alone bring a call to its answer; only an append needs the factory for it. -/
theorem Resuming.completes (foreign : ∀ index, initial ≠ generatedId (index + 1)) (index : Nat)
    (resuming : Resuming initial log first op cluster future)
    (works : op.IsAppend → cluster.factoryError = none) :
    ∃ last result, Completes index op cluster future last result ∧
      Given initial log op last result := by
  have returns : ∃ last result, Completes index op cluster future last result := by
    refine Component.completes_of_rank
      (fun cluster future => Resuming initial log first op cluster future) remaining ?_ resuming
    intro cluster future resuming
    obtain ⟨next, progress, polled, -, holds⟩ := resuming_moves foreign index resuming
    cases progress with
    | running later => exact Or.inr (Or.inl ⟨next, later, polled, holds⟩)
    | finished result => exact Or.inl ⟨next, result, polled⟩
  obtain ⟨last, result, completes⟩ := returns
  refine ⟨last, result, completes, ?_⟩
  refine completes.invariant (fun cluster future => (op.IsAppend → cluster.factoryError = none) ∧
    Resuming initial log first op cluster future) (Given initial log op) ?_ ?_ ⟨works, resuming⟩
  · rintro cluster future next progress ⟨works, resuming⟩ polled
    obtain ⟨factory, holds⟩ := resuming_poll foreign resuming polled
    cases progress with
    | running later => exact ⟨fun appends => factory.trans (works appends), holds.1⟩
    | finished result =>
        rcases holds with given | ⟨failed, givenUp⟩
        · exact given
        · exact absurd (fun _ => works givenUp.appends) failed
  · exact fun _ impossible => impossible.elim

/-! ### Runs -/

/-- The log that these calls have filled. -/
def logAfter (calls : List (Call (Unit × LogletOp) (VirtualLog.Future Unit) LogletResult)) : FlatLog :=
  { entries := acknowledged calls, trimPoint := logPosBegin }

/-- Each call was answered as the log before it, or was an append that failed. -/
def Accounted (calls : List (Call (Unit × LogletOp) (VirtualLog.Future Unit) LogletResult)) : Prop :=
  ∀ index op result, calls[index]? = some ⟨((), op), .finished result⟩ →
    ((logAfter (calls.take index)).Allowed op → (logAfter (calls.take index)).Answers op result) ∨
    (op.IsAppend ∧ ∃ error, result = .error error)

variable {calls : List (Call (Unit × LogletOp) (VirtualLog.Future Unit) LogletResult)}
  {result : LogletResult}

theorem acknowledged_append
    (more : List (Call (Unit × LogletOp) (VirtualLog.Future Unit) LogletResult)) :
    acknowledged (calls ++ more) = acknowledged calls ++ acknowledged more := List.filterMap_append

theorem logAfter_given (noTrim : ¬ op.IsTrim)
    (answers : (logAfter calls).Allowed op → (logAfter calls).Answers op result) :
    logAfter (calls ++ [⟨((), op), .finished result⟩]) = (logAfter calls).next op := by
  cases op with
  | append entry =>
      have same : result = .ok (.pos (logAfter calls).tail) := answers trivial
      unfold logAfter
      rw [acknowledged_append, same]
      rfl
  | trim pos => exact absurd trivial noTrim
  | checkTail | read | «seal» =>
      unfold logAfter
      rw [acknowledged_append, acknowledged_other id, List.append_nil]
      rfl

theorem logAfter_givenUp (error : RelosError) :
    logAfter (calls ++ [⟨((), op), .finished (.error error)⟩]) = logAfter calls := by
  have nothing : acknowledged [⟨((), op), .finished (.error error)⟩] = [] := by
    cases op with
    | append | checkTail | read | trim | «seal» => rfl
  unfold logAfter
  rw [acknowledged_append, nothing, List.append_nil]

theorem Accounted.nil : Accounted [] := by
  intro index op result impossible
  cases impossible

theorem Accounted.concat (accounted : Accounted calls)
    (last : ((logAfter calls).Allowed op → (logAfter calls).Answers op result) ∨
      (op.IsAppend ∧ ∃ error, result = .error error)) :
    Accounted (calls ++ [⟨((), op), .finished result⟩]) := by
  intro index op' result' found
  rcases getElem?_of_concat found with before | ⟨rfl, same⟩
  · have inside := (List.getElem?_eq_some_iff.mp before).1
    rw [List.take_append_of_le_length (Nat.le_of_lt inside)]
    exact accounted index op' result' before
  · cases same
    rw [List.take_left]
    exact last

def FactoryEvent : ClusterEvent Unit Empty → Prop
  | .factory _ => True
  | .loglet _ _ | .openLog _ => False

instance : (event : ClusterEvent Unit Empty) → Decidable (FactoryEvent event)
  | .factory _ => isTrue trivial
  | .loglet _ _ | .openLog _ => isFalse id

theorem alike_of_event {event : ClusterEvent Unit Empty} (quiet : FactoryEvent event)
    (ran : soloComponent.background cluster event = some next) : Alike cluster next := by
  cases event with
  | factory error =>
      cases ran
      exact ⟨rfl, rfl, rfl⟩
  | loglet | openLog => exact quiet.elim

/-- The calls of a log whose factory may fail; `working` says that it does not where an
append calls it. -/
def resumeRules (foreign : ∀ index, initial ≠ generatedId (index + 1)) (working : Prop)
    (Polls : SoloLog → Unit × LogletOp → VirtualLog.Future Unit → Prop)
    (works : ∀ {cluster call future}, working → Polls cluster call future →
      CreateWorks cluster future) :
    CallRules soloComponent (fun call => ¬ call.2.IsTrim) Polls FactoryEvent where
  Idle history cluster := Accounted history ∧ ∃ ends, Between initial cluster ends (logAfter history)
  Busy history first call cluster future := Accounted history ∧ ¬ call.2.IsTrim ∧
    Resuming initial (logAfter history) first call.2 cluster future
  Done history first call cluster result := Accounted history ∧ ¬ call.2.IsTrim ∧
    (Given initial (logAfter history) call.2 cluster result ∨
      (¬ working ∧ GivenUp initial (logAfter history) first call.2 cluster result))
  start := by
    rintro history cluster ⟨⟨⟩, op⟩ ⟨accounted, ends, between⟩ noTrim
    exact ⟨accounted, noTrim, resuming_begin between noTrim⟩
  poll := by
    rintro history first ⟨⟨⟩, op⟩ cluster future next progress ⟨accounted, noTrim, resuming⟩ polls
      polled
    obtain ⟨-, holds⟩ := resuming_poll foreign resuming polled
    cases progress with
    | running later => exact ⟨accounted, noTrim, holds.1⟩
    | finished result =>
        refine ⟨accounted, noTrim, holds.imp_right fun ⟨failed, givenUp⟩ => ⟨?_, givenUp⟩⟩
        exact fun working => failed (works working polls)
  ended := by
    rintro history first ⟨⟨⟩, op⟩ cluster result ⟨accounted, noTrim, ⟨answers, ends, between⟩ |
      ⟨-, appends, ⟨error, rfl⟩, -, ends, between⟩⟩
    · rw [logAfter_given noTrim answers]
      exact ⟨accounted.concat (Or.inl answers), ends, between⟩
    · rw [logAfter_givenUp]
      exact ⟨accounted.concat (Or.inr ⟨appends, error, rfl⟩), ends, between⟩
  idle_background := by
    rintro history cluster event next ⟨accounted, ends, between⟩ quiet ran
    exact ⟨accounted, ends, between.alike (alike_of_event quiet ran)⟩
  busy_background := by
    rintro history first call cluster future event next ⟨accounted, noTrim, resuming⟩ quiet ran
    exact ⟨accounted, noTrim, resuming.alike (alike_of_event quiet ran)⟩
  done_background := by
    rintro history first call cluster result event next ⟨accounted, noTrim, done⟩ quiet ran
    have alike := alike_of_event quiet ran
    exact ⟨accounted, noTrim, done.imp (fun given => given.alike alike)
      fun ⟨failing, givenUp⟩ => ⟨failing, givenUp.alike alike⟩⟩

theorem Accounted.numbered (accounted : Accounted calls) {entry : Entry} {value : LogletValue}
    (found : calls[index]? = some ⟨((), .append entry), .finished (.ok value)⟩) :
    value = .pos ((acknowledged (calls.take index)).length + 1) := by
  rcases accounted index _ _ found with answers | ⟨-, error, impossible⟩
  · exact Except.ok.inj (answers trivial)
  · cases impossible

/-- The entry of an acknowledged append is where the log has it. -/
theorem acknowledged_found {entry : Entry} {value : LogletValue}
    (found : calls[index]? = some ⟨((), .append entry), .finished (.ok value)⟩) :
    (acknowledged calls)[(acknowledged (calls.take index)).length]? = some entry := by
  have parts : calls = calls.take index ++
      ([⟨((), .append entry), .finished (.ok value)⟩] ++ calls.drop (index + 1)) := by
    obtain ⟨inside, held⟩ := List.getElem?_eq_some_iff.mp found
    have rest : calls.drop index = _ := List.drop_eq_getElem_cons inside
    rw [held] at rest
    rw [List.singleton_append, ← rest, List.take_append_drop]
  have whole := congrArg acknowledged parts
  rw [acknowledged_append, acknowledged_append] at whole
  rw [whole, List.getElem?_append_right (Nat.le_refl _), Nat.sub_self]
  rfl

/-- Made next, the call returns this, and nothing else as long as the factory works when it
is called. -/
structure Gives (before : System SoloLog (Unit × LogletOp) (VirtualLog.Future Unit) LogletResult)
    (op : LogletOp) (result : LogletResult) : Prop where
  only : ∀ {after found}, soloComponent.machine.Run
      (OneByOne (fun call => ¬ call.2.IsTrim) (fun cluster _ future => CreateWorks cluster future)
        FactoryEvent) (before.begun soloComponent ((), op)) after →
    after.calls = before.calls ++ [⟨((), op), .finished found⟩] → found = result
  completes : ∀ {after future}, soloComponent.machine.Run
      (OneByOne (fun call => ¬ call.2.IsTrim) (fun cluster _ future => CreateWorks cluster future)
        FactoryEvent) (before.begun soloComponent ((), op)) after →
    after.calls = before.calls ++ [⟨((), op), .running future⟩] →
    (op.IsAppend → after.shared.factoryError = none) →
    ∃ last, Completes before.calls.length op after.shared future last result

/-- What the next append leaves when it fails and returns when it does not, and what the
earlier ones have left. -/
structure Resumes (before : System SoloLog (Unit × LogletOp) (VirtualLog.Future Unit) LogletResult) :
    Prop where
  failed : ∀ {entry error after}, soloComponent.machine.Run
      (OneByOne (fun call => ¬ call.2.IsTrim) (fun _ _ _ => True) FactoryEvent)
      (before.begun soloComponent ((), .append entry)) after →
    after.calls = before.calls ++ [⟨((), .append entry), .finished (.error error)⟩] →
    Unchanged before.shared after.shared
  resumed : ∀ entry,
    Gives before (.append entry) (.ok (.pos ((acknowledged before.calls).length + 1)))
  numbered : ∀ {index entry value}, before.Returned index ((), .append entry) (.ok value) →
    value = .pos ((acknowledged (before.calls.take index)).length + 1)
  readable : ∀ {index entry pos}, before.Returned index ((), .append entry) (.ok (.pos pos)) →
    Gives before (.read pos) (.ok (.entry (some entry)))

theorem same_progress {op : LogletOp}
    {progress progress' : Progress (VirtualLog.Future Unit) LogletResult}
    (same : calls ++ [⟨((), op), progress⟩] = calls ++ [⟨((), op), progress'⟩]) :
    progress = progress' := by
  have last := List.append_cancel_left same
  cases last
  rfl

theorem one_more {α : Type} {list more : List α} {last : α} (same : more = list ++ [last]) :
    more.length ≤ list.length + 1 := by
  rw [same, List.length_append]
  exact Nat.le_refl _

/-- A call that the log answers in only one way returns that. -/
theorem gives_of_answers (foreign : ∀ index, initial ≠ generatedId (index + 1))
    {before : System SoloLog (Unit × LogletOp) (VirtualLog.Future Unit) LogletResult}
    (settled : before.Settled) (accounted : Accounted before.calls)
    (between : Between initial before.shared ends (logAfter before.calls)) (noTrim : ¬ op.IsTrim)
    (allowed : (logAfter before.calls).Allowed op)
    (unique : ∀ found, (logAfter before.calls).Answers op found → found = result) :
    Gives before op result := by
  have idle : (resumeRules foreign True (fun cluster _ future => CreateWorks cluster future)
      (fun _ works => works)).Idle before.calls before.shared := ⟨accounted, ends, between⟩
  constructor
  · intro after found run same
    obtain ⟨progress, calls, done⟩ := CallRules.during idle settled noTrim run (one_more same)
    rw [same_progress (calls.symm.trans same)] at done
    obtain ⟨-, -, given | ⟨impossible, -⟩⟩ := done
    · exact unique found (given.answers allowed)
    · exact absurd trivial impossible
  · intro after future run same works
    obtain ⟨progress, calls, busy⟩ := CallRules.during idle settled noTrim run (one_more same)
    rw [same_progress (calls.symm.trans same)] at busy
    obtain ⟨-, -, resuming⟩ := busy
    obtain ⟨last, found, completes, given⟩ :=
      resuming.completes foreign before.calls.length works
    rw [unique found (given.answers allowed)] at completes
    exact ⟨last, completes⟩

/-- A reconfiguration that failed is taken up again by the next append for which the factory
works, at the next position and with everything before it. -/
theorem reconfiguration_resumes {initial : String}
    (foreign : ∀ index, initial ≠ generatedId (index + 1))
    {before : System SoloLog (Unit × LogletOp) (VirtualLog.Future Unit) LogletResult}
    (run : soloComponent.machine.Run
      (OneByOne (fun call => ¬ call.2.IsTrim) (fun _ _ _ => True) FactoryEvent)
      (.fresh (Cluster.new initial .new)) before) (settled : before.Settled) : Resumes before := by
  have fresh : (resumeRules foreign False (fun _ _ _ => True) (fun impossible => impossible.elim)).Idle
      [] (Cluster.new initial .new) := ⟨.nil, [], .new foreign⟩
  have idle := ((CallRules.Stands.fresh fresh).run run).idle settled
  have ⟨accounted, ends, between⟩ := idle
  refine ⟨?_, ?_, fun found => accounted.numbered found, ?_⟩
  · intro entry error after run same
    obtain ⟨progress, calls, done⟩ := CallRules.during idle settled id run (one_more same)
    rw [same_progress (calls.symm.trans same)] at done
    obtain ⟨-, -, given | ⟨-, givenUp⟩⟩ := done
    · have impossible := given.answers trivial
      cases impossible
    · exact givenUp.unchanged
  · intro entry
    exact gives_of_answers foreign settled accounted between id trivial fun _ answers => answers
  · intro index entry pos found
    have place := LogletValue.pos.inj (accounted.numbered found)
    have held := acknowledged_found found
    have allowed : logPosBegin ≤ pos := by
      rw [place]
      exact Nat.le_add_left _ _
    refine gives_of_answers foreign settled accounted between id allowed fun result answers => ?_
    have untrimmed : ¬ pos < (logAfter before.calls).trimPoint := Nat.not_lt.mpr allowed
    dsimp only [FlatLog.Answers] at answers
    rw [if_neg untrimmed] at answers
    rw [answers, place]
    exact congrArg (fun found => Except.ok (LogletValue.entry found)) held

/-- One append fails after its write to the MetaStore and one in `sync_chain`. -/
theorem reconfiguration_resumes_twice :
    ∃ system : System SoloLog (Unit × LogletOp) (VirtualLog.Future Unit) LogletResult,
      Resumes system ∧ system.calls =
        [⟨((), .append (.new [1])), .finished (.ok (.pos 1))⟩,
          ⟨((), .seal), .finished (.ok (.pos 2))⟩,
          ⟨((), .append (.new [2])), .finished (.error (.internal "factory"))⟩,
          ⟨((), .append (.new [3])), .finished (.error (.internal "factory"))⟩,
          ⟨((), .append (.new [4])), .finished (.ok (.pos 2))⟩,
          ⟨((), .read 1), .finished (.ok (.entry (some (.new [1]))))⟩] := by
  obtain ⟨system, run, seen⟩ := Machine.exists_run_of_execute soloComponent.machine
    (OneByOne (fun call => ¬ call.2.IsTrim) (fun _ _ _ => True) FactoryEvent)
    (.fresh (Cluster.new "main" .new))
    [.start ((), .append (.new [1])) :: List.replicate 3 (.poll 0),
      .start ((), .seal) :: List.replicate 3 (.poll 1),
      [.background (.factory (some (.internal "factory")))],
      .start ((), .append (.new [2])) :: List.replicate 10 (.poll 2),
      .start ((), .append (.new [3])) :: List.replicate 12 (.poll 3),
      [.background (.factory none)],
      .start ((), .append (.new [4])) :: List.replicate 18 (.poll 4),
      .start ((), .read 1) :: List.replicate 3 (.poll 5)].flatten
    System.calls
    [⟨((), .append (.new [1])), .finished (.ok (.pos 1))⟩,
      ⟨((), .seal), .finished (.ok (.pos 2))⟩,
      ⟨((), .append (.new [2])), .finished (.error (.internal "factory"))⟩,
      ⟨((), .append (.new [3])), .finished (.error (.internal "factory"))⟩,
      ⟨((), .append (.new [4])), .finished (.ok (.pos 2))⟩,
      ⟨((), .read 1), .finished (.ok (.entry (some (.new [1]))))⟩] (by decide +kernel)
  have foreign : ∀ index, "main" ≠ generatedId (index + 1) := foreign_of_head (by decide)
  have settled : system.Settled := by
    unfold System.Settled
    rw [seen]
    decide
  exact ⟨system, reconfiguration_resumes foreign run settled, seen⟩

end SoloLog

end Relos
