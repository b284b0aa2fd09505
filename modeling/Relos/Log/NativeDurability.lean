import Relos.Log.NativeReads

set_option autoImplicit false

/-! What accepted entries and views of the log servers promise to later calls of
the replicated loglet. -/

namespace Relos

open Async

namespace NativeLoglet

variable {n : Nat} {exit : Exit} {trims : Prop}

/-! ### Reads from a view -/

/-- Reads that start when the servers are in the view use answers from it. -/
def readPromise (unstored : exit = .unstored → ¬ trims) (view : View n trims) :
    Outline.Promise (nativeOutline n trims exit unstored).toOutline where
  Fact := view.Fact
  Running state op future := ∀ pos, op = .read pos → view.Reading pos state future
  Finished op result := ∀ pos, op = .read pos → view.ReadFrom pos result
  fact_stable := fun _ inv' grows fact => view.fact_stable inv'.1 grows fact
  begin_running := by
    intro state op _ _ pos same
    subst same
    exact view.reading_begin pos state
  poll_sound := by
    intro state index op future next progress inv fact _ running _ reading polled
    cases op with
    | read pos =>
        refine (view.reading_poll (running_read running) (inv.2.reaches future) (reading pos rfl)
          polled).imp
          (fun future held pos' same => ?_) (fun result held pos' same => ?_)
        · cases same
          exact held
        · cases same
          exact held
    | append | checkTail | trim | «seal» => cases progress <;> exact fun _ same => nomatch same
  running_stable := fun _ inv' fact grows reading pos same =>
    view.reading_stable inv'.1 fact grows (reading pos same)

/-- One server covers the position. -/
def coveringView (trims : Prop) (holder : Fin n) (pos : Nat) : View n trims where
  Seen server seen := server = holder → seen.Covers pos
  stable := fun covers grows _ same => grows.covers (covers same)

theorem coveringView_fact {state : NativeLoglet n} {holder : Fin n} {pos : Nat}
    (covers : (state.logServers holder).Covers pos) :
    (coveringView trims holder pos).Fact state := by
  intro server same
  rw [same]
  exact covers

theorem readResult_found {pos : Nat} {answer : ReadResult} {result : LogletResult}
    (ends : readResult pos answer = some result) :
    answer ≠ .notFound ∧ result ≠ .ok (.entry none) := by
  cases answer with
  | entry entry => exact ⟨fun same => (nomatch same), fun same => by cases same; cases ends⟩
  | trimmed => exact ⟨fun same => (nomatch same), fun same => by cases same; cases ends⟩
  | notFound => cases ends

/-- A read does not miss a position that a server covers. -/
theorem coveringView_result {holder : Fin n} {pos : Nat} {result : LogletResult}
    (told : (coveringView trims holder pos).ReadFrom pos result) :
    result ≠ .ok (.entry none) := by
  rcases told with ⟨_, missed⟩ | ⟨_, _, _, _, ends⟩
  · obtain ⟨seen, covers, absent⟩ := missed holder holder.isLt
    exact absurd (covers rfl) (LogServer.not_covers_of_read absent)
  · exact (readResult_found ends).2

/-- Two reads agree when the view leaves one answer to each server. -/
theorem View.ReadFrom.unique {view : View n trims} {pos : Nat} {result result' : LogletResult}
    (determined : ∀ server seen seen', view.Seen server seen → view.Seen server seen' →
      seen.read pos = seen'.read pos)
    (told : view.ReadFrom pos result) (told' : view.ReadFrom pos result') : result = result' := by
  -- A server that one read passed cannot be the one that ended the other.
  have passed : ∀ {bound : Nat} {server : Fin n} {seen : LogServer} {ended : LogletResult},
      view.Missed pos bound → server.val < bound → view.Seen server seen →
      readResult pos (seen.read pos) = some ended → False := by
    intro bound server seen ended missed before held ends
    obtain ⟨seen', held', absent⟩ := missed server before
    exact (readResult_found ends).1 ((determined server seen seen' held held').trans absent)
  rcases told with ⟨rfl, missed⟩ | ⟨server, seen, missed, held, ends⟩ <;>
    rcases told' with ⟨rfl, missed'⟩ | ⟨server', seen', missed', held', ends'⟩
  · rfl
  · exact (passed missed server'.isLt held' ends').elim
  · exact (passed missed' server.isLt held ends).elim
  · rcases Nat.lt_trichotomy server.val server'.val with earlier | same | later
    · exact (passed missed' earlier held ends).elim
    · rw [determined server seen seen' held (Fin.ext same ▸ held'), ends'] at ends
      exact (Option.some.inj ends).symm
    · exact (passed missed later held' ends').elim

/-- Sealed servers, without trims, hold what they held. -/
def frozenView (entries : Fin n → Nat → Option Entry) : View n False where
  Seen server seen := seen.sealed = true ∧ seen.trimPos = logPosBegin ∧
    ∀ pos, logPosBegin ≤ pos → seen.entries[pos]? = entries server pos
  stable := by
    intro server before after held grows untrimmed
    obtain ⟨isSealed, trimPos, same⟩ := held
    have bound := untrimmed fun impossible => impossible
    have later := grows.trimPos
    refine ⟨grows.sealed isSealed, by omega, fun pos inside => ?_⟩
    rw [← same pos inside]
    cases found : before.entries[pos]? with
    | some entry =>
        rcases grows.keeps (Or.inl found) with kept | trimmed
        · exact kept
        · omega
    | none =>
        cases found' : after.entries[pos]? with
        | none => rfl
        | some entry =>
            rw [grows.frozen isSealed found'] at found
            cases found

theorem frozenView_read {entries : Fin n → Nat → Option Entry} {server : Fin n} {pos : Nat}
    {seen : LogServer} (held : (frozenView entries).Seen server seen) :
    seen.read pos = if pos < logPosBegin then .trimmed
      else match entries server pos with
        | some entry => .entry entry
        | none => .notFound := by
  obtain ⟨_, trimPos, same⟩ := held
  unfold LogServer.read
  rw [trimPos]
  split
  · rfl
  · rename_i inside
    have known := same pos (Nat.le_of_not_lt inside)
    cases found : entries server pos with
    | none =>
        rw [found] at known
        simp only [known]
    | some entry =>
        rw [found] at known
        simp only [known]

/-! ### Accepted entries -/

/-- What a query that starts once the entry is accepted knows on its way. -/
def Awaiting (owner : Nat) (entry : Entry) (pos : Nat) (state : NativeLoglet n) (op : LogletOp)
    (future : Future) : Prop :=
  (op = .read pos → ∃ holder, state.Accepted holder owner entry pos ∧
      (coveringView False holder pos).Reading pos state future) ∧
    (op = .checkTail → TailAfter (pos + 1) state future)

/-- What it returns. -/
def Observes (entry : Entry) (pos : Nat) (op : LogletOp) (result : LogletResult) : Prop :=
  (op = .read pos → result = .ok (.entry (some entry))) ∧
    (op = .checkTail → ∀ tail, result = .ok (.pos tail) → pos < tail)

variable {state next : NativeLoglet n} {index owner pos : Nat} {entry : Entry} {op : LogletOp}

theorem Accepted.view {holder : Fin n} (inv : state.Inv trims)
    (accepted : state.Accepted holder owner entry pos) :
    (coveringView trims holder pos).Fact state :=
  coveringView_fact (accepted.keeps inv).covers

theorem Placed.lt_nextPos (inv : state.Inv trims) (placed : state.Placed owner entry pos) :
    pos < state.sequencer.nextPos := by
  obtain ⟨_, given⟩ := inv.placed_assigned placed
  exact (inv.answered given).2

theorem awaiting_begin (placed : state.Placed owner entry pos) :
    Awaiting owner entry pos state op (begin op) := by
  refine ⟨fun same => ?_, fun same => ?_⟩
  · subst same
    obtain ⟨holder, accepted⟩ := placed
    exact ⟨holder, accepted, (coveringView False holder pos).reading_begin pos state⟩
  · subst same
    trivial

theorem awaiting_stable (inv : state.Inv False) (inv' : next.Inv False)
    (grows : Grows index state next) (placed : state.Placed owner entry pos) {future : Future}
    (awaiting : Awaiting owner entry pos state op future) :
    Awaiting owner entry pos next op future := by
  refine ⟨fun same => ?_, fun same => ?_⟩
  · obtain ⟨holder, accepted, reading⟩ := awaiting.1 same
    exact ⟨holder, grows.accepted accepted,
      (coveringView False holder pos).reading_stable inv' (accepted.view inv) grows reading⟩
  · exact tailAfter_stable grows (placed.lt_nextPos inv) (awaiting.2 same)

/-- An untrimmed read that does not miss the position returns what is placed there. -/
theorem observed_read (inv : next.Inv False) (placed : next.Placed owner entry pos)
    {result : LogletResult} (finished : Finished exit next index (.read pos) result)
    (found : result ≠ .ok (.entry none)) : result = .ok (.entry (some entry)) := by
  cases result with
  | error error =>
      obtain ⟨_, _, server, trimmed⟩ := finished
      obtain ⟨_, given⟩ := inv.placed_assigned placed
      rw [trimPos_of_untrimmed inv (fun impossible => impossible) server] at trimmed
      exact absurd trimmed (Nat.not_lt.mpr (inv.answered given).1)
  | ok value =>
      obtain ⟨_, entry', rfl, present⟩ := finished
      cases entry' with
      | none => exact absurd rfl found
      | some entry' =>
          obtain ⟨owner', placed'⟩ := present entry' rfl
          obtain ⟨_, rfl⟩ := inv.assigned_unique (inv.placed_assigned placed)
            (inv.placed_assigned placed')
          rfl

theorem awaiting_poll (inv : state.Inv False) (live : state.Live)
    (placed : state.Placed owner entry pos) {future : Future}
    {progress : Progress Future LogletResult}
    (running : Running exit False state index op future) (pollOk : PollOk exit state future)
    (awaiting : Awaiting owner entry pos state op future)
    (polled : poll state index op future = some (next, progress)) :
    progress.Holds (Awaiting owner entry pos next op) (Observes entry pos op) := by
  obtain ⟨⟨inv', _⟩, holds, grows⟩ := poll_kept inv live running pollOk polled
  have later := grows (index + 1) (Nat.succ_ne_self index)
  by_cases reads : op = .read pos
  · subst reads
    obtain ⟨holder, accepted, reading⟩ := awaiting.1 rfl
    have outcome := (coveringView False holder pos).reading_poll (running_read running)
      (live.reaches future) reading polled
    cases progress with
    | running future =>
        exact ⟨fun _ => ⟨holder, later.accepted accepted, outcome⟩, fun impossible => nomatch impossible⟩
    | finished result =>
        exact ⟨fun _ => observed_read inv' (later.placed placed) holds (coveringView_result outcome),
          fun impossible => nomatch impossible⟩
  · by_cases queries : op = .checkTail
    · subst queries
      exact (tailAfter_poll live running (awaiting.2 rfl) polled).imp
        (fun _ held => ⟨fun same => absurd same reads, fun _ => held⟩)
        (fun _ held => ⟨fun same => absurd same reads, fun _ => held⟩)
    · cases progress <;> exact ⟨fun same => absurd same reads, fun same => absurd same queries⟩

/-! ### Sealed loglets -/

/-- A query of the tail, by `check_tail` or by an append that finds the flag set. -/
def Querying (tail : Nat) (state : NativeLoglet n) (future : Future) : Prop :=
  (future = .append ∨ future = .checkTail ∨ ∃ receiver, future = .checkTailReply receiver) ∧
    TailAfter tail state future

def Tailed (state : NativeLoglet n) (tail : Nat) : Prop :=
  state.sealed = true ∧ state.finalTail = some tail

theorem Tailed.stable (grows : Grows index state next) {tail : Nat} (tailed : state.Tailed tail) :
    next.Tailed tail :=
  ⟨grows.flag tailed.1, grows.finalTail tailed.2⟩

theorem querying_poll (inv : state.Inv trims) (live : state.Live) {tail : Nat}
    (tailed : state.Tailed tail) {future : Future} {progress : Progress Future LogletResult}
    (running : Running exit trims state index op future) (querying : Querying tail state future)
    (polled : poll state index op future = some (next, progress)) :
    progress.Holds (Querying tail next) fun result => result = tailResult tail op := by
  obtain ⟨rfl | rfl | ⟨receiver, rfl⟩, known⟩ := querying
  · simp only [poll] at polled
    rw [if_pos tailed.1] at polled
    cases polled
    exact ⟨Or.inr (Or.inl rfl), trivial⟩
  · cases polled
    exact ⟨Or.inr (Or.inr ⟨_, rfl⟩), _, sent_send ..,
      fun _ answered => (unanswered_send answered).elim⟩
  · obtain ⟨_, _, sent⟩ := running
    obtain ⟨sender, sent', known⟩ := known
    simp only [poll] at polled
    split at polled
    · rename_i tail' received
      cases polled
      have answered := receive_sent sent' received
      obtain ⟨_, below⟩ := inv.answered answered
      obtain ⟨_, rfl⟩ := finalTail_eq_some.mp tailed.2
      have same : tail' = state.sequencer.nextPos := Nat.le_antisymm below (known tail' answered)
      rw [same]
      rfl
    · rename_i received
      exact absurd received (live.receive receiver)
    · cases polled

/-- Appends and tail queries that start once the loglet is sealed report its tail. -/
def tailPromise (unstored : exit = .unstored → ¬ trims) (tail : Nat) :
    Outline.Promise (nativeOutline n trims exit unstored).toOutline where
  Fact state := state.Tailed tail
  Running state op future := op.IsAppend ∨ op = .checkTail → Querying tail state future
  Finished op result := op.IsAppend ∨ op = .checkTail → result = tailResult tail op
  fact_stable := fun _ _ grows tailed => tailed.stable grows
  begin_running := by
    intro state op _ _ queries
    cases op with
    | append entry => exact ⟨Or.inl rfl, trivial⟩
    | checkTail => exact ⟨Or.inr (Or.inl rfl), trivial⟩
    | read | trim | «seal» => rcases queries with impossible | impossible <;> cases impossible
  poll_sound := by
    intro state index op future next progress inv tailed _ running _ querying polled
    by_cases queries : op.IsAppend ∨ op = .checkTail
    · exact (querying_poll inv.1 inv.2 tailed running (querying queries) polled).imp
        (fun _ held _ => held) (fun _ held _ => held)
    · cases progress <;> exact fun queries' => absurd queries' queries
  running_stable := by
    intro state next index op future _ _ tailed grows querying queries
    obtain ⟨_, rfl⟩ := finalTail_eq_some.mp tailed.2
    obtain ⟨shape, known⟩ := querying queries
    exact ⟨shape, tailAfter_stable grows (Nat.le_refl _) known⟩

/-! ### Entries of calls that gave up -/

/-- A position that was given up while no server held it stays without an entry. -/
theorem Traces.placed_current {receivers : List Nat} {current : Option Nat} (inv : state.Inv False)
    (traces : Traces .unstored state index receivers current)
    (placed : state.Placed index entry pos) :
    ∃ giver, current = some giver ∧ state.AssignedBy giver (index, .append entry) pos := by
  obtain ⟨giver, given⟩ := inv.placed_assigned placed
  rcases traces.settled given with same | holds
  · exact ⟨giver, same.symm, given⟩
  · obtain ⟨server, accepted⟩ := placed
    have held := accepted.held inv fun impossible => impossible
    rw [holds server] at held
    cases held

theorem settled_unplaced (inv : state.Inv False) (settled : Settled .unstored state index) :
    ¬ state.Placed index entry pos := by
  intro placed
  obtain ⟨_, impossible, _⟩ := settled.placed_current inv placed
  cases impossible

theorem running_placed (inv : state.Inv False) {future : Future}
    (running : Running .unstored False state index op future)
    (placed : state.Placed index entry pos) : op = .append entry := by
  by_cases appends : op.IsAppend
  · cases future with
    | append => exact absurd placed (settled_unplaced inv running.2)
    | nextPos => exact absurd placed (settled_unplaced inv running.2)
    | nextPosReply receiver =>
        obtain ⟨_, traces, _, sent⟩ := running
        obtain ⟨_, same, given⟩ := traces.placed_current inv placed
        cases same
        cases Option.some.inj (sent.symm.trans given)
        rfl
    | markSealed => exact absurd placed (settled_unplaced inv running.2)
    | checkTail => exact absurd placed (settled_unplaced inv running.2)
    | checkTailReply receiver => exact absurd placed (settled_unplaced inv running.2.1)
    | fanOutStore pos' receivers =>
        obtain ⟨_, _, _, given, traces, _⟩ := running
        obtain ⟨_, same, given'⟩ := traces.placed_current inv placed
        cases same
        cases Option.some.inj (given.symm.trans given')
        rfl
    | storeReplies pos' receivers ackCount sealTail =>
        obtain ⟨_, _, _, _, given, traces, _⟩ := running
        obtain ⟨_, same, given'⟩ := traces.placed_current inv placed
        cases same
        cases Option.some.inj (given.symm.trans given')
        rfl
    | read | readReply | fanOutTrim | sealSequencer | sealSequencerReply | fanOutSeal
    | sealReplies => cases running.1; exact appends.elim
    | trimReplies receivers =>
        obtain ⟨_, _, rfl, _⟩ := running
        exact appends.elim
  · exact absurd placed (settled_unplaced inv (running_fresh appends running))

theorem finished_placed (inv : state.Inv False) {result : LogletResult}
    (finished : Finished .unstored state index op result)
    (placed : state.Placed index entry pos) : op = .append entry ∧ result = .ok (.pos pos) := by
  by_cases failed : op.IsAppend → ∃ error, result = .error error
  · exact absurd placed (settled_unplaced inv (finished_fresh finished failed))
  · cases op with
    | append entry' =>
        cases result with
        | error error => exact absurd (fun _ => ⟨error, rfl⟩) failed
        | ok value =>
            obtain ⟨pos', giver, rfl, given, traces, _⟩ := finished
            obtain ⟨_, same, given'⟩ := traces.placed_current inv placed
            cases same
            cases Option.some.inj (given.symm.trans given')
            exact ⟨rfl, rfl⟩
    | checkTail | read | trim | «seal» => exact absurd (fun impossible => impossible.elim) failed

end NativeLoglet

open NativeLoglet

/-- The replicated loglet without trims. -/
def nativeDurable (n : Nat) (exit : Exit) : DurableOutline (nativeComponent n) where
  toLogletOutline := nativeOutline n False exit fun _ impossible => impossible
  durable owner entry pos :=
    { Fact := fun state => state.Placed owner entry pos
      Running := Awaiting owner entry pos
      Finished := Observes entry pos
      fact_stable := fun _ _ grows placed => grows.placed placed
      begin_running := fun _ placed => awaiting_begin placed
      poll_sound := fun inv placed _ running pollOk awaiting polled =>
        awaiting_poll inv.1 inv.2 placed running pollOk awaiting polled
      running_stable := fun inv inv' placed grows awaiting =>
        awaiting_stable inv.1 inv'.1 grows placed awaiting }
  append_durable := by
    intro state index entry pos _ finished
    obtain ⟨_, _, same, _, _, quorum⟩ := finished
    cases same
    exact quorum.placed
  durable_placed := fun _ placed => placed
  durable_read := fun observed => observed.1 rfl
  durable_tail := fun observed => observed.2 rfl _ rfl

/-- The replicated loglet when appends that end below their quorum are stored nowhere. -/
def nativeOnce (n : Nat) : OnceOutline (nativeComponent n) where
  toDurableOutline := nativeDurable n .unstored
  fresh_unplaced := fun inv settled => settled_unplaced inv.1 settled
  running_placed := fun inv running placed => running_placed inv.1 running placed
  finished_placed := fun inv finished placed => finished_placed inv.1 finished placed

end Relos
