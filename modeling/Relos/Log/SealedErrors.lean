import Relos.Log.NativeHoles
import Relos.Log.NativeQueues

set_option autoImplicit false

/-! The tail that an append on a sealed replicated loglet reports. It is the counter of
the sequencer on two paths, and on the third the local tail of the log server whose
refusal came last. -/

namespace Relos

open Async NativeLoglet

/-- A sealed log server stays so, with the tail it has. -/
theorem LogServer.handle_frozen {server : LogServer} (isSealed : server.sealed = true)
    (asked : LogServerRequest) :
    (server.handle asked).1.sealed = true ∧ (server.handle asked).1.tail = server.tail := by
  cases asked with
  | store pos entry =>
      simp only [LogServer.handle, LogServer.store, if_pos isSealed]
      exact ⟨isSealed, trivial⟩
  | read pos => exact ⟨isSealed, rfl⟩
  | «seal» => exact ⟨rfl, rfl⟩
  | trim pos =>
      refine ⟨(server.trim_grows pos).sealed isSealed, ?_⟩
      exact server.trim_tail pos

theorem LogServer.store_refuses {server : LogServer} {pos tail : Nat} {entry : Entry}
    (refused : (server.store pos entry).2 = .error tail) :
    server.sealed = true ∧ server.tail = tail := by
  unfold LogServer.store at refused
  split at refused
  · rename_i isSealed
    cases refused
    exact ⟨isSealed, rfl⟩
  · split at refused <;> cases refused

/-- The server refused to store for the call. -/
def Message.isRefusal {n : Nat} (sender : Nat × LogletOp) (server : Fin n) : Message n → Bool
  | ⟨sender', .logServer target (.store _ _), .sent (.stored (.error _))⟩ =>
      decide (sender' = sender ∧ target = server)
  | _ => false

namespace NativeLoglet

variable {n : Nat} {state next : NativeLoglet n} {index receiver : Nat} {op : LogletOp}
  {sender : Nat × LogletOp} {future : Future} {progress : Progress Future LogletResult}

/-! ### What seals leave -/

/-- Log servers and the flag are sealed after the sequencer. A refusal tells the tail of
its server, which stays. -/
structure Seals (state : NativeLoglet n) : Prop where
  flag : state.sealed = true → state.sequencer.sealed = true
  asked : ∀ {receiver sender server}, state.Sent receiver sender (.logServer server .seal) →
    state.sequencer.sealed = true
  servers : ∀ server, (state.logServers server).sealed = true → state.sequencer.sealed = true
  refused : ∀ {receiver sender server pos entry tail},
    state.Answered receiver sender (.logServer server (.store pos entry)) (.stored (.error tail)) →
    (state.logServers server).sealed = true ∧ (state.logServers server).tail = tail

theorem Seals.new (n : Nat) : (new n).Seals := by
  refine ⟨fun isSealed => ?_, fun sent => ?_, fun _ isSealed => ?_, fun answered => ?_⟩
  · cases isSealed
  · obtain ⟨receipt, found⟩ := sent
    cases found
  · cases isSealed
  · cases answered

/-- What a task serves leaves sealed servers as they are. -/
theorem handle_frozen (state : NativeLoglet n) (receiver : Nat) (request : Request n)
    {server : Fin n} (isSealed : (state.logServers server).sealed = true) :
    ((state.handle receiver request).logServers server).sealed = true ∧
      ((state.handle receiver request).logServers server).tail = (state.logServers server).tail := by
  cases request with
  | sequencer asked => exact ⟨isSealed, rfl⟩
  | logServer target asked =>
      rcases handle_logServers state receiver target server asked with ⟨rfl, self⟩ | ⟨-, same⟩
      · rw [self]
        exact LogServer.handle_frozen isSealed asked
      · rw [same]
        exact ⟨isSealed, rfl⟩

theorem Seals.serve {task : Task n} (seals : state.Seals) (served : state.serve task = some next) :
    next.Seals := by
  obtain ⟨receiver, sender, request, pending, rfl⟩ := serve_cases served
  have grows : Grows 0 state (state.handle receiver request) := handle_grows pending
  have later (isSealed : state.sequencer.sealed = true) :
      (state.handle receiver request).sequencer.sealed = true :=
    (grows.sequencer.frozen isSealed).1
  have flag : (state.handle receiver request).sealed = state.sealed := by
    cases request <;> rfl
  refine ⟨fun isSealed => ?_, fun sent => ?_, fun server isSealed => ?_,
    fun {other sender' server pos entry tail} answered => ?_⟩
  · rw [flag] at isSealed
    exact later (seals.flag isSealed)
  · obtain ⟨receipt, found⟩ := sent
    rw [handle_messages] at found
    exact later (seals.asked (sent_of_answer pending found))
  · cases request with
    | sequencer asked => exact later (seals.servers server isSealed)
    | logServer target asked =>
        rcases handle_logServers state receiver target server asked with ⟨rfl, self⟩ | ⟨-, same⟩
        · rw [self] at isSealed
          rcases LogServer.handle_sealed isSealed with before | rfl
          · exact later (seals.servers server before)
          · exact later (seals.asked ⟨_, pending⟩)
        · rw [same] at isSealed
          exact later (seals.servers server isSealed)
  · have known : (state.logServers server).sealed = true ∧ (state.logServers server).tail = tail := by
      unfold Answered at answered
      rw [handle_messages] at answered
      rcases answered_of_answer pending answered with before | ⟨-, -, rfl, told⟩
      · exact seals.refused before
      · exact LogServer.store_refuses (Reply.stored.inj told).symm
    obtain ⟨isSealed, same⟩ := handle_frozen state receiver request known.1
    exact ⟨isSealed, same.trans known.2⟩

/-- A poll needs to know that the sequencer is sealed to set the flag or to send a seal. -/
theorem Seals.poll (seals : state.Seals) (polls : Polls index op future state next)
    (flags : next.sealed = true → state.sealed = true ∨ state.sequencer.sealed = true)
    (sends : ∀ server : Fin n, MaySend future (.logServer server .seal) →
      state.sequencer.sealed = true) : next.Seals := by
  refine ⟨fun isSealed => ?_, fun {receiver sender server} sent => ?_, fun server isSealed => ?_,
    fun answered => ?_⟩
  · rw [polls.sequencer]
    rcases flags isSealed with before | known
    · exact seals.flag before
    · exact known
  · rw [polls.sequencer]
    obtain ⟨receipt, found⟩ := sent
    rcases polls.found found with before | ⟨may, -⟩
    · exact seals.asked ⟨receipt, before⟩
    · exact sends server may
  · rw [polls.sequencer]
    rw [polls.logServers] at isSealed
    exact seals.servers server isSealed
  · rw [polls.logServers]
    rcases polls.found answered with before | ⟨-, unanswered⟩
    · exact seals.refused before
    · cases unanswered

/-! ### The refusal that came last -/

def refusedBy (state : NativeLoglet n) (sender : Nat × LogletOp) (server : Fin n) : Bool :=
  state.messages.any fun message => message.isRefusal sender server

/-- No server after this one refused to store for the call. -/
def LastRefused (state : NativeLoglet n) (sender : Nat × LogletOp) (server : Fin n) : Prop :=
  state.refusedBy sender server = true ∧
    ∀ later : Fin n, server < later → state.refusedBy sender later = false

instance (state : NativeLoglet n) (sender : Nat × LogletOp) (server : Fin n) :
    Decidable (state.LastRefused sender server) :=
  inferInstanceAs (Decidable (_ ∧ ∀ later : Fin n, server < later →
    state.refusedBy sender later = false))

/-- An append that ends below its quorum was refused last by a server that holds as much
as the sequencer has assigned. -/
def RefusedUpToDate (state : NativeLoglet n) (index : Nat) (op : LogletOp) : Future → Prop
  | .storeReplies _ [] ackCount _ => ackCount < quorumSize n → ∀ server : Fin n,
      state.LastRefused (index, op) server →
      (state.logServers server).tail = state.sequencer.nextPos
  | _ => True

theorem refusedBy_iff {server : Fin n} : state.refusedBy sender server = true ↔
    ∃ receiver pos entry tail, state.Answered receiver sender (.logServer server (.store pos entry))
      (.stored (.error tail)) := by
  unfold refusedBy
  rw [List.any_eq_true]
  constructor
  · rintro ⟨message, member, refusal⟩
    obtain ⟨receiver, found⟩ := List.mem_iff_getElem?.mp member
    unfold Message.isRefusal at refusal
    split at refusal
    · obtain ⟨rfl, rfl⟩ := of_decide_eq_true refusal
      exact ⟨receiver, _, _, _, found⟩
    · cases refusal
  · rintro ⟨receiver, pos, entry, tail, answered⟩
    exact ⟨_, List.mem_of_getElem? answered, decide_eq_true ⟨rfl, rfl⟩⟩

/-! ### Appends on the way -/

/-- All stores that the call has sent are among these. -/
def StoresAmong (state : NativeLoglet n) (sender : Nat × LogletOp) (receivers : List Nat) : Prop :=
  ∀ (receiver : Nat) (server : Fin n) (pos : Nat) (entry : Entry),
    state.Sent receiver sender (.logServer server (.store pos entry)) → receiver ∈ receivers

def Acked (state : NativeLoglet n) (receiver : Nat) : Prop :=
  ∃ repeated, state.receive receiver = .sent (.stored (.ok repeated))

/-- What the replies so far tell of the refusals. -/
def Tells (state : NativeLoglet n) (done : List Nat) : Option Nat → Prop
  | none => ∀ receiver ∈ done, state.Acked receiver
  | some tail => ∃ before refused after, done = before ++ refused :: after ∧
      state.receive refused = .sent (.stored (.error tail)) ∧
      ∀ receiver ∈ after, state.Acked receiver

/-- What is known of a call beside its outline. -/
def Sealing (state : NativeLoglet n) (index : Nat) (op : LogletOp) : Future → Prop
  | .append | .nextPos | .nextPosReply _ => state.StoresAmong (index, op) []
  | .markSealed => state.sequencer.sealed = true
  | .checkTail => op.IsAppend → state.sequencer.sealed = true
  | .checkTailReply receiver => op.IsAppend → state.sequencer.sealed = true ∧
      ∀ tail, state.Answered receiver (index, op) (.sequencer .checkTail) (.tail tail) →
        state.sequencer.nextPos ≤ tail
  | .fanOutStore _ receivers => state.StoresAmong (index, op) receivers
  | .storeReplies pos receivers _ sealTail => ∃ entry done, op = .append entry ∧
      (done ++ receivers).length = n ∧
      state.Receivers (index, op) (.store pos entry) 0 (done ++ receivers) ∧
      state.StoresAmong (index, op) (done ++ receivers) ∧ state.Tells done sealTail
  | _ => True

/-- A `Sealed` error names the final tail. -/
def Told (state : NativeLoglet n) (op : LogletOp) (result : LogletResult) : Prop :=
  op.IsAppend → ∀ tail, result = .error (.sealed tail) → state.finalTail = some tail

theorem receive_stable (grows : Grows index state next) {reply : Reply}
    (received : state.receive receiver = .sent reply) : next.receive receiver = .sent reply := by
  unfold NativeLoglet.receive at received ⊢
  cases found : state.messages[receiver]? with
  | none =>
      rw [found] at received
      cases received
  | some message =>
      rw [found] at received
      obtain ⟨receipt, later, same⟩ := grows.messages receiver message found
      have kept : message.receipt = .sent reply := received
      rw [later, ← received]
      exact same (by rw [kept]; exact fun impossible => nomatch impossible)

theorem Acked.stable (grows : Grows index state next) (acked : state.Acked receiver) :
    next.Acked receiver := by
  obtain ⟨repeated, received⟩ := acked
  exact ⟨repeated, receive_stable grows received⟩

theorem Tells.stable (grows : Grows index state next) {done : List Nat} {sealTail : Option Nat}
    (tells : state.Tells done sealTail) : next.Tells done sealTail := by
  cases sealTail with
  | none => exact fun receiver member => (tells receiver member).stable grows
  | some tail =>
      obtain ⟨before, refused, after, whole, received, acked⟩ := tells
      exact ⟨before, refused, after, whole, receive_stable grows received,
        fun receiver member => (acked receiver member).stable grows⟩

theorem StoresAmong.stable (grows : Grows index state next) {receivers : List Nat}
    (among : state.StoresAmong (index, op) receivers) : next.StoresAmong (index, op) receivers := by
  intro receiver server pos entry sent
  obtain ⟨receipt, found⟩ := sent
  obtain ⟨earlier, before, -⟩ := grows.own found rfl
  exact among receiver server pos entry ⟨earlier, before⟩

theorem Sealing.stable (grows : Grows index state next)
    (sealing : state.Sealing index op future)
    (running : Running .any True state index op future) : next.Sealing index op future := by
  have later (isSealed : state.sequencer.sealed = true) : next.sequencer.sealed = true :=
    (grows.sequencer.frozen isSealed).1
  cases future with
  | append | nextPos | nextPosReply | fanOutStore => exact StoresAmong.stable grows sealing
  | markSealed => exact later sealing
  | checkTail => exact fun appends => later (sealing appends)
  | checkTailReply receiver =>
      intro appends
      obtain ⟨isSealed, reached⟩ := sealing appends
      refine ⟨later isSealed, fun tail answered => ?_⟩
      rw [(grows.sequencer.frozen isSealed).2]
      rcases grows.answered_before running.2.2 answered with pending | before
      · exact grows.tails pending answered
      · exact reached tail before
  | storeReplies pos receivers ackCount sealTail =>
      obtain ⟨entry, done, same, length, sent, among, tells⟩ := sealing
      exact ⟨entry, done, same, length, sent.stable grows, StoresAmong.stable grows among,
        tells.stable grows⟩
  | read | readReply | fanOutTrim | trimReplies | sealSequencer | sealSequencerReply | fanOutSeal
  | sealReplies => trivial

theorem Told.stable (grows : Grows index state next) {result : LogletResult}
    (told : state.Told op result) : next.Told op result :=
  fun appends tail same => grows.finalTail (told appends tail same)

/-! ### Polls -/

theorem StoresAmong.send {receivers : List Nat} {request : Request n}
    (among : state.StoresAmong (index, op) receivers)
    (other : ∀ server pos entry, request ≠ .logServer server (.store pos entry)) :
    (state.send index op request).StoresAmong (index, op) receivers := by
  intro receiver server pos entry sent
  rcases sent_of_send sent with before | ⟨-, same⟩
  · exact among receiver server pos entry before
  · exact absurd same.symm (other server pos entry)

theorem StoresAmong.sendStore {receivers : List Nat} {request : Request n}
    (among : state.StoresAmong (index, op) receivers) :
    (state.send index op request).StoresAmong (index, op) (receivers ++ [state.receiver]) := by
  intro receiver server pos entry sent
  obtain ⟨receipt, found⟩ := sent
  rcases getElem?_of_concat found with before | ⟨here, -⟩
  · exact List.mem_append_left _ (among receiver server pos entry ⟨receipt, before⟩)
  · rw [here]
    exact List.mem_append_right _ List.mem_cons_self

theorem receive_answered {request : Request n} {reply : Reply}
    (answered : state.Answered receiver sender request reply) :
    state.receive receiver = .sent reply := by
  unfold NativeLoglet.receive
  rw [answered]
  rfl

/-- The store that a server refused is where the server stands among the receivers. -/
theorem refused_slot {done : List Nat} {pos : Nat} {entry : Entry} {server : Fin n}
    (sent : state.Receivers (index, op) (.store pos entry) 0 done)
    (among : state.StoresAmong (index, op) done)
    (refuses : state.refusedBy (index, op) server = true) :
    ∃ receiver tail, done[server.val]? = some receiver ∧
      state.receive receiver = .sent (.stored (.error tail)) := by
  obtain ⟨receiver, pos', entry', tail, answered⟩ := refusedBy_iff.mp refuses
  obtain ⟨slot, found⟩ := List.mem_iff_getElem?.mp
    (among receiver server pos' entry' ⟨_, answered⟩)
  obtain ⟨inside, receipt, held⟩ := sent.2 slot receiver found
  have same := Option.some.inj (held.symm.trans answered)
  injection same with _ requests _
  injection requests with servers _
  have here : server.val = slot := by
    rw [← servers]
    exact Nat.zero_add slot
  exact ⟨receiver, tail, here ▸ found, receive_answered answered⟩

/-- The refusal that is remembered is that of the last server that refused. -/
theorem Tells.lastRefused {done : List Nat} {pos tail : Nat} {entry : Entry}
    (sent : state.Receivers (index, op) (.store pos entry) 0 done)
    (among : state.StoresAmong (index, op) done) (tells : state.Tells done (some tail)) :
    ∃ server receiver, state.LastRefused (index, op) server ∧
      state.Answered receiver (index, op) (.logServer server (.store pos entry))
        (.stored (.error tail)) := by
  obtain ⟨before, refused, after, rfl, received, acked⟩ := tells
  have located : (before ++ refused :: after)[before.length]? = some refused := by
    rw [List.getElem?_append_right (Nat.le_refl _), Nat.sub_self]
    rfl
  obtain ⟨inside, asked⟩ := sent.2 before.length refused located
  have answered := receive_sent asked received
  refine ⟨_, refused, ⟨refusedBy_iff.mpr ⟨refused, pos, entry, tail, answered⟩, ?_⟩, answered⟩
  intro later behind
  refine Bool.eq_false_iff.mpr fun refuses => ?_
  obtain ⟨receiver, tail', found, received'⟩ := refused_slot sent among refuses
  have beyond : before.length < later.val := Nat.lt_of_le_of_lt (Nat.le_add_left _ 0) behind
  rw [List.getElem?_append_right (Nat.le_of_lt beyond)] at found
  obtain ⟨distance, gap⟩ := Nat.exists_eq_add_of_lt beyond
  rw [show later.val - before.length = distance + 1 by omega, List.getElem?_cons_succ] at found
  obtain ⟨repeated, acks⟩ := acked receiver (List.mem_of_getElem? found)
  cases received'.symm.trans acks

/-- The futures whose poll may set the flag. -/
def Flags : Future → Prop
  | .markSealed => True
  | .storeReplies _ [] _ (some _) => True
  | .sealReplies _ [] _ _ => True
  | _ => False

theorem fanOut_flag {request : LogServerRequest} {receivers : List Nat} {more : List Nat → Future}
    {sentAll : Future}
    (polled : fanOut state index op request receivers more sentAll = some (next, progress)) :
    next.sealed = state.sealed := by
  unfold fanOut at polled
  split at polled
  · unfold sendTo at polled
    split at polled <;> cases polled <;> rfl
  · cases polled
    rfl

theorem poll_flag (polled : poll state index op future = some (next, progress)) :
    Flags future ∨ next.sealed = state.sealed := by
  cases future with
  | markSealed => exact Or.inl trivial
  | nextPos | checkTail | sealSequencer =>
      cases polled
      exact Or.inr rfl
  | append =>
      simp only [NativeLoglet.poll] at polled
      split at polled <;> cases polled <;> exact Or.inr rfl
  | nextPosReply | checkTailReply | readReply | sealSequencerReply =>
      simp only [NativeLoglet.poll] at polled
      split at polled <;> cases polled <;> exact Or.inr rfl
  | fanOutStore pos receivers =>
      cases op with
      | append entry => exact Or.inr (fanOut_flag polled)
      | checkTail | read | trim | «seal» => cases polled
  | fanOutTrim pos receivers => exact Or.inr (fanOut_flag polled)
  | fanOutSeal sequencerTail receivers => exact Or.inr (fanOut_flag polled)
  | read pos server =>
      simp only [NativeLoglet.poll] at polled
      split at polled
      · unfold sendTo at polled
        split at polled <;> cases polled <;> exact Or.inr rfl
      · cases polled
        exact Or.inr rfl
  | storeReplies pos receivers ackCount sealTail =>
      cases receivers with
      | nil =>
          cases sealTail with
          | some tail => exact Or.inl trivial
          | none =>
              simp only [NativeLoglet.poll, acknowledge] at polled
              split at polled <;> cases polled <;> exact Or.inr rfl
      | cons receiver rest =>
          simp only [NativeLoglet.poll] at polled
          split at polled <;> cases polled <;> exact Or.inr rfl
  | trimReplies receivers =>
      cases receivers with
      | nil =>
          cases polled
          exact Or.inr rfl
      | cons receiver rest =>
          simp only [NativeLoglet.poll] at polled
          split at polled <;> cases polled <;> exact Or.inr rfl
  | sealReplies sequencerTail receivers sealedCount maxTail =>
      cases receivers with
      | nil => exact Or.inl trivial
      | cons receiver rest =>
          simp only [NativeLoglet.poll] at polled
          split at polled <;> cases polled <;> exact Or.inr rfl

/-- The server that refused last is sealed, and has the tail that is remembered. -/
theorem Seals.remembered (seals : state.Seals) {pos ackCount tail : Nat}
    (sealing : state.Sealing index op (.storeReplies pos [] ackCount (some tail))) :
    state.sequencer.sealed = true ∧ ∃ server, state.LastRefused (index, op) server ∧
      (state.logServers server).tail = tail := by
  obtain ⟨entry, done, -, -, sent, among, tells⟩ := sealing
  rw [List.append_nil] at sent among
  obtain ⟨server, receiver, last, answered⟩ := tells.lastRefused sent among
  obtain ⟨isSealed, same⟩ := seals.refused answered
  exact ⟨seals.servers server isSealed, server, last, same⟩

theorem Seals.polled (seals : state.Seals) (running : Running .any True state index op future)
    (sealing : state.Sealing index op future)
    (polled : NativeLoglet.poll state index op future = some (next, progress)) : next.Seals := by
  refine seals.poll (poll_polls polled) (fun flagged => ?_) fun server may => ?_
  · rcases poll_flag polled with flags | same
    · refine Or.inr ?_
      unfold Flags at flags
      split at flags
      · exact sealing
      · exact (seals.remembered sealing).1
      · obtain ⟨-, -, final, -⟩ := running
        exact (finalTail_eq_some.mp final).1
      · exact flags.elim
    · exact Or.inl (same ▸ flagged)
  · cases future with
    | fanOutSeal sequencerTail receivers =>
        obtain ⟨-, -, final, -⟩ := running
        exact (finalTail_eq_some.mp final).1
    | append | nextPos | nextPosReply | markSealed | checkTail | checkTailReply | fanOutStore
    | storeReplies | read | readReply | fanOutTrim | trimReplies | sealSequencer
    | sealSequencerReply | sealReplies => exact may.elim

theorem told_other (other : ¬ op.IsAppend) (result : LogletResult) : state.Told op result :=
  fun appends => absurd appends other

theorem fanOutStore_sealing {entry : Entry} {pos : Nat} {receivers : List Nat}
    (sent : state.Receivers (index, .append entry) (.store pos entry) 0 receivers)
    (among : state.StoresAmong (index, .append entry) receivers)
    (polled : NativeLoglet.poll state index (.append entry) (.fanOutStore pos receivers) =
      some (next, progress)) :
    progress.Holds (next.Sealing index (.append entry)) (next.Told (.append entry)) := by
  simp only [NativeLoglet.poll, NativeLoglet.fanOutStore, fanOut] at polled
  split at polled
  · unfold sendTo at polled
    split at polled
    · cases polled
      exact among.sendStore
    · cases polled
      exact fun _ tail same => by cases same
  · rename_i all
    cases polled
    have length : receivers.length = n := by
      have most := sent.1
      omega
    exact ⟨entry, [], rfl, length, sent, among, fun _ member => absurd member List.not_mem_nil⟩

theorem storeReply_sealing {pos receiver ackCount : Nat} {receivers : List Nat}
    {sealTail : Option Nat} (live : state.Live)
    (sealing : state.Sealing index op (.storeReplies pos (receiver :: receivers) ackCount sealTail))
    (polled : NativeLoglet.poll state index op
      (.storeReplies pos (receiver :: receivers) ackCount sealTail) = some (next, progress)) :
    progress.Holds (next.Sealing index op) (next.Told op) := by
  obtain ⟨entry, done, same, length, sent, among, tells⟩ := sealing
  have whole : done ++ receiver :: receivers = (done ++ [receiver]) ++ receivers := by
    rw [List.append_assoc]
    rfl
  rw [whole] at length sent among
  simp only [NativeLoglet.poll] at polled
  split at polled
  · rename_i repeated received
    cases polled
    refine ⟨entry, done ++ [receiver], same, length, sent, among, ?_⟩
    have acked : state.Acked receiver := ⟨repeated, received⟩
    cases sealTail with
    | none =>
        intro other member
        rcases List.mem_append.mp member with earlier | last
        · exact tells other earlier
        · rw [List.mem_singleton.mp last]
          exact acked
    | some tail =>
        obtain ⟨before, refused, after, rfl, received', acks⟩ := tells
        refine ⟨before, refused, after ++ [receiver], by simp, received', fun other member => ?_⟩
        rcases List.mem_append.mp member with earlier | last
        · exact acks other earlier
        · rw [List.mem_singleton.mp last]
          exact acked
  · rename_i tail received
    cases polled
    exact ⟨entry, done ++ [receiver], same, length, sent, among,
      done, receiver, [], rfl, received, fun _ member => absurd member List.not_mem_nil⟩
  · rename_i received
    exact absurd received (live.receive receiver)
  · cases polled

theorem acknowledge_told (seals : state.Seals) {pos ackCount : Nat} {sealTail : Option Nat}
    (sealing : state.Sealing index op (.storeReplies pos [] ackCount sealTail))
    (upToDate : state.RefusedUpToDate index op (.storeReplies pos [] ackCount sealTail))
    (polled : NativeLoglet.poll state index op (.storeReplies pos [] ackCount sealTail) =
      some (next, progress)) :
    progress.Holds (next.Sealing index op) (next.Told op) := by
  simp only [NativeLoglet.poll, acknowledge] at polled
  split at polled
  · cases polled
    exact fun _ tail same => by cases same
  · rename_i below
    split at polled
    · rename_i tail
      cases polled
      obtain ⟨isSealed, server, last, same⟩ := seals.remembered sealing
      intro _ tail' told
      cases told
      refine finalTail_eq_some.mpr ⟨isSealed, ?_⟩
      rw [← same]
      exact (upToDate (Nat.not_le.mp below) server last).symm
    · cases polled
      exact fun _ tail same => by cases same

/-- The futures of reads, trims and seals. -/
def Plain : Future → Prop
  | .read _ _ | .readReply _ _ _ | .fanOutTrim _ _ | .trimReplies _ | .sealSequencer
  | .sealSequencerReply _ | .fanOutSeal _ _ | .sealReplies _ _ _ _ => True
  | _ => False

theorem plain_sealing (plain : Plain future) : state.Sealing index op future := by
  cases future with
  | read | readReply | fanOutTrim | trimReplies | sealSequencer | sealSequencerReply | fanOutSeal
  | sealReplies => trivial
  | append | nextPos | nextPosReply | markSealed | checkTail | checkTailReply | fanOutStore
  | storeReplies => exact plain.elim

theorem fanOut_onward {request : LogServerRequest} {receivers : List Nat} {more : List Nat → Future}
    {sentAll : Future} (plain : ∀ receivers, Plain (more receivers)) (plain' : Plain sentAll)
    (polled : fanOut state index op request receivers more sentAll = some (next, progress)) :
    progress.Holds Plain fun _ => True := by
  unfold fanOut at polled
  split at polled
  · unfold sendTo at polled
    split at polled <;> cases polled
    · exact plain _
    · trivial
  · cases polled
    exact plain'

theorem plain_polled (plain : Plain future) (other : ¬ op.IsAppend)
    (polled : NativeLoglet.poll state index op future = some (next, progress)) :
    progress.Holds (next.Sealing index op) (next.Told op) := by
  have stays : progress.Holds Plain fun _ => True := by
    cases future with
    | fanOutTrim pos receivers =>
        refine fanOut_onward ?_ ?_ polled
        · exact fun _ => trivial
        · trivial
    | fanOutSeal sequencerTail receivers =>
        refine fanOut_onward ?_ ?_ polled
        · exact fun _ => trivial
        · trivial
    | sealSequencer =>
        cases polled
        trivial
    | readReply | sealSequencerReply =>
        simp only [NativeLoglet.poll] at polled
        split at polled <;> cases polled <;> trivial
    | read pos server =>
        simp only [NativeLoglet.poll] at polled
        split at polled
        · unfold sendTo at polled
          split at polled <;> cases polled <;> trivial
        · cases polled
          trivial
    | trimReplies receivers =>
        cases receivers with
        | nil =>
            cases polled
            trivial
        | cons receiver rest =>
            simp only [NativeLoglet.poll] at polled
            split at polled <;> cases polled <;> trivial
    | sealReplies sequencerTail receivers sealedCount maxTail =>
        cases receivers with
        | nil | cons =>
            simp only [NativeLoglet.poll] at polled
            split at polled <;> cases polled <;> trivial
    | append | nextPos | nextPosReply | markSealed | checkTail | checkTailReply | fanOutStore
    | storeReplies => exact plain.elim
  exact stays.imp (fun _ held => plain_sealing held) fun result _ => told_other other result

theorem Sealing.polled (inv : state.Inv True) (live : state.Live) (seals : state.Seals)
    (running : Running .any True state index op future) (sealing : state.Sealing index op future)
    (upToDate : state.RefusedUpToDate index op future)
    (polled : NativeLoglet.poll state index op future = some (next, progress)) :
    progress.Holds (next.Sealing index op) (next.Told op) := by
  cases future with
  | append =>
      simp only [NativeLoglet.poll] at polled
      split at polled
      · rename_i flagged
        cases polled
        exact fun _ => seals.flag flagged
      · cases polled
        exact sealing
  | nextPos =>
      cases polled
      exact StoresAmong.send sealing fun _ _ _ same => by cases same
  | nextPosReply receiver =>
      simp only [NativeLoglet.poll] at polled
      split at polled
      · cases polled
        exact sealing
      · rename_i received
        cases polled
        exact inv.answered (receive_sent running.2.2 received)
      · rename_i received
        exact absurd received (live.receive receiver)
      · cases polled
  | markSealed =>
      cases polled
      exact fun _ => sealing
  | checkTail =>
      cases polled
      exact fun appends => ⟨sealing appends, fun _ answered => (unanswered_send answered).elim⟩
  | checkTailReply receiver =>
      simp only [NativeLoglet.poll] at polled
      split at polled
      · rename_i tail received
        cases polled
        intro appends tail' same
        obtain ⟨isSealed, reached⟩ := sealing appends
        have answered := receive_sent running.2.2 received
        have below := (inv.answered answered).2
        cases op with
        | append entry =>
            cases same
            exact finalTail_eq_some.mpr ⟨isSealed, Nat.le_antisymm (reached _ answered) below⟩
        | checkTail | read | trim | «seal» => exact appends.elim
      · rename_i received
        exact absurd received (live.receive receiver)
      · cases polled
  | fanOutStore pos receivers =>
      obtain ⟨entry, giver, rfl, -, -, sent⟩ := running
      exact fanOutStore_sealing sent sealing polled
  | storeReplies pos receivers ackCount sealTail =>
      cases receivers with
      | nil => exact acknowledge_told seals sealing upToDate polled
      | cons receiver rest => exact storeReply_sealing live sealing polled
  | trimReplies receivers =>
      obtain ⟨pos, first, rfl, -⟩ := running
      refine plain_polled ?_ id polled
      trivial
  | read | readReply | fanOutTrim | sealSequencer | sealSequencerReply | fanOutSeal | sealReplies =>
      refine plain_polled ?_ ?_ polled
      · trivial
      · rw [running.1]
        exact id

end NativeLoglet

/-- The outline of the replicated loglet, with what seals leave. -/
def sealsOutline (n : Nat) : Outline (nativeComponent n) where
  OpOk _ := True
  PollOk := RefusedUpToDate
  EventOk _ event := event.IsServe
  Inv state := state.Inv True ∧ state.Live ∧ state.Seals
  Fresh state index := Settled .any state index ∧ ∀ (receiver : Nat) (message : Message n),
    state.messages[receiver]? = some message → message.sender.1 ≠ index
  Running state index op future :=
    Running .any True state index op future ∧ state.Sealing index op future
  Finished state index op result := Finished .any state index op result ∧ state.Told op result
  Rely := Grows
  begin_running := by
    intro state index op inv _ fresh
    refine ⟨begin_running (fun _ => trivial) fresh.1, ?_⟩
    cases op with
    | append entry => exact fun receiver _ _ _ ⟨_, found⟩ => absurd rfl (fresh.2 receiver _ found)
    | checkTail => exact fun impossible => impossible.elim
    | read | trim | «seal» => trivial
  poll_sound := by
    intro state index op future next progress inv _ running upToDate polled
    obtain ⟨inv, live, seals⟩ := inv
    obtain ⟨inv', outcome, grows⟩ := (nativeOutline n True .any NativeLogs.any_trims).poll_sound ⟨inv, live⟩
      (fun _ => trivial) running.1 (NativeLogs.pollOk_any state future) polled
    have told := running.2.polled inv live seals running.1 upToDate polled
    refine ⟨⟨inv'.1, inv'.2, seals.polled running.1 running.2 polled⟩, ?_, grows⟩
    cases progress with
    | running later => exact ⟨outcome, told⟩
    | finished result => exact ⟨outcome, told⟩
  background_sound := by
    intro state event next inv serves ran
    obtain ⟨inv, live, seals⟩ := inv
    cases event with
    | serve task =>
        obtain ⟨inv', grows⟩ := inv.serve ran
        exact ⟨⟨inv', live.serve ran, seals.serve ran⟩, grows⟩
    | stop server => exact serves.elim
  fresh_stable := by
    intro state next index inv inv' grows fresh
    refine ⟨fresh.1.stable NativeLogs.any_trims inv.1 inv'.1 grows, fun receiver message found same => ?_⟩
    obtain ⟨earlier, before⟩ := grows.others receiver message found same
    obtain ⟨receipt, later, -⟩ := grows.messages receiver earlier before
    cases Option.some.inj (found.symm.trans later)
    exact fresh.2 receiver earlier before same
  running_stable := fun inv inv' grows running =>
    ⟨running.1.stable NativeLogs.any_trims inv.1 inv'.1 grows, running.2.stable grows running.1⟩
  finished_stable := fun inv inv' grows finished =>
    ⟨finished.1.stable NativeLogs.any_trims inv.1 inv'.1 grows, finished.2.stable grows⟩

/-- A `Sealed` error of an append names the tail that every completed seal returns. -/
def SealedFinal {Shared Fut : Type} (system : System Shared LogletOp Fut LogletResult) :
    Prop :=
  ∀ appender sealer entry named tail,
    system.Returned appender (.append entry) (.error (.sealed named)) →
    system.Returned sealer .seal (.ok (.pos tail)) → named = tail

namespace NativeLogs

variable {n : Nat} {system : NativeLogs n}

/-- Calls of `append` and `seal`, and no log server stops. -/
def AppendingSealing (_ : NativeLogs n) : NativeLogsAction n → Prop
  | .start (.append _) | .start .seal => True
  | .start .checkTail | .start (.read _) | .start (.trim _) => False
  | .poll _ => True
  | .background event => event.IsServe

instance (system : NativeLogs n) (action : NativeLogsAction n) :
    Decidable (system.AppendingSealing action) :=
  match action with
  | .start (.append _) | .start .seal => isTrue trivial
  | .start .checkTail | .start (.read _) | .start (.trim _) => isFalse id
  | .poll _ => isTrue trivial
  | .background event => inferInstanceAs (Decidable event.IsServe)

instance (state : NativeLoglet n) (index : Nat) (op : LogletOp) (future : Future) :
    Decidable (state.RefusedUpToDate index op future) :=
  match future with
  | .storeReplies _ [] ackCount _ => inferInstanceAs (Decidable (ackCount < quorumSize n →
      ∀ server : Fin n, state.LastRefused (index, op) server →
        (state.logServers server).tail = state.sequencer.nextPos))
  | .storeReplies _ (_ :: _) _ _ | .append | .nextPos | .nextPosReply _ | .markSealed | .checkTail
  | .checkTailReply _ | .fanOutStore _ _ | .read _ _ | .readReply _ _ _ | .fanOutTrim _ _
  | .trimReplies _ | .sealSequencer | .sealSequencerReply _ | .fanOutSeal _ _
  | .sealReplies _ _ _ _ => isTrue trivial

/-- An append that ends below its quorum was refused last by a server that has stored the
last position assigned. -/
def UpToDateRefusals (system : NativeLogs n) (action : NativeLogsAction n) : Prop :=
  system.LiveServers action ∧
    match action with
    | .poll index => Call.Meets (fun op future => system.shared.RefusedUpToDate index op future)
        system.calls[index]?
    | _ => True

instance (system : NativeLogs n) (action : NativeLogsAction n) :
    Decidable (system.UpToDateRefusals action) :=
  match action with
  | .start _ => inferInstanceAs (Decidable (_ ∧ True))
  | .poll index => inferInstanceAs (Decidable (_ ∧ Call.Meets
      (fun op future => system.shared.RefusedUpToDate index op future) system.calls[index]?))
  | .background _ => inferInstanceAs (Decidable (_ ∧ True))

theorem UpToDateRefusals.permit {action : NativeLogsAction n}
    (allowed : system.UpToDateRefusals action) : (sealsOutline n).permit system action := by
  cases action with
  | start op => trivial
  | poll index =>
      intro op future pending
      have upToDate := allowed.2
      unfold System.Pending at pending
      simp only [pending] at upToDate
      exact upToDate
  | background event =>
      cases event with
      | serve task => trivial
      | stop server => exact allowed.1.elim

theorem seals_new : (sealsOutline n).Valid (new n) :=
  .init ⟨.new True n, .new n, .new n⟩ fun index =>
    ⟨settled_new .any index, fun _ _ found => by cases found⟩

theorem memory_permit (system : System TrackedLoglet LogletOp Unit LogletResult)
    (action : Action LogletOp Empty) : (memoryOutline True).toOutline.permit system action := by
  cases action with
  | start op => exact fun _ => trivial
  | poll index => exact fun _ _ _ => trivial
  | background event => cases event

/-- While refusals come from servers that are up to date, `Sealed` errors name the final
tail. Those of a memory loglet do in any case. -/
theorem sealed_final (n : Nat) :
    (∀ system : NativeLogs n, (nativeLogs n).Run UpToDateRefusals (new n) system →
      SealedFinal system) ∧
    ∀ system : System TrackedLoglet LogletOp Unit LogletResult,
      memoryComponent.machine.Run (fun _ _ => True) (.fresh TrackedLoglet.new) system →
      SealedFinal system := by
  constructor
  · intro system run appender sealer entry named tail failed sealedAt
    have valid := Outline.Valid.run seals_new
      (run.mono fun _ _ allowed => UpToDateRefusals.permit allowed)
    have told := (valid.finished failed).2 trivial named rfl
    obtain ⟨⟨-, _, same, final, -⟩, -⟩ := valid.finished sealedAt
    cases same
    exact Option.some.inj (told.symm.trans final)
  · intro system run appender sealer entry named tail failed sealedAt
    have start : (memoryOutline True).toOutline.Valid (.fresh TrackedLoglet.new) :=
      .init (TrackedLoglet.Inv.new True) fun _ => trivial
    have valid := start.run (run.mono fun _ _ _ => memory_permit _ _)
    obtain ⟨tail', told, final⟩ := valid.finished failed
    obtain ⟨tail'', returned, final'⟩ := valid.finished sealedAt
    cases told
    cases returned
    exact Option.some.inj (final.symm.trans final')

/-- Position 2 is on every server before the seal, which comes before position 1 does. -/
def overtakenUpToDate : List (NativeLogsAction 3) :=
  [.start (.append (.new [1]))] ++ polls 0 2 ++ serveSequencer ++ polls 0 1 ++
    appendAlone 3 1 (.new [2]) ++ sealAlone 3 2 ++ polls 0 4 ++ serveAll 3 ++ polls 0 4

set_option maxRecDepth 10000 in
theorem sealed_final_overtaken : ∃ system : NativeLogs 3,
    system.Returned 0 (.append (.new [1])) (.error (.sealed 3)) ∧
    system.Returned 2 .seal (.ok (.pos 3)) ∧ SealedFinal system := by
  obtain ⟨system, run, seen⟩ := Machine.exists_run_of_execute
    (nativeLogs 3) UpToDateRefusals (new 3) overtakenUpToDate System.calls
    [⟨.append (.new [1]), .finished (.error (.sealed 3))⟩,
      ⟨.append (.new [2]), .finished (.ok (.pos 2))⟩, ⟨.seal, .finished (.ok (.pos 3))⟩] (by decide)
  exact ⟨system, congrArg (fun calls => calls[0]?) seen, congrArg (fun calls => calls[2]?) seen,
    (sealed_final 3).1 system run⟩

set_option maxRecDepth 10000 in
/-- The servers that refuse have not stored the position that the sequencer gave. -/
theorem not_sealed_final : ¬ ∀ (n : Nat) (system : NativeLogs n), 1 ≤ n →
    (nativeLogs n).Run AppendingSealing (new n) system → SealedFinal system := by
  intro final
  obtain ⟨system, run, seen⟩ := Machine.exists_run_of_execute
    (nativeLogs 3) AppendingSealing (new 3) overtakenBySeal System.calls
    [⟨.append (.new [1]), .finished (.error (.sealed 1))⟩, ⟨.seal, .finished (.ok (.pos 2))⟩]
    (by decide)
  have same := final 3 system (by decide) run 0 1 (.new [1]) 1 2
    (congrArg (fun calls => calls[0]?) seen) (congrArg (fun calls => calls[1]?) seen)
  cases same

end NativeLogs

end Relos
