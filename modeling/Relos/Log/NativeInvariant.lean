import Relos.Log.NativeLoglet

set_option autoImplicit false

/-! What holds between the sequencer, the log servers and all messages of a
replicated loglet, and what any step leaves in place. Servers may stop. -/

namespace Relos

open Async

/-! ### Sequencer and log servers -/

structure Sequencer.Grows (sequencer next : Sequencer) : Prop where
  nextPos : sequencer.nextPos ≤ next.nextPos
  frozen : sequencer.sealed = true → next.sealed = true ∧ next.nextPos = sequencer.nextPos

theorem Sequencer.Grows.refl (sequencer : Sequencer) : sequencer.Grows sequencer :=
  ⟨Nat.le_refl _, fun isSealed => ⟨isSealed, rfl⟩⟩

theorem Sequencer.Grows.trans {first middle last : Sequencer} (before : first.Grows middle)
    (after : middle.Grows last) : first.Grows last := by
  refine ⟨Nat.le_trans before.nextPos after.nextPos, fun isSealed => ?_⟩
  obtain ⟨stays, same⟩ := before.frozen isSealed
  obtain ⟨remains, equal⟩ := after.frozen stays
  exact ⟨remains, equal.trans same⟩

theorem Sequencer.handle_grows (sequencer : Sequencer) (request : SequencerRequest) :
    sequencer.Grows (sequencer.handle request).1 := by
  cases request with
  | nextPos =>
      simp only [handle]
      split
      · exact .refl sequencer
      · rename_i unsealed
        exact ⟨Nat.le_succ _, fun isSealed => absurd isSealed unsealed⟩
  | «seal» => exact ⟨Nat.le_refl _, fun _ => ⟨rfl, rfl⟩⟩
  | checkTail => exact .refl sequencer

namespace LogServer

/-- The server holds the entry, or has trimmed its position since. -/
def Keeps (server : LogServer) (pos : Nat) (entry : Entry) : Prop :=
  server.entries[pos]? = some entry ∨ pos < server.trimPos

/-- A read of the position does not pass the server. -/
def Covers (server : LogServer) (pos : Nat) : Prop :=
  (∃ entry, server.entries[pos]? = some entry) ∨ pos < server.trimPos

structure Grows (server next : LogServer) : Prop where
  keeps : ∀ {pos : Nat} {entry : Entry}, server.Keeps pos entry → next.Keeps pos entry
  trimPos : server.trimPos ≤ next.trimPos
  sealed : server.sealed = true → next.sealed = true
  frozen : server.sealed = true → ∀ {pos : Nat} {entry : Entry}, next.entries[pos]? = some entry →
    server.entries[pos]? = some entry

theorem Grows.refl (server : LogServer) : server.Grows server :=
  ⟨fun kept => kept, Nat.le_refl _, fun isSealed => isSealed, fun _ _ _ held => held⟩

theorem Grows.trans {first middle last : LogServer} (before : first.Grows middle)
    (after : middle.Grows last) : first.Grows last :=
  ⟨fun kept => after.keeps (before.keeps kept), Nat.le_trans before.trimPos after.trimPos,
    fun isSealed => after.sealed (before.sealed isSealed),
    fun isSealed _ _ held => before.frozen isSealed (after.frozen (before.sealed isSealed) held)⟩

theorem Grows.covers {server next : LogServer} (grows : server.Grows next) {pos : Nat}
    (covers : server.Covers pos) : next.Covers pos := by
  rcases covers with ⟨entry, present⟩ | trimmed
  · rcases grows.keeps (Or.inl present) with kept | trimmed
    · exact Or.inl ⟨entry, kept⟩
    · exact Or.inr trimmed
  · exact Or.inr (Nat.lt_of_lt_of_le trimmed grows.trimPos)

variable {server : LogServer} {pos stored : Nat} {entry held : Entry}

theorem Keeps.covers (keeps : server.Keeps pos entry) : server.Covers pos :=
  keeps.imp (fun present => ⟨entry, present⟩) fun trimmed => trimmed

theorem not_covers_of_read (absent : server.read pos = .notFound) : ¬ server.Covers pos := by
  unfold read at absent
  split at absent
  · cases absent
  · rename_i untrimmed
    split at absent
    · cases absent
    · rename_i missing
      rintro (⟨entry, present⟩ | trimmed)
      · rw [missing] at present
        cases present
      · exact untrimmed trimmed

/-- What a server holds after a store. -/
theorem store_entries (found : (server.store pos entry).1.entries[stored]? = some held) :
    server.entries[stored]? = some held ∨
      (stored = pos ∧ held = entry ∧ (server.store pos entry).2 = .ok true) := by
  unfold store at found ⊢
  split at found
  · exact Or.inl found
  · split at found
    · exact Or.inl found
    · rename_i unsealed vacant
      rw [if_neg unsealed, if_neg vacant]
      simp only [Std.ExtTreeMap.getElem?_insert, Nat.compare_eq_eq] at found
      split at found
      · rename_i same
        exact Or.inr ⟨same.symm, (Option.some.inj found).symm, rfl⟩
      · exact Or.inl found

theorem store_grows (server : LogServer) (pos : Nat) (entry : Entry) :
    server.Grows (server.store pos entry).1 := by
  unfold store
  split
  · exact .refl server
  · split
    · exact .refl server
    · rename_i unsealed vacant
      refine ⟨fun {other kept} keeps => ?_, Nat.le_refl _, fun isSealed => isSealed,
        fun isSealed => absurd isSealed unsealed⟩
      rcases keeps with held | trimmed
      · refine Or.inl ?_
        simp only [Std.ExtTreeMap.getElem?_insert, Nat.compare_eq_eq]
        split
        · rename_i same
          subst same
          rw [Std.ExtTreeMap.contains_eq_isSome_getElem?, held] at vacant
          exact absurd rfl vacant
        · exact held
      · exact Or.inr trimmed

theorem store_ok {repeated : Bool} (stores : (server.store pos entry).2 = .ok repeated) :
    ∃ held, (server.store pos entry).1.entries[pos]? = some held := by
  unfold store at stores ⊢
  split at stores
  · cases stores
  · rename_i unsealed
    rw [if_neg unsealed]
    split at stores
    · rename_i occupied
      rw [if_pos occupied]
      rw [Std.ExtTreeMap.contains_eq_isSome_getElem?] at occupied
      exact Option.isSome_iff_exists.mp occupied
    · rename_i vacant
      rw [if_neg vacant]
      exact ⟨entry, Std.ExtTreeMap.getElem?_insert_self⟩

theorem store_error {tail : Nat} (refused : (server.store pos entry).2 = .error tail) :
    (server.store pos entry).1.sealed = true := by
  unfold store at refused ⊢
  split at refused
  · rename_i isSealed
    rw [if_pos isSealed]
    exact isSealed
  · split at refused <;> cases refused

theorem store_tail {bound : Nat} (below : server.tail ≤ bound) (inside : pos < bound) :
    (server.store pos entry).1.tail ≤ bound := by
  unfold store
  split
  · exact below
  · split
    · exact below
    · change (if server.tail ≤ pos then pos + 1 else server.tail) ≤ bound
      split <;> omega

theorem store_trimPos : (server.store pos entry).1.trimPos = server.trimPos := by
  unfold store
  split
  · rfl
  · split <;> rfl

theorem store_sealed : (server.store pos entry).1.sealed = server.sealed := by
  unfold store
  split
  · rfl
  · split <;> rfl

theorem trim_entries (found : (server.trim pos).entries[stored]? = some held) :
    server.entries[stored]? = some held := by
  unfold trim at found
  split at found
  · rw [Std.ExtTreeMap.getElem?_filter'] at found
    exact (Option.filter_eq_some_iff.mp found).1
  · exact found

theorem trim_grows (server : LogServer) (pos : Nat) : server.Grows (server.trim pos) := by
  refine ⟨fun {other kept} keeps => ?_, ?_, ?_, fun _ _ _ => trim_entries⟩
  · unfold trim
    split
    · rename_i later
      rcases keeps with held | trimmed
      · by_cases below : other < pos
        · exact Or.inr below
        · refine Or.inl ?_
          rw [Std.ExtTreeMap.getElem?_filter', held]
          exact Option.filter_eq_some_iff.mpr ⟨rfl, decide_eq_true (Nat.le_of_not_lt below)⟩
      · exact Or.inr (Nat.lt_trans trimmed later)
    · exact keeps
  · unfold trim
    split
    · rename_i later
      exact Nat.le_of_lt later
    · exact Nat.le_refl _
  · unfold trim
    split <;> exact fun isSealed => isSealed

theorem trim_le (server : LogServer) (pos : Nat) : pos ≤ (server.trim pos).trimPos := by
  unfold trim
  split
  · exact Nat.le_refl _
  · rename_i earlier
    exact Nat.le_of_not_lt earlier

theorem trim_trimPos (server : LogServer) (pos : Nat) :
    (server.trim pos).trimPos = server.trimPos ∨ (server.trim pos).trimPos = pos := by
  unfold trim
  split
  · exact Or.inr rfl
  · exact Or.inl rfl

theorem trim_tail (server : LogServer) (pos : Nat) : (server.trim pos).tail = server.tail := by
  unfold trim
  split <;> rfl

theorem handle_grows (server : LogServer) (request : LogServerRequest) :
    server.Grows (server.handle request).1 := by
  cases request with
  | store pos entry => exact store_grows server pos entry
  | read pos => exact .refl server
  | «seal» => exact ⟨fun kept => kept, Nat.le_refl _, fun _ => rfl, fun _ _ _ held => held⟩
  | trim pos => exact trim_grows server pos

end LogServer

/-! ### Messages -/

namespace NativeLoglet

variable {n : Nat}

/-- The call sent this request, whatever became of it. -/
def Sent (state : NativeLoglet n) (receiver : Nat) (sender : Nat × LogletOp)
    (request : Request n) : Prop :=
  ∃ receipt, state.messages[receiver]? = some ⟨sender, request, receipt⟩

def Answered (state : NativeLoglet n) (receiver : Nat) (sender : Nat × LogletOp)
    (request : Request n) (reply : Reply) : Prop :=
  state.messages[receiver]? = some ⟨sender, request, .sent reply⟩

/-- The sequencer gave the position to this request. -/
def AssignedBy (state : NativeLoglet n) (receiver : Nat) (sender : Nat × LogletOp) (pos : Nat) :
    Prop :=
  state.Answered receiver sender (.sequencer .nextPos) (.position (some pos))

def Assigned (state : NativeLoglet n) (owner : Nat) (entry : Entry) (pos : Nat) : Prop :=
  ∃ receiver, state.AssignedBy receiver (owner, .append entry) pos

def Accepted (state : NativeLoglet n) (server : Fin n) (owner : Nat) (entry : Entry) (pos : Nat) :
    Prop :=
  ∃ receiver repeated, state.Answered receiver (owner, .append entry)
    (.logServer server (.store pos entry)) (.stored (.ok repeated))

/-- Some log server accepted the entry at the position. -/
def Placed (state : NativeLoglet n) (owner : Nat) (entry : Entry) (pos : Nat) : Prop :=
  ∃ server, state.Accepted server owner entry pos

def finalTail (state : NativeLoglet n) : Option Nat :=
  if state.sequencer.sealed then some state.sequencer.nextPos else none

/-- What an answer means for the state from then on. -/
def Means (state : NativeLoglet n) : Request n → Reply → Prop
  | .sequencer .nextPos, .position (some pos) =>
      logPosBegin ≤ pos ∧ pos < state.sequencer.nextPos
  | .sequencer .nextPos, .position none => state.sequencer.sealed = true
  | .sequencer .seal, .tail tail => state.finalTail = some tail
  | .sequencer .checkTail, .tail tail => logPosBegin ≤ tail ∧ tail ≤ state.sequencer.nextPos
  | .logServer server (.store pos entry), .stored (.ok _) =>
      (state.logServers server).Keeps pos entry
  | .logServer server (.store _ _), .stored (.error _) => (state.logServers server).sealed = true
  | .logServer _ (.read pos), .read (.entry entry) => ∃ owner, state.Placed owner entry pos
  | .logServer server (.read pos), .read .trimmed => pos < (state.logServers server).trimPos
  | .logServer _ (.read _), .read .notFound => True
  | .logServer server .seal, .tail tail =>
      (state.logServers server).sealed = true ∧ tail ≤ state.sequencer.nextPos
  | .logServer server (.trim pos), .unit => pos ≤ (state.logServers server).trimPos
  | _, _ => False

/-- What a call may rely on while it is not being polled. A query that is answered
meanwhile is answered from a state in between. -/
structure Grows (index : Nat) (state next : NativeLoglet n) : Prop where
  sequencer : state.sequencer.Grows next.sequencer
  logServers : ∀ server, (state.logServers server).Grows (next.logServers server)
  flag : state.sealed = true → next.sealed = true
  messages : ∀ (receiver : Nat) (message : Message n), state.messages[receiver]? = some message →
    ∃ receipt, next.messages[receiver]? = some { message with receipt := receipt } ∧
      (message.receipt ≠ .pending → receipt = message.receipt)
  others : ∀ (receiver : Nat) (message : Message n), next.messages[receiver]? = some message →
    message.sender.1 = index → ∃ earlier, state.messages[receiver]? = some earlier
  tails : ∀ {receiver sender tail},
    state.messages[receiver]? = some ⟨sender, .sequencer .checkTail, .pending⟩ →
    next.Answered receiver sender (.sequencer .checkTail) (.tail tail) →
    state.sequencer.nextPos ≤ tail
  reads : ∀ {receiver sender server pos result},
    state.messages[receiver]? = some ⟨sender, .logServer server (.read pos), .pending⟩ →
    next.Answered receiver sender (.logServer server (.read pos)) (.read result) →
    ∃ seen, (state.logServers server).Grows seen ∧ seen.Grows (next.logServers server) ∧
      seen.read pos = result

structure Inv (trims : Prop) (state : NativeLoglet n) : Prop where
  positive : logPosBegin ≤ state.sequencer.nextPos
  unique : ∀ {receiver receiver' sender sender' pos}, state.AssignedBy receiver sender pos →
    state.AssignedBy receiver' sender' pos → receiver = receiver'
  assigned : ∀ {pos}, logPosBegin ≤ pos → pos < state.sequencer.nextPos →
    ∃ receiver sender, state.AssignedBy receiver sender pos
  stores : ∀ {receiver owner op server pos entry},
    state.Sent receiver (owner, op) (.logServer server (.store pos entry)) →
    op = .append entry ∧ state.Assigned owner entry pos
  trims : ∀ {receiver owner op server pos},
    state.Sent receiver (owner, op) (.logServer server (.trim pos)) → op = .trim pos ∧ trims
  held : ∀ {server : Fin n} {pos : Nat} {entry : Entry},
    (state.logServers server).entries[pos]? = some entry →
    ∃ owner, state.Placed owner entry pos
  tail : ∀ server, (state.logServers server).tail ≤ state.sequencer.nextPos
  trimPos : ∀ server, (state.logServers server).trimPos = logPosBegin ∨
    ∃ receiver sender, state.Answered receiver sender
      (.logServer server (.trim (state.logServers server).trimPos)) .unit
  answered : ∀ {receiver sender request reply}, state.Answered receiver sender request reply →
    state.Means request reply

/-- No log server has stopped. -/
def Live (state : NativeLoglet n) : Prop :=
  (∀ server, (state.logServers server).alive = true) ∧
    ∀ (receiver : Nat) (message : Message n), state.messages[receiver]? = some message →
      message.receipt ≠ .dropped

variable {state next : NativeLoglet n} {index receiver : Nat} {sender : Nat × LogletOp}
  {request : Request n} {reply : Reply} {trims : Prop}

theorem finalTail_eq_some {tail : Nat} :
    state.finalTail = some tail ↔ state.sequencer.sealed = true ∧ state.sequencer.nextPos = tail := by
  unfold finalTail
  split
  · rename_i isSealed
    exact ⟨fun same => ⟨isSealed, Option.some.inj same⟩, fun held => congrArg some held.2⟩
  · rename_i unsealed
    exact ⟨fun same => (nomatch same), fun held => absurd held.1 unsealed⟩

/-! ### What a step leaves in place -/

theorem Grows.sent (grows : Grows index state next) (sent : state.Sent receiver sender request) :
    next.Sent receiver sender request := by
  obtain ⟨receipt, found⟩ := sent
  obtain ⟨later, found', _⟩ := grows.messages receiver _ found
  exact ⟨later, found'⟩

theorem Grows.answered (grows : Grows index state next)
    (answered : state.Answered receiver sender request reply) :
    next.Answered receiver sender request reply := by
  obtain ⟨later, found, same⟩ := grows.messages receiver _ answered
  cases same fun pending => by cases pending
  exact found

theorem Grows.assigned (grows : Grows index state next) {owner pos : Nat} {entry : Entry}
    (assigned : state.Assigned owner entry pos) : next.Assigned owner entry pos := by
  obtain ⟨receiver, given⟩ := assigned
  exact ⟨receiver, grows.answered given⟩

theorem Grows.accepted (grows : Grows index state next) {server : Fin n} {owner pos : Nat}
    {entry : Entry} (accepted : state.Accepted server owner entry pos) :
    next.Accepted server owner entry pos := by
  obtain ⟨receiver, repeated, answered⟩ := accepted
  exact ⟨receiver, repeated, grows.answered answered⟩

theorem Grows.placed (grows : Grows index state next) {owner pos : Nat} {entry : Entry}
    (placed : state.Placed owner entry pos) : next.Placed owner entry pos := by
  obtain ⟨server, accepted⟩ := placed
  exact ⟨server, grows.accepted accepted⟩

theorem Grows.finalTail (grows : Grows index state next) {tail : Nat}
    (final : state.finalTail = some tail) : next.finalTail = some tail := by
  obtain ⟨isSealed, rfl⟩ := finalTail_eq_some.mp final
  exact finalTail_eq_some.mpr (grows.sequencer.frozen isSealed)

/-- A request that was sent before has been answered since, or already then. -/
theorem Grows.answered_before (grows : Grows index state next)
    (sent : state.Sent receiver sender request)
    (answered : next.Answered receiver sender request reply) :
    state.messages[receiver]? = some ⟨sender, request, .pending⟩ ∨
      state.Answered receiver sender request reply := by
  obtain ⟨receipt, found⟩ := sent
  by_cases pending : receipt = .pending
  · subst pending
    exact Or.inl found
  · obtain ⟨receipt', found', same⟩ := grows.messages _ _ found
    cases same pending
    cases Option.some.inj (found'.symm.trans answered)
    exact Or.inr found

/-- A message of the call itself was there before. -/
theorem Grows.own (grows : Grows index state next) {receipt : Receipt}
    (found : next.messages[receiver]? = some ⟨sender, request, receipt⟩) (own : sender.1 = index) :
    ∃ earlier, state.messages[receiver]? = some ⟨sender, request, earlier⟩ ∧
      (earlier ≠ .pending → receipt = earlier) := by
  obtain ⟨⟨sender', request', earlier⟩, before⟩ := grows.others receiver _ found own
  obtain ⟨later, after, same⟩ := grows.messages receiver _ before
  cases Option.some.inj (found.symm.trans after)
  exact ⟨earlier, before, same⟩

theorem Means.stable (grows : Grows index state next) (means : state.Means request reply) :
    next.Means request reply := by
  unfold Means at means ⊢
  split at means
  · exact ⟨means.1, Nat.lt_of_lt_of_le means.2 grows.sequencer.nextPos⟩
  · exact (grows.sequencer.frozen means).1
  · exact grows.finalTail means
  · exact ⟨means.1, Nat.le_trans means.2 grows.sequencer.nextPos⟩
  · exact (grows.logServers _).keeps means
  · exact (grows.logServers _).sealed means
  · obtain ⟨owner, placed⟩ := means
    exact ⟨owner, grows.placed placed⟩
  · exact Nat.lt_of_lt_of_le means (grows.logServers _).trimPos
  · trivial
  · exact ⟨(grows.logServers _).sealed means.1, Nat.le_trans means.2 grows.sequencer.nextPos⟩
  · exact Nat.le_trans means (grows.logServers _).trimPos
  · exact means.elim

/-- Nothing is answered in a step that only adds messages. -/
theorem unanswered {asked : Request n}
    (kept : ∀ {message : Message n}, state.messages[receiver]? = some message →
      next.messages[receiver]? = some message)
    (pending : state.messages[receiver]? = some ⟨sender, asked, .pending⟩)
    (answered : next.Answered receiver sender asked reply) : False := by
  cases Option.some.inj ((kept pending).symm.trans answered)

theorem Grows.refl (index : Nat) (state : NativeLoglet n) : Grows index state state :=
  ⟨.refl _, fun _ => .refl _, fun flag => flag,
    fun _ message found => ⟨message.receipt, found, fun _ => rfl⟩,
    fun _ message found _ => ⟨message, found⟩,
    fun pending answered => (unanswered (fun found => found) pending answered).elim,
    fun pending answered => (unanswered (fun found => found) pending answered).elim⟩

/-- An answer given over two steps was given in one of them. -/
theorem Grows.between {last : NativeLoglet n} (before : Grows index state next)
    (after : Grows index next last)
    (pending : state.messages[receiver]? = some ⟨sender, request, .pending⟩)
    (answered : last.Answered receiver sender request reply) :
    next.messages[receiver]? = some ⟨sender, request, .pending⟩ ∨
      next.Answered receiver sender request reply := by
  obtain ⟨receipt, found, _⟩ := before.messages receiver _ pending
  exact after.answered_before ⟨receipt, found⟩ answered

theorem Grows.trans {last : NativeLoglet n} (before : Grows index state next)
    (after : Grows index next last) : Grows index state last := by
  refine ⟨before.sequencer.trans after.sequencer,
    fun server => (before.logServers server).trans (after.logServers server),
    fun flag => after.flag (before.flag flag), fun receiver message found => ?_,
    fun receiver message found own => ?_, fun pending answered => ?_,
    fun {_ _ server _ _} pending answered => ?_⟩
  · obtain ⟨receipt, found', same⟩ := before.messages receiver message found
    obtain ⟨receipt', found'', same'⟩ := after.messages receiver _ found'
    refine ⟨receipt', found'', fun answered => ?_⟩
    cases same answered
    exact same' answered
  · obtain ⟨⟨sender, request, receipt⟩, found'⟩ := after.others receiver message found own
    obtain ⟨later, found'', _⟩ := after.messages receiver _ found'
    cases Option.some.inj (found.symm.trans found'')
    exact before.others receiver _ found' own
  · rcases before.between after pending answered with waiting | given
    · exact Nat.le_trans before.sequencer.nextPos (after.tails waiting answered)
    · exact before.tails pending given
  · rcases before.between after pending answered with waiting | given
    · obtain ⟨seen, later, earlier, same⟩ := after.reads waiting answered
      exact ⟨seen, (before.logServers server).trans later, earlier, same⟩
    · obtain ⟨seen, later, earlier, same⟩ := before.reads pending given
      exact ⟨seen, later, earlier.trans (after.logServers server), same⟩

/-! ### Requests -/

/-- What a call must know before it sends a request. -/
def Sendable (trims : Prop) (state : NativeLoglet n) (index : Nat) (op : LogletOp) :
    Request n → Prop
  | .logServer _ (.store pos entry) => op = .append entry ∧ state.Assigned index entry pos
  | .logServer _ (.trim pos) => op = .trim pos ∧ trims
  | _ => True

theorem send_grows {op : LogletOp} {other : Nat} (different : other ≠ index) :
    Grows other state (state.send index op request) := by
  have kept : ∀ {receiver : Nat} {message : Message n}, state.messages[receiver]? = some message →
      (state.send index op request).messages[receiver]? = some message := by
    intro receiver message found
    simp only [send]
    rw [List.getElem?_append_left (List.getElem?_eq_some_iff.mp found).1]
    exact found
  refine ⟨.refl _, fun _ => .refl _, fun flag => flag,
    fun receiver message found => ⟨message.receipt, kept found, fun _ => rfl⟩,
    fun receiver message found own => ?_,
    fun pending answered => (unanswered kept pending answered).elim,
    fun pending answered => (unanswered kept pending answered).elim⟩
  · rcases getElem?_of_concat found with before | ⟨_, rfl⟩
    · exact ⟨message, before⟩
    · exact absurd own.symm different

theorem answered_of_send {op : LogletOp} {asked : Request n}
    (answered : (state.send index op asked).Answered receiver sender request reply) :
    state.Answered receiver sender request reply := by
  rcases getElem?_of_concat answered with before | ⟨_, same⟩
  · exact before
  · cases same

theorem sent_of_send {op : LogletOp} {asked : Request n}
    (sent : (state.send index op asked).Sent receiver sender request) :
    state.Sent receiver sender request ∨ (sender = (index, op) ∧ request = asked) := by
  obtain ⟨receipt, found⟩ := sent
  rcases getElem?_of_concat found with before | ⟨_, same⟩
  · exact Or.inl ⟨receipt, before⟩
  · cases same
    exact Or.inr ⟨rfl, rfl⟩

theorem sent_send (state : NativeLoglet n) (index : Nat) (op : LogletOp) (request : Request n) :
    (state.send index op request).Sent state.receiver (index, op) request :=
  ⟨.pending, List.getElem?_concat_length⟩

/-- A request is not answered by being sent. -/
theorem unanswered_send {op : LogletOp} {asked : Request n}
    (answered : (state.send index op asked).Answered state.receiver sender request reply) :
    False := by
  have before := answered_of_send answered
  exact absurd (List.getElem?_eq_some_iff.mp before).1 (Nat.lt_irrefl _)

theorem Inv.send (inv : state.Inv trims) {op : LogletOp}
    (sendable : Sendable trims state index op request) :
    (state.send index op request).Inv trims := by
  -- Any call other than the sender sees what the step leaves in place.
  have grows : Grows (index + 1) state (state.send index op request) :=
    send_grows (Nat.succ_ne_self index)
  refine ⟨inv.positive, fun given given' => ?_, fun inside below => ?_, fun sent => ?_,
    fun sent => ?_, fun present => ?_, inv.tail, fun server => ?_, fun answered => ?_⟩
  · exact inv.unique (answered_of_send given) (answered_of_send given')
  · obtain ⟨receiver, sender, given⟩ := inv.assigned inside below
    exact ⟨receiver, sender, grows.answered given⟩
  · rcases sent_of_send sent with before | ⟨same, asked⟩
    · obtain ⟨appends, given⟩ := inv.stores before
      exact ⟨appends, grows.assigned given⟩
    · cases same
      subst asked
      exact ⟨sendable.1, grows.assigned sendable.2⟩
  · rcases sent_of_send sent with before | ⟨same, asked⟩
    · exact inv.trims before
    · cases same
      subst asked
      exact sendable
  · obtain ⟨owner, placed⟩ := inv.held present
    exact ⟨owner, grows.placed placed⟩
  · rcases inv.trimPos server with untrimmed | ⟨receiver, sender, answered⟩
    · exact Or.inl untrimmed
    · exact Or.inr ⟨receiver, sender, grows.answered answered⟩
  · exact (inv.answered (answered_of_send answered)).stable grows

theorem flag_grows (index : Nat) (state : NativeLoglet n) :
    Grows index state { state with sealed := true } :=
  ⟨.refl _, fun _ => .refl _, fun _ => rfl, (Grows.refl index state).messages,
    (Grows.refl index state).others, (Grows.refl index state).tails,
    (Grows.refl index state).reads⟩

theorem Inv.flag (inv : state.Inv trims) : Inv trims { state with sealed := true } :=
  ⟨inv.positive, inv.unique, inv.assigned, inv.stores, inv.trims, inv.held, inv.tail, inv.trimPos,
    fun answered => (inv.answered answered).stable (flag_grows 0 state)⟩

/-! ### Answers -/

theorem serve_cases {task : Task n} (served : state.serve task = some next) :
    ∃ receiver sender request, state.messages[receiver]? = some ⟨sender, request, .pending⟩ ∧
      next = state.handle receiver request := by
  unfold serve at served
  obtain ⟨receiver, first, chosen⟩ := Option.bind_eq_some_iff.mp served
  obtain ⟨⟨sender, request, receipt⟩, found, same⟩ := Option.map_eq_some_iff.mp chosen
  obtain ⟨inside, queued, _⟩ := List.findIdx?_eq_some_iff_getElem.mp first
  rw [List.getElem?_eq_getElem inside] at found
  rw [Option.some.inj found] at queued
  simp only [Message.isQueued, Bool.and_eq_true, decide_eq_true_eq] at queued
  obtain ⟨rfl, _⟩ := queued
  exact ⟨receiver, sender, request, by rw [List.getElem?_eq_getElem inside, found], same.symm⟩

theorem answer_messages (pending : state.messages[receiver]? = some ⟨sender, request, .pending⟩)
    {other : Nat} {message : Message n}
    (found : (state.answer receiver reply).messages[other]? = some message) :
    (other = receiver ∧ message = ⟨sender, request, .sent reply⟩) ∨
      (other ≠ receiver ∧ state.messages[other]? = some message) := by
  simp only [answer, List.getElem?_modify] at found
  by_cases same : receiver = other
  · subst same
    rw [pending] at found
    simp only [if_pos] at found
    exact Or.inl ⟨rfl, (Option.some.inj found).symm⟩
  · simp only [if_neg same, id_map'] at found
    exact Or.inr ⟨fun equal => same equal.symm, found⟩

theorem answer_self (pending : state.messages[receiver]? = some ⟨sender, request, .pending⟩) :
    (state.answer receiver reply).Answered receiver sender request reply := by
  simp only [Answered, answer, List.getElem?_modify, pending]
  rfl

theorem answer_grows (pending : state.messages[receiver]? = some ⟨sender, request, .pending⟩)
    {other : Nat} {message : Message n} (found : state.messages[other]? = some message) :
    ∃ receipt, (state.answer receiver reply).messages[other]? =
        some { message with receipt := receipt } ∧
      (message.receipt ≠ .pending → receipt = message.receipt) := by
  by_cases same : other = receiver
  · subst same
    cases Option.some.inj (found.symm.trans pending)
    exact ⟨.sent reply, answer_self pending, fun answered => absurd rfl answered⟩
  · refine ⟨message.receipt, ?_, fun _ => rfl⟩
    simp only [answer, List.getElem?_modify, if_neg (Ne.symm same), id_map']
    exact found

/-- The reply of a task to a request. -/
def replyTo (state : NativeLoglet n) : Request n → Reply
  | .sequencer asked => (state.sequencer.handle asked).2
  | .logServer server asked => ((state.logServers server).handle asked).2

theorem handle_messages (state : NativeLoglet n) (receiver : Nat) (request : Request n) :
    (state.handle receiver request).messages =
      (state.answer receiver (state.replyTo request)).messages := by
  cases request <;> rfl

/-- An answer in the next state is an old one or the one just given. -/
theorem answered_of_answer (pending : state.messages[receiver]? = some ⟨sender, request, .pending⟩)
    {other : Nat} {sender' : Nat × LogletOp} {asked : Request n} {said : Reply}
    (answered : (state.answer receiver reply).messages[other]? =
      some ⟨sender', asked, .sent said⟩) :
    state.Answered other sender' asked said ∨
      (other = receiver ∧ sender' = sender ∧ asked = request ∧ said = reply) := by
  rcases answer_messages pending answered with ⟨rfl, same⟩ | ⟨_, before⟩
  · cases same
    exact Or.inr ⟨rfl, rfl, rfl, rfl⟩
  · exact Or.inl before

theorem handle_grows (pending : state.messages[receiver]? = some ⟨sender, request, .pending⟩) :
    Grows index state (state.handle receiver request) := by
  have same := handle_messages state receiver request
  have logServers : ∀ server, (state.logServers server).Grows
      ((state.handle receiver request).logServers server) := by
    intro server
    cases request with
    | sequencer request => exact .refl _
    | logServer target request =>
        by_cases same : server = target
        · subst same
          simp only [handle, answer, Function.update_self]
          exact (state.logServers server).handle_grows request
        · simp only [handle, answer, Function.update_of_ne same]
          exact .refl _
  refine ⟨?_, logServers, ?_, fun other message found => ?_, fun other message found own => ?_,
    fun {other sender' tail} waiting answered => ?_,
    fun {other sender' server pos result} waiting answered => ?_⟩
  · cases request with
    | sequencer request => exact state.sequencer.handle_grows request
    | logServer server request => exact .refl _
  · cases request <;> exact fun flag => flag
  · rw [same]
    exact answer_grows pending found
  · rw [same] at found
    rcases answer_messages pending found with ⟨rfl, _⟩ | ⟨_, before⟩
    · exact ⟨_, pending⟩
    · exact ⟨message, before⟩
  · unfold Answered at answered
    rw [same] at answered
    rcases answered_of_answer pending answered with before | ⟨rfl, rfl, rfl, told⟩
    · cases Option.some.inj (waiting.symm.trans before)
    · cases told
      exact Nat.le_refl _
  · unfold Answered at answered
    rw [same] at answered
    rcases answered_of_answer pending answered with before | ⟨rfl, rfl, rfl, told⟩
    · cases Option.some.inj (waiting.symm.trans before)
    · cases told
      exact ⟨state.logServers server, .refl _, logServers server, rfl⟩

theorem sent_of_answer (pending : state.messages[receiver]? = some ⟨sender, request, .pending⟩)
    {other : Nat} {sender' : Nat × LogletOp} {asked : Request n} {receipt : Receipt}
    (found : (state.answer receiver reply).messages[other]? = some ⟨sender', asked, receipt⟩) :
    state.Sent other sender' asked := by
  rcases answer_messages pending found with ⟨rfl, same⟩ | ⟨_, before⟩
  · cases same
    exact ⟨.pending, pending⟩
  · exact ⟨receipt, before⟩

/-- What remains to be shown of an answer: the fields that new answers enter. -/
theorem Inv.answer (inv : state.Inv trims)
    (pending : state.messages[receiver]? = some ⟨sender, request, .pending⟩)
    (messages : next.messages = (state.answer receiver reply).messages)
    (grows : Grows index state next) (means : next.Means request reply)
    (numbered : (next.sequencer.nextPos = state.sequencer.nextPos ∧
        ∀ pos, reply ≠ .position (some pos)) ∨
      (request = .sequencer .nextPos ∧ reply = .position (some state.sequencer.nextPos) ∧
        next.sequencer.nextPos = state.sequencer.nextPos + 1))
    (held : ∀ {server : Fin n} {pos : Nat} {entry : Entry},
      (next.logServers server).entries[pos]? = some entry →
      (state.logServers server).entries[pos]? = some entry ∨
        (request = .logServer server (.store pos entry) ∧ reply = .stored (.ok true)))
    (tail : ∀ server, (next.logServers server).tail ≤ next.sequencer.nextPos)
    (trimPos : ∀ server, (next.logServers server).trimPos = (state.logServers server).trimPos ∨
      (request = .logServer server (.trim (next.logServers server).trimPos) ∧ reply = .unit)) :
    next.Inv trims := by
  have answered : ∀ {other sender' asked said}, next.Answered other sender' asked said →
      state.Answered other sender' asked said ∨
        (other = receiver ∧ sender' = sender ∧ asked = request ∧ said = reply) := by
    intro other sender' asked said found
    unfold Answered at found
    rw [messages] at found
    exact answered_of_answer pending found
  have sent : ∀ {other sender' asked}, next.Sent other sender' asked →
      state.Sent other sender' asked := by
    intro other sender' asked found
    obtain ⟨receipt, found⟩ := found
    rw [messages] at found
    exact sent_of_answer pending found
  have self : next.Answered receiver sender request reply := by
    unfold Answered
    rw [messages]
    exact answer_self pending
  refine ⟨Nat.le_trans inv.positive grows.sequencer.nextPos, fun first second => ?_,
    fun {pos} inside below => ?_, fun found => ?_, fun found => inv.trims (sent found),
    fun present => ?_, tail, fun server => ?_, fun found => ?_⟩
  · rcases numbered with ⟨_, unnumbered⟩ | ⟨_, said, _⟩
    · rcases answered first with old | ⟨_, _, _, same⟩
      · rcases answered second with old' | ⟨_, _, _, same⟩
        · exact inv.unique old old'
        · exact absurd same.symm (unnumbered _)
      · exact absurd same.symm (unnumbered _)
    · subst said
      rcases answered first with old | ⟨rfl, _, _, same⟩
      · rcases answered second with old' | ⟨_, _, _, same⟩
        · exact inv.unique old old'
        · cases same
          exact absurd (inv.answered old).2 (Nat.lt_irrefl _)
      · cases same
        rcases answered second with old' | ⟨rfl, _, _, _⟩
        · exact absurd (inv.answered old').2 (Nat.lt_irrefl _)
        · rfl
  · rcases numbered with ⟨same, _⟩ | ⟨rfl, rfl, counted⟩
    · obtain ⟨receiver', sender', old⟩ := inv.assigned inside (same ▸ below)
      exact ⟨receiver', sender', grows.answered old⟩
    · rcases Nat.lt_or_eq_of_le (Nat.le_of_lt_succ (counted ▸ below)) with earlier | rfl
      · obtain ⟨receiver', sender', old⟩ := inv.assigned inside earlier
        exact ⟨receiver', sender', grows.answered old⟩
      · exact ⟨receiver, sender, self⟩
  · obtain ⟨appends, assigned⟩ := inv.stores (sent found)
    exact ⟨appends, grows.assigned assigned⟩
  · rcases held present with before | ⟨rfl, rfl⟩
    · obtain ⟨owner, placed⟩ := inv.held before
      exact ⟨owner, grows.placed placed⟩
    · obtain ⟨owner, op⟩ := sender
      obtain ⟨rfl, _⟩ := inv.stores ⟨_, pending⟩
      exact ⟨owner, _, receiver, true, self⟩
  · rcases trimPos server with same | ⟨asked, rfl⟩
    · rw [same]
      rcases inv.trimPos server with untrimmed | ⟨receiver', sender', old⟩
      · exact Or.inl untrimmed
      · exact Or.inr ⟨receiver', sender', grows.answered old⟩
    · rw [asked] at self
      exact Or.inr ⟨receiver, sender, self⟩
  · rcases answered found with old | ⟨rfl, rfl, rfl, rfl⟩
    · exact (inv.answered old).stable grows
    · exact means

theorem Inv.sequencer (inv : state.Inv trims) {asked : SequencerRequest}
    (pending : state.messages[receiver]? = some ⟨sender, .sequencer asked, .pending⟩) :
    (state.handle receiver (.sequencer asked)).Inv trims := by
  have grows : Grows 0 state (state.handle receiver (.sequencer asked)) := handle_grows pending
  have tail : ∀ server, (state.logServers server).tail ≤
      (state.handle receiver (.sequencer asked)).sequencer.nextPos := fun server =>
    Nat.le_trans (inv.tail server) grows.sequencer.nextPos
  refine inv.answer pending rfl grows ?_ ?_ (fun present => Or.inl present) tail
    fun server => Or.inl rfl
  · cases asked with
    | nextPos =>
        simp only [handle, Sequencer.handle, NativeLoglet.answer]
        split
        · rename_i isSealed
          exact isSealed
        · exact ⟨inv.positive, Nat.lt_succ_self _⟩
    | «seal» => rfl
    | checkTail => exact ⟨inv.positive, Nat.le_refl _⟩
  · cases asked with
    | nextPos =>
        simp only [handle, Sequencer.handle, NativeLoglet.answer]
        split
        · exact Or.inl ⟨rfl, fun pos same => by cases same⟩
        · exact Or.inr ⟨trivial, rfl, rfl⟩
    | «seal» => exact Or.inl ⟨rfl, fun pos same => by cases same⟩
    | checkTail => exact Or.inl ⟨rfl, fun pos same => by cases same⟩

theorem Inv.assigned_unique (inv : state.Inv trims) {owner owner' pos : Nat} {entry entry' : Entry}
    (assigned : state.Assigned owner entry pos) (assigned' : state.Assigned owner' entry' pos) :
    owner = owner' ∧ entry = entry' := by
  obtain ⟨receiver, given⟩ := assigned
  obtain ⟨receiver', given'⟩ := assigned'
  have same := inv.unique given given'
  subst same
  cases Option.some.inj (given.symm.trans given')
  exact ⟨rfl, rfl⟩

theorem Inv.placed_assigned (inv : state.Inv trims) {owner pos : Nat} {entry : Entry}
    (placed : state.Placed owner entry pos) : state.Assigned owner entry pos := by
  obtain ⟨_, _, _, accepted⟩ := placed
  exact (inv.stores ⟨_, accepted⟩).2

/-- An occupied position holds the entry that was to be stored there. -/
theorem Inv.same_entry (inv : state.Inv trims) {owner pos : Nat} {entry held : Entry}
    (assigned : state.Assigned owner entry pos) {server : Fin n}
    (present : (state.logServers server).entries[pos]? = some held) : held = entry := by
  obtain ⟨owner', placed⟩ := inv.held present
  exact (inv.assigned_unique (inv.placed_assigned placed) assigned).2

variable (state receiver) in
theorem handle_logServers (server other : Fin n) (asked : LogServerRequest) :
    (other = server ∧ (state.handle receiver (.logServer server asked)).logServers other =
        ((state.logServers server).handle asked).1) ∨
      (other ≠ server ∧ (state.handle receiver (.logServer server asked)).logServers other =
        state.logServers other) := by
  by_cases same : other = server
  · subst same
    exact Or.inl ⟨rfl, Function.update_self ..⟩
  · exact Or.inr ⟨same, Function.update_of_ne same ..⟩

theorem logServer_means (inv : state.Inv trims) {server : Fin n} {asked : LogServerRequest}
    (pending : state.messages[receiver]? = some ⟨sender, .logServer server asked, .pending⟩) :
    (state.handle receiver (.logServer server asked)).Means (.logServer server asked)
      ((state.logServers server).handle asked).2 := by
  have grows : Grows 0 state (state.handle receiver (.logServer server asked)) :=
    handle_grows pending
  have self : (state.handle receiver (.logServer server asked)).logServers server =
      ((state.logServers server).handle asked).1 := Function.update_self ..
  cases asked with
  | store pos entry =>
      obtain ⟨owner, op⟩ := sender
      obtain ⟨_, assigned⟩ := inv.stores ⟨_, pending⟩
      simp only [LogServer.handle] at self ⊢
      cases stored : ((state.logServers server).store pos entry).2 with
      | error tail =>
          simp only [Means]
          rw [self]
          exact LogServer.store_error stored
      | ok repeated =>
          simp only [Means]
          rw [self]
          obtain ⟨held, present⟩ := LogServer.store_ok stored
          rcases LogServer.store_entries present with before | ⟨_, rfl, _⟩
          · rw [inv.same_entry assigned before] at present
            exact Or.inl present
          · exact Or.inl present
  | read pos =>
      simp only [LogServer.handle, LogServer.read] at self ⊢
      split
      · rename_i trimmed
        simp only [Means]
        rw [self]
        exact trimmed
      · split
        · rename_i entry present
          obtain ⟨owner, placed⟩ := inv.held present
          exact ⟨owner, grows.placed placed⟩
        · trivial
  | «seal» =>
      simp only [LogServer.handle, Means] at self ⊢
      rw [self]
      exact ⟨rfl, inv.tail server⟩
  | trim pos =>
      simp only [LogServer.handle, Means] at self ⊢
      rw [self]
      exact LogServer.trim_le _ _

theorem Inv.logServer (inv : state.Inv trims) {server : Fin n} {asked : LogServerRequest}
    (pending : state.messages[receiver]? = some ⟨sender, .logServer server asked, .pending⟩) :
    (state.handle receiver (.logServer server asked)).Inv trims := by
  have grows : Grows 0 state (state.handle receiver (.logServer server asked)) :=
    handle_grows pending
  refine inv.answer pending rfl grows (logServer_means inv pending)
    (Or.inl ⟨rfl, fun pos same => ?_⟩) (fun {target pos entry} present => ?_) (fun target => ?_)
    fun target => ?_
  · cases asked <;> cases same
  · rcases handle_logServers state receiver server target asked with ⟨rfl, self⟩ | ⟨_, same⟩
    · rw [self] at present
      cases asked with
      | store stored held =>
          rcases LogServer.store_entries present with before | ⟨rfl, rfl, accepted⟩
          · exact Or.inl before
          · simp only [accepted]
            exact Or.inr ⟨trivial, trivial⟩
      | read read => exact Or.inl present
      | «seal» => exact Or.inl present
      | trim trimmed => exact Or.inl (LogServer.trim_entries present)
    · rw [same] at present
      exact Or.inl present
  · rcases handle_logServers state receiver server target asked with ⟨rfl, self⟩ | ⟨_, same⟩
    · rw [self]
      cases asked with
      | store stored held =>
          obtain ⟨owner, op⟩ := sender
          obtain ⟨_, _, given⟩ := inv.stores ⟨_, pending⟩
          exact LogServer.store_tail (inv.tail target) (inv.answered given).2
      | read read => exact inv.tail target
      | «seal» => exact inv.tail target
      | trim trimmed =>
          simp only [LogServer.handle, LogServer.trim_tail]
          exact inv.tail target
    · rw [same]
      exact inv.tail target
  · rcases handle_logServers state receiver server target asked with ⟨rfl, self⟩ | ⟨_, same⟩
    · rw [self]
      cases asked with
      | store stored held => exact Or.inl LogServer.store_trimPos
      | read read => exact Or.inl rfl
      | «seal» => exact Or.inl rfl
      | trim trimmed =>
          simp only [LogServer.handle]
          rcases (state.logServers target).trim_trimPos trimmed with kept | moved
          · exact Or.inl kept
          · exact Or.inr ⟨by rw [moved], trivial⟩
    · rw [same]
      exact Or.inl rfl

theorem Inv.serve (inv : state.Inv trims) {task : Task n} (served : state.serve task = some next) :
    next.Inv trims ∧ ∀ index, Grows index state next := by
  obtain ⟨receiver, sender, request, pending, rfl⟩ := serve_cases served
  refine ⟨?_, fun index => handle_grows pending⟩
  cases request with
  | sequencer asked => exact inv.sequencer pending
  | logServer server asked => exact inv.logServer pending

theorem Inv.new (trims : Prop) (n : Nat) : (new n).Inv trims := by
  refine ⟨Nat.le_refl _, fun given => ?_, fun inside below => ?_, fun sent => ?_, fun sent => ?_,
    fun present => ?_, fun _ => Nat.le_refl _, fun _ => Or.inl rfl, fun answered => ?_⟩
  · cases given
  · exact absurd below (Nat.not_lt.mpr inside)
  · obtain ⟨_, found⟩ := sent
    cases found
  · obtain ⟨_, found⟩ := sent
    cases found
  · simp only [NativeLoglet.new, LogServer.spawn, Std.ExtTreeMap.getElem?_empty] at present
    cases present
  · cases answered

/-! ### Live servers -/

theorem Live.new (n : Nat) : (new n).Live :=
  ⟨fun _ => rfl, fun _ _ found => by cases found⟩

theorem Live.send (live : state.Live) {op : LogletOp} : (state.send index op request).Live := by
  refine ⟨live.1, fun receiver message found => ?_⟩
  rcases getElem?_of_concat found with before | ⟨_, rfl⟩
  · exact live.2 receiver message before
  · intro same
    cases same

theorem Live.flag (live : state.Live) : Live { state with sealed := true } := live

theorem LogServer.handle_alive (server : LogServer) (request : LogServerRequest) :
    (server.handle request).1.alive = server.alive := by
  cases request with
  | store pos entry =>
      simp only [LogServer.handle, LogServer.store]
      split
      · rfl
      · split <;> rfl
  | read pos => rfl
  | «seal» => rfl
  | trim pos =>
      simp only [LogServer.handle, LogServer.trim]
      split <;> rfl

theorem Live.serve (live : state.Live) {task : Task n} (served : state.serve task = some next) :
    next.Live := by
  obtain ⟨receiver, sender, request, pending, rfl⟩ := serve_cases served
  refine ⟨fun server => ?_, fun other message found => ?_⟩
  · cases request with
    | sequencer asked => exact live.1 server
    | logServer target asked =>
        rcases handle_logServers state receiver target server asked with ⟨rfl, self⟩ | ⟨_, same⟩
        · rw [self, LogServer.handle_alive]
          exact live.1 server
        · rw [same]
          exact live.1 server
  · rw [handle_messages] at found
    rcases answer_messages pending found with ⟨_, rfl⟩ | ⟨_, before⟩
    · intro dropped
      cases dropped
    · exact live.2 other message before

end NativeLoglet

end Relos
