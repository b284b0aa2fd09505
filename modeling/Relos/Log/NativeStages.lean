import Relos.Log.NativeInvariant
import Relos.Log.MemoryLoglet

set_option autoImplicit false

/-! A replicated loglet beside memory loglets that have seen the same calls: what
every task holds once the requests in flight are served, in whatever order. -/

namespace Relos

open Async

/-- What a read finds in a memory loglet. -/
def MemoryLoglet.found (memory : MemoryLoglet) (pos : Nat) : ReadResult :=
  if pos < memory.trimPos then .trimmed
  else
    match (memory.entries[pos - logPosBegin]?).join with
    | some entry => .entry entry
    | none => .notFound

structure Sequencer.Matches (memory : MemoryLoglet) (sequencer : Sequencer) : Prop where
  nextPos : sequencer.nextPos = memory.tail
  sealed : sequencer.sealed = memory.sealed

theorem Sequencer.Matches.assign {memory : MemoryLoglet} {sequencer : Sequencer}
    (same : sequencer.Matches memory) (isOpen : memory.sealed = false) (entry : Entry) :
    (sequencer.handle .nextPos).1.Matches (memory.append entry).1 ∧
      (sequencer.handle .nextPos).2 = .position (some memory.tail) := by
  have still : ¬ sequencer.sealed = true := by rw [same.sealed, isOpen]; decide
  dsimp only [Sequencer.handle]
  rw [if_neg still, MemoryLoglet.append_open isOpen, same.nextPos]
  refine ⟨⟨?_, same.sealed⟩, rfl⟩
  simp only [MemoryLoglet.tail, List.length_append, List.length_singleton]
  omega

theorem Sequencer.Matches.trim {memory : MemoryLoglet} {sequencer : Sequencer}
    (same : sequencer.Matches memory) (pos : Nat) : sequencer.Matches (memory.trim pos) := by
  constructor
  · rw [same.nextPos]
    unfold MemoryLoglet.tail
    rw [memory.trim_length]
  · rw [same.sealed, memory.trim_sealed]

/-- A log server holds what the loglet still returns, and nothing at its tail. -/
structure LogServer.Matches (memory : MemoryLoglet) (server : LogServer) : Prop where
  sealed : server.sealed = memory.sealed
  trimPos : server.trimPos = memory.trimPos
  tail : server.tail = memory.tail
  positive : logPosBegin ≤ memory.trimPos
  kept : ∀ pos, memory.trimPos ≤ pos →
    server.entries[pos]? = (memory.entries[pos - logPosBegin]?).join
  vacant : ∀ pos, memory.tail ≤ pos → server.entries[pos]? = none

namespace LogServer

variable {memory : MemoryLoglet} {server : LogServer}

theorem Matches.spawn : LogServer.Matches .new .spawn where
  sealed := rfl
  trimPos := rfl
  tail := rfl
  positive := Nat.le_refl _
  kept _ _ := Std.ExtTreeMap.getElem?_empty
  vacant _ _ := Std.ExtTreeMap.getElem?_empty

theorem Matches.read (same : server.Matches memory) (pos : Nat) :
    server.read pos = memory.found pos := by
  unfold LogServer.read MemoryLoglet.found
  rw [same.trimPos]
  split
  · rfl
  · rename_i untrimmed
    have kept := same.kept pos (Nat.not_lt.mp untrimmed)
    cases found : (memory.entries[pos - logPosBegin]?).join with
    | none => simp only [kept, found]
    | some entry => simp only [kept, found]

theorem Matches.store (same : server.Matches memory) (isOpen : memory.sealed = false)
    (entry : Entry) :
    LogServer.Matches (memory.append entry).1 (server.store memory.tail entry).1 ∧
      (server.store memory.tail entry).2 = .ok true := by
  have isVacant : server.entries.contains memory.tail = false := by
    rw [Std.ExtTreeMap.contains_eq_isSome_getElem?, same.vacant _ (Nat.le_refl _)]
    rfl
  have stored : server.store memory.tail entry =
      ({ server with
          entries := server.entries.insert memory.tail entry
          tail := memory.tail + 1 }, .ok true) := by
    unfold LogServer.store
    rw [if_neg (by rw [same.sealed, isOpen]; decide), if_neg (by rw [isVacant]; decide), same.tail,
      if_pos (Nat.le_refl _)]
  have longer : (memory.append entry).1.tail = memory.tail + 1 := by
    rw [MemoryLoglet.append_open isOpen]
    simp only [MemoryLoglet.tail, List.length_append, List.length_singleton]
    omega
  rw [stored]
  refine ⟨⟨?_, ?_, longer.symm, ?_, ?_, ?_⟩, rfl⟩
  · rw [MemoryLoglet.append_open isOpen]
    exact same.sealed
  · rw [MemoryLoglet.append_open isOpen]
    exact same.trimPos
  · rw [MemoryLoglet.append_open isOpen]
    exact same.positive
  · intro pos above
    rw [MemoryLoglet.append_open isOpen] at above ⊢
    have kept := same.kept pos above
    have positive := same.positive
    dsimp only at above ⊢
    have tail : memory.tail = memory.entries.length + 1 := rfl
    simp only [Std.ExtTreeMap.getElem?_insert, Nat.compare_eq_eq]
    simp only [logPosBegin] at kept positive ⊢
    by_cases here : memory.tail = pos
    · have last : pos - 1 = memory.entries.length := by omega
      rw [if_pos here, last, List.getElem?_concat_length]
      rfl
    · rw [if_neg here, kept]
      by_cases before : pos - 1 < memory.entries.length
      · rw [List.getElem?_append_left before]
      · rw [List.getElem?_eq_none (Nat.not_lt.mp before), List.getElem?_eq_none
          (by rw [List.length_append, List.length_singleton]; omega)]
  · intro pos beyond
    rw [longer] at beyond
    simp only [Std.ExtTreeMap.getElem?_insert, Nat.compare_eq_eq]
    rw [if_neg (by omega)]
    exact same.vacant pos (by omega)

theorem Matches.trim (same : server.Matches memory) (pos : Nat) :
    LogServer.Matches (memory.trim pos) (server.trim pos) := by
  by_cases moves : memory.trimPos < pos
  · have trimmed : server.trim pos = { server with
        trimPos := pos
        entries := server.entries.filter fun stored _ => decide (pos ≤ stored) } := by
      unfold LogServer.trim
      rw [same.trimPos, if_pos moves]
    have trimPosEq : (memory.trim pos).trimPos = pos :=
      (memory.trim_trimPos pos).trans (Nat.max_eq_right (Nat.le_of_lt moves))
    have tailEq : (memory.trim pos).tail = memory.tail := by
      unfold MemoryLoglet.tail
      rw [memory.trim_length]
    rw [trimmed]
    refine ⟨same.sealed.trans (memory.trim_sealed pos).symm, trimPosEq.symm, same.tail.trans tailEq.symm, ?_, ?_, ?_⟩
    · rw [trimPosEq]
      exact Nat.le_trans same.positive (Nat.le_of_lt moves)
    · intro other above
      rw [trimPosEq] at above
      have kept := same.kept other (by omega)
      have stays : (server.entries.filter fun stored _ => decide (pos ≤ stored))[other]? =
          server.entries[other]? := by
        rw [Std.ExtTreeMap.getElem?_filter', decide_eq_true above]
        cases server.entries[other]? <;> rfl
      rw [stays, kept]
      rcases MemoryLoglet.trim_entries pos moves (other - logPosBegin) with equal | ⟨early, -⟩
      · rw [equal]
      · have positive := same.positive
        simp only [logPosBegin] at early positive
        omega
    · intro other beyond
      rw [tailEq] at beyond
      rw [Std.ExtTreeMap.getElem?_filter', same.vacant other beyond]
      rfl
  · have unmoved : memory.trim pos = memory := by
      unfold MemoryLoglet.trim
      exact if_neg moves
    have unmoved' : server.trim pos = server := by
      unfold LogServer.trim
      rw [same.trimPos]
      exact if_neg moves
    rw [unmoved, unmoved']
    exact same

theorem Matches.seal (same : server.Matches memory) :
    LogServer.Matches { memory with sealed := true } { server with sealed := true } :=
  ⟨rfl, same.trimPos, same.tail, same.positive, same.kept, same.vacant⟩

end LogServer

theorem MemoryLoglet.read_found {memory : MemoryLoglet} {server : LogServer}
    (same : server.Matches memory) (pos : Nat) :
    memory.read pos = match memory.found pos with
      | .trimmed => .error (.trimmed pos)
      | .entry entry => .ok (some entry)
      | .notFound => .ok none := by
  unfold MemoryLoglet.read MemoryLoglet.found
  split
  · rfl
  · rename_i untrimmed
    split
    · rename_i beyond
      have vacant := same.vacant pos beyond
      rw [same.kept pos (Nat.not_lt.mp untrimmed)] at vacant
      rw [vacant]
    · cases (memory.entries[pos - logPosBegin]?).join <;> rfl

/-! ### Requests in flight -/

namespace NativeLoglet

variable {n : Nat}

def Pending (state : NativeLoglet n) (receiver : Nat) (request : Request n) : Prop :=
  ∃ sender, state.messages[receiver]? = some ⟨sender, request, .pending⟩

/-- Nothing is in flight to the task. -/
def Quiet (state : NativeLoglet n) (task : Task n) : Prop :=
  ∀ receiver request, state.Pending receiver request → request.task ≠ task

def Holds (state : NativeLoglet n) (memory : MemoryLoglet) : Task n → Prop
  | .sequencer => state.sequencer.Matches memory
  | .logServer server => (state.logServers server).Matches memory

/-- What the task of the request will hold and reply, once it serves it. -/
def Brings (state : NativeLoglet n) (memory : MemoryLoglet) (reply : Reply) : Request n → Prop
  | .sequencer asked => (state.sequencer.handle asked).1.Matches memory ∧
      (state.sequencer.handle asked).2 = reply
  | .logServer server asked => ((state.logServers server).handle asked).1.Matches memory ∧
      ((state.logServers server).handle asked).2 = reply

/-- At most one request is in flight to each task. `views` is what the tasks hold when
all are served, and `answers` what the receivers get. -/
structure Settles (state : NativeLoglet n) (views : Task n → MemoryLoglet)
    (answers : Nat → Option Reply) : Prop where
  tasks : ∀ task, (state.Quiet task ∧ state.Holds (views task) task) ∨
    ∃ receiver request reply, state.Pending receiver request ∧ request.task = task ∧
      (∀ other asked, state.Pending other asked → asked.task = task → other = receiver) ∧
      state.Brings (views task) reply request ∧ answers receiver = some reply
  sent : ∀ receiver reply, state.receive receiver = .sent reply → answers receiver = some reply

variable {state : NativeLoglet n} {memory : MemoryLoglet} {receiver other : Nat}
  {request asked : Request n} {task : Task n} {reply : Reply} {views : Task n → MemoryLoglet}
  {answers : Nat → Option Reply} {sealed : Bool} {receivers : List Nat}

theorem Pending.unique (pending : state.Pending receiver request)
    (pending' : state.Pending receiver asked) : request = asked := by
  obtain ⟨sender, found⟩ := pending
  obtain ⟨sender', found'⟩ := pending'
  rw [found] at found'
  cases found'
  rfl

/-- A served request is not in flight any more, the others are. -/
theorem pending_handle (pending : state.Pending receiver request) :
    (state.handle receiver request).Pending other asked ↔
      other ≠ receiver ∧ state.Pending other asked := by
  obtain ⟨sender, found⟩ := pending
  constructor
  · rintro ⟨sender', found'⟩
    rw [handle_messages] at found'
    rcases answer_messages found found' with ⟨-, impossible⟩ | ⟨different, before⟩
    · cases impossible
    · exact ⟨different, sender', before⟩
  · rintro ⟨different, sender', before⟩
    refine ⟨sender', ?_⟩
    rw [handle_messages]
    simp only [answer, List.getElem?_modify, if_neg different.symm, id_map']
    exact before

theorem receive_handle (pending : state.Pending receiver request) (other : Nat) :
    (state.handle receiver request).receive other =
      if other = receiver then .sent (state.replyTo request) else state.receive other := by
  obtain ⟨sender, found⟩ := pending
  unfold receive
  rw [handle_messages]
  simp only [answer, List.getElem?_modify]
  by_cases same : other = receiver
  · subst same
    rw [if_pos rfl, found]
    simp
  · have different : ¬ receiver = other := fun equal => same equal.symm
    simp only [if_neg same, if_neg different, id_map']

theorem holds_handle (receiver : Nat) (brings : state.Brings memory reply request) :
    (state.handle receiver request).Holds memory request.task ∧ state.replyTo request = reply := by
  cases request with
  | sequencer asked => exact brings
  | logServer server asked =>
      refine ⟨?_, brings.2⟩
      change LogServer.Matches memory ((state.handle receiver (.logServer server asked)).logServers server)
      rcases handle_logServers state receiver server server asked with ⟨-, same⟩ | ⟨impossible, -⟩
      · rw [same]
        exact brings.1
      · exact absurd rfl impossible

/-- The other tasks do not notice. -/
theorem holds_handle_other (different : task ≠ request.task) :
    (state.handle receiver request).Holds memory task ↔ state.Holds memory task := by
  cases task with
  | sequencer =>
      cases request with
      | sequencer asked => exact absurd rfl different
      | logServer server asked => exact Iff.rfl
  | logServer target =>
      cases request with
      | sequencer asked => exact Iff.rfl
      | logServer server asked =>
          rcases handle_logServers state receiver server target asked with ⟨rfl, -⟩ | ⟨-, same⟩
          · exact absurd rfl different
          · dsimp only [Holds]
            rw [same]

theorem brings_handle_other (different : asked.task ≠ request.task) :
    (state.handle receiver request).Brings memory reply asked ↔ state.Brings memory reply asked := by
  cases asked with
  | sequencer sought =>
      cases request with
      | sequencer served => exact absurd rfl different
      | logServer server served => exact Iff.rfl
  | logServer target sought =>
      cases request with
      | sequencer served => exact Iff.rfl
      | logServer server served =>
          rcases handle_logServers state receiver server target served with ⟨rfl, -⟩ | ⟨-, same⟩
          · exact absurd rfl different
          · dsimp only [Brings]
            rw [same]

/-- Serving a request leaves what all will have been served. -/
theorem Settles.handle (settles : state.Settles views answers)
    (pending : state.Pending receiver request) :
    (state.handle receiver request).Settles views answers := by
  have served : ∃ reply, state.Brings (views request.task) reply request ∧
      answers receiver = some reply := by
    rcases settles.tasks request.task with ⟨quiet, -⟩ | ⟨known, asked, reply, pending', same, only, rest⟩
    · exact absurd rfl (quiet receiver request pending)
    · have here := only receiver request pending rfl
      subst here
      cases pending.unique pending'
      exact ⟨reply, rest⟩
  obtain ⟨given, brings, known⟩ := served
  obtain ⟨holds, replies⟩ := holds_handle receiver brings
  constructor
  · intro task
    by_cases mine : task = request.task
    · subst mine
      refine Or.inl ⟨fun other asked pending' same => ?_, holds⟩
      obtain ⟨different, before⟩ := (pending_handle pending).mp pending'
      rcases settles.tasks request.task with ⟨quiet, -⟩ | ⟨_, _, _, -, -, only, -⟩
      · exact quiet other asked before same
      · exact different ((only other asked before same).trans (only receiver request pending rfl).symm)
    · rcases settles.tasks task with ⟨quiet, held⟩ | ⟨sought, asked, reply, waits, same, only, brings', known'⟩
      · refine Or.inl ⟨fun other asked pending' => ?_, (holds_handle_other mine).mpr held⟩
        exact quiet other asked ((pending_handle pending).mp pending').2
      · have different : sought ≠ receiver := by
          intro equal
          subst equal
          cases pending.unique waits
          exact mine same.symm
        refine Or.inr ⟨sought, asked, reply, (pending_handle pending).mpr ⟨different, waits⟩, same, ?_,
          (brings_handle_other (by rw [same]; exact mine)).mpr brings', known'⟩
        intro other asked' pending' same'
        exact only other asked' ((pending_handle pending).mp pending').2 same'
  · intro other reply received
    rw [receive_handle pending] at received
    split at received
    · rename_i same
      cases received
      rw [same, replies]
      exact known
    · exact settles.sent other reply received

/-- A call that waits for these receivers, in this order, and gets this reply from each. -/
structure Stage (state : NativeLoglet n) (sealed : Bool) (views : Task n → MemoryLoglet)
    (receivers : List Nat) (reply : Reply) : Prop where
  live : state.Live
  sealed : state.sealed = sealed
  settles : ∃ answers, state.Settles views answers ∧
    ∀ receiver ∈ receivers, answers receiver = some reply
  only : ∀ receiver request, state.Pending receiver request → receiver ∈ receivers
  known : ∀ receiver ∈ receivers, ∃ message, state.messages[receiver]? = some message

theorem Stage.serve {next : NativeLoglet n} (stage : state.Stage sealed views receivers reply)
    (served : state.serve task = some next) : next.Stage sealed views receivers reply := by
  have live := stage.live.serve served
  obtain ⟨receiver, sender, request, found, rfl⟩ := serve_cases served
  have pending : state.Pending receiver request := ⟨sender, found⟩
  obtain ⟨answers, settles, replies⟩ := stage.settles
  refine ⟨live, ?_, ⟨answers, settles.handle pending, replies⟩, ?_, ?_⟩
  · cases request <;> exact stage.sealed
  · intro other asked pending'
    exact stage.only other asked ((pending_handle pending).mp pending').2
  · intro other member
    obtain ⟨message, before⟩ := stage.known other member
    rw [handle_messages]
    obtain ⟨receipt, after, -⟩ := answer_grows found before
    exact ⟨_, after⟩

theorem quiet_serve {next : NativeLoglet n} {other : Task n} (quiet : state.Quiet other)
    (served : state.serve task = some next) : next.Quiet other := by
  obtain ⟨receiver, sender, request, found, rfl⟩ := serve_cases served
  intro other asked pending
  exact quiet other asked ((pending_handle ⟨sender, found⟩).mp pending).2

/-- Once nothing is awaited, nothing is in flight. -/
theorem Stage.rest (stage : state.Stage sealed views [] reply) (task : Task n) :
    state.Quiet task ∧ state.Holds (views task) task := by
  have quiet : state.Quiet task := fun receiver request pending =>
    absurd (stage.only receiver request pending) List.not_mem_nil
  obtain ⟨answers, settles, -⟩ := stage.settles
  rcases settles.tasks task with ⟨-, held⟩ | ⟨receiver, request, _, pending, same, -⟩
  · exact ⟨quiet, held⟩
  · exact absurd same (quiet receiver request pending)

theorem Stage.nil (stage : state.Stage sealed views [] reply) (reply' : Reply) :
    state.Stage sealed views [] reply' := by
  obtain ⟨answers, settles, -⟩ := stage.settles
  exact ⟨stage.live, stage.sealed, ⟨answers, settles, fun _ impossible => absurd impossible
    List.not_mem_nil⟩, stage.only, stage.known⟩

/-- What a quiet task holds. -/
theorem Stage.holds (stage : state.Stage sealed views receivers reply) (quiet : state.Quiet task) :
    state.Holds (views task) task := by
  obtain ⟨answers, settles, -⟩ := stage.settles
  rcases settles.tasks task with ⟨-, held⟩ | ⟨receiver, request, _, pending, same, -⟩
  · exact held
  · exact absurd same (quiet receiver request pending)

/-- The reply that has arrived is the one expected. -/
theorem Stage.received (stage : state.Stage sealed views (receiver :: receivers) reply)
    {got : Reply} (received : state.receive receiver = .sent got) :
    got = reply ∧ state.Stage sealed views receivers reply := by
  obtain ⟨answers, settles, replies⟩ := stage.settles
  have expected := replies receiver List.mem_cons_self
  rw [settles.sent receiver got received] at expected
  refine ⟨Option.some.inj expected, stage.live, stage.sealed,
    ⟨answers, settles, fun other member => replies other (List.mem_cons_of_mem _ member)⟩, ?_,
    fun other member => stage.known other (List.mem_cons_of_mem _ member)⟩
  intro other request pending
  rcases List.mem_cons.mp (stage.only other request pending) with same | member
  · subst same
    obtain ⟨sender, found⟩ := pending
    unfold receive at received
    rw [found] at received
    cases received
  · exact member

/-- A reply that has not arrived can be served. -/
theorem Stage.waiting (stage : state.Stage sealed views (receiver :: receivers) reply)
    (received : state.receive receiver = .pending) : ∃ request, state.Pending receiver request := by
  obtain ⟨⟨sender, request, receipt⟩, found⟩ := stage.known receiver List.mem_cons_self
  unfold receive at received
  rw [found] at received
  cases received
  exact ⟨request, sender, found⟩

variable {index : Nat} {op : LogletOp}

theorem pending_send (other : Nat) (asked : Request n) :
    (state.send index op request).Pending other asked ↔
      state.Pending other asked ∨ (other = state.receiver ∧ asked = request) := by
  constructor
  · rintro ⟨sender, found⟩
    rcases getElem?_of_concat found with before | ⟨here, same⟩
    · exact Or.inl ⟨sender, before⟩
    · cases same
      exact Or.inr ⟨here, rfl⟩
  · rintro (⟨sender, before⟩ | ⟨rfl, rfl⟩)
    · refine ⟨sender, ?_⟩
      simp only [send]
      rw [List.getElem?_append_left (List.getElem?_eq_some_iff.mp before).1]
      exact before
    · exact ⟨(index, op), List.getElem?_concat_length⟩

theorem receive_send {got : Reply} (received : (state.send index op request).receive other = .sent got) :
    state.receive other = .sent got := by
  unfold receive at received ⊢
  cases found : (state.send index op request).messages[other]? with
  | none =>
      rw [found] at received
      cases received
  | some message =>
      rcases getElem?_of_concat found with before | ⟨-, same⟩
      · rw [before]
        rw [found] at received
        exact received
      · rw [found, same] at received
        cases received

/-- A request to a quiet task, whose reply is to be the same as those awaited. -/
theorem Stage.send {views' : Task n → MemoryLoglet}
    (stage : state.Stage sealed views receivers reply) (quiet : state.Quiet request.task)
    (brings : state.Brings (views' request.task) reply request)
    (others : ∀ task, task ≠ request.task → views' task = views task) :
    (state.send index op request).Stage sealed views' (receivers ++ [state.receiver]) reply := by
  obtain ⟨answers, settles, replies⟩ := stage.settles
  have older : ∀ {receiver : Nat} {asked : Request n}, state.Pending receiver asked →
      receiver < state.receiver := fun ⟨_, found⟩ => (List.getElem?_eq_some_iff.mp found).1
  refine ⟨stage.live.send, stage.sealed, ⟨Function.update answers state.receiver (some reply),
    ⟨?_, ?_⟩, ?_⟩, ?_, ?_⟩
  · intro task
    by_cases mine : task = request.task
    · subst mine
      refine Or.inr ⟨state.receiver, request, reply, (pending_send _ _).mpr (Or.inr ⟨rfl, rfl⟩), rfl,
        ?_, ?_, Function.update_self ..⟩
      · intro other asked pending same
        rcases (pending_send other asked).mp pending with before | ⟨here, -⟩
        · exact absurd same (quiet other asked before)
        · exact here
      · cases request <;> exact brings
    · have unsent : ∀ other asked, (state.send index op request).Pending other asked →
          asked.task = task → state.Pending other asked := by
        intro other asked pending same
        rcases (pending_send other asked).mp pending with before | ⟨-, equal⟩
        · exact before
        · exact absurd (equal ▸ same.symm) mine
      rw [others task mine]
      rcases settles.tasks task with ⟨still, held⟩ | ⟨sought, asked, given, waits, same, only, brings', known⟩
      · refine Or.inl ⟨fun other asked pending same => ?_, ?_⟩
        · exact still other asked (unsent other asked pending same) same
        · cases task <;> exact held
      · refine Or.inr ⟨sought, asked, given, (pending_send _ _).mpr (Or.inl waits), same, ?_, ?_, ?_⟩
        · intro other asked' pending same'
          exact only other asked' (unsent other asked' pending same') same'
        · cases asked <;> exact brings'
        · rw [Function.update_of_ne (Nat.ne_of_lt (older waits))]
          exact known
  · intro other got received
    have before := receive_send received
    have inside : other ≠ state.receiver := by
      intro same
      have beyond : state.messages[state.receiver]? = none := List.getElem?_eq_none (Nat.le_refl _)
      unfold receive at before
      rw [same, beyond] at before
      cases before
    rw [Function.update_of_ne inside]
    exact settles.sent other got before
  · intro other member
    rcases List.mem_append.mp member with before | added
    · obtain ⟨message, found⟩ := stage.known other before
      have inside : other < state.receiver := (List.getElem?_eq_some_iff.mp found).1
      rw [Function.update_of_ne (Nat.ne_of_lt inside)]
      exact replies other before
    · rw [List.mem_singleton.mp added, Function.update_self]
  · intro other asked pending
    rcases (pending_send other asked).mp pending with before | ⟨here, -⟩
    · exact List.mem_append_left _ (stage.only other asked before)
    · exact List.mem_append_right _ (List.mem_singleton.mpr here)
  · intro other member
    rcases List.mem_append.mp member with before | added
    · obtain ⟨message, found⟩ := stage.known other before
      refine ⟨message, ?_⟩
      simp only [NativeLoglet.send]
      rw [List.getElem?_append_left (List.getElem?_eq_some_iff.mp found).1]
      exact found
    · rw [List.mem_singleton.mp added]
      exact ⟨_, List.getElem?_concat_length⟩

theorem quiet_send {quietTask : Task n} (quiet : state.Quiet quietTask)
    (different : request.task ≠ quietTask) : (state.send index op request).Quiet quietTask := by
  intro other asked pending
  rcases (pending_send other asked).mp pending with before | ⟨-, same⟩
  · exact quiet other asked before
  · rw [same]
    exact different

/-! ### How much is left to do -/

def inFlight (state : NativeLoglet n) : Nat :=
  state.messages.countP fun message => decide (message.receipt = .pending)

theorem countP_modify {α : Type} {which : α → Bool} {change : α → α} {items : List α} {index : Nat}
    {item : α} (found : items[index]? = some item) (counted : which item = true)
    (changed : which (change item) = false) :
    (items.modify index change).countP which + 1 = items.countP which := by
  induction items generalizing index with
  | nil => cases found
  | cons first rest ih =>
      cases index with
      | zero =>
          cases found
          simp [List.modify_zero_cons, counted, changed]
      | succ index =>
          have less := ih found
          rw [List.modify_succ_cons, List.countP_cons, List.countP_cons]
          omega

theorem inFlight_handle (pending : state.Pending receiver request) :
    (state.handle receiver request).inFlight + 1 = state.inFlight := by
  obtain ⟨sender, found⟩ := pending
  unfold inFlight
  rw [handle_messages]
  exact countP_modify found rfl rfl

theorem inFlight_send : (state.send index op request).inFlight = state.inFlight + 1 := by
  unfold inFlight send
  rw [List.countP_append]
  rfl

/-- No log server stops. -/
def Event.IsServe : Event n → Prop
  | .serve _ => True
  | .stop _ => False

instance : (event : Event n) → Decidable event.IsServe
  | .serve _ => isTrue trivial
  | .stop _ => isFalse id

/-- The task of a request in flight has something to serve. -/
theorem exists_serve (pending : state.Pending receiver request) :
    ∃ next, state.serve request.task = some next ∧ next.inFlight < state.inFlight := by
  obtain ⟨sender, found⟩ := pending
  have queued : (state.messages.findIdx? fun message => message.isQueued request.task).isSome := by
    rw [List.findIdx?_isSome, List.any_eq_true]
    refine ⟨_, List.mem_of_getElem? found, ?_⟩
    simp [Message.isQueued]
  obtain ⟨first, located⟩ := Option.isSome_iff_exists.mp queued
  have served : ∃ next, state.serve request.task = some next := by
    unfold serve
    rw [located]
    obtain ⟨inside, -, -⟩ := List.findIdx?_eq_some_iff_getElem.mp located
    rw [Option.bind_some, List.getElem?_eq_getElem inside]
    exact ⟨_, rfl⟩
  obtain ⟨next, served⟩ := served
  refine ⟨next, served, ?_⟩
  obtain ⟨receiver', sender', request', found', rfl⟩ := serve_cases served
  have less : (state.handle receiver' request').inFlight + 1 = state.inFlight :=
    inFlight_handle ⟨sender', found'⟩
  omega

/-- An upper bound for the polls left of a call. -/
def futureRank (n : Nat) : Future → Nat
  | .append => 3 * n + 8
  | .nextPos => 3 * n + 7
  | .nextPosReply _ => 3 * n + 5
  | .markSealed => 4
  | .checkTail => 3
  | .checkTailReply _ => 1
  | .fanOutStore _ receivers => 3 * (n - receivers.length) + receivers.length + 2
  | .storeReplies _ receivers _ _ => receivers.length + 1
  | .read _ server => 4 * (n - server) + 1
  | .readReply _ server _ => 4 * (n - (server + 1)) + 2
  | .fanOutTrim _ receivers => 3 * (n - receivers.length) + receivers.length + 2
  | .trimReplies receivers => receivers.length + 1
  | .sealSequencer => 3 * n + 7
  | .sealSequencerReply _ => 3 * n + 5
  | .fanOutSeal _ receivers => 3 * (n - receivers.length) + receivers.length + 2
  | .sealReplies _ receivers _ _ => receivers.length + 1

/-- A poll may send one request more, and is worth more than that. -/
def rank (state : NativeLoglet n) (future : Future) : Nat := futureRank n future + state.inFlight

variable {next : NativeLoglet n} {future later : Future}

theorem rank_send (less : futureRank n later + 1 < futureRank n future) :
    (state.send index op request).rank later < state.rank future := by
  unfold rank
  rw [inFlight_send]
  omega

theorem fanOut_rank {asked : LogServerRequest} {more : List Nat → Future} {sentAll : Future}
    (polled : fanOut state index op asked receivers more sentAll = some (next, .running later))
    (moreRank : ∀ receivers, futureRank n (more receivers) =
      3 * (n - receivers.length) + receivers.length + 2)
    (allRank : futureRank n sentAll = receivers.length + 1) :
    next.rank later < state.rank (more receivers) := by
  unfold fanOut at polled
  split at polled
  · rename_i inside
    unfold sendTo at polled
    split at polled
    · cases polled
      apply rank_send
      rw [moreRank, moreRank, List.length_append, List.length_singleton]
      omega
    · cases polled
  · cases polled
    unfold rank
    rw [moreRank, allRank]
    omega

/-- Every poll that does not end the call brings its end closer. -/
theorem poll_rank (polled : poll state index op future = some (next, .running later)) :
    next.rank later < state.rank future := by
  cases future with
  | append =>
      simp only [poll] at polled
      split at polled <;> cases polled <;> simp only [rank, futureRank] <;> omega
  | nextPos | checkTail | sealSequencer =>
      cases polled
      apply rank_send
      simp only [futureRank]
      omega
  | markSealed =>
      cases polled
      exact Nat.add_lt_add_right (Nat.lt_succ_self 3) state.inFlight
  | nextPosReply receiver | sealSequencerReply receiver =>
      simp only [poll] at polled
      split at polled <;> cases polled <;>
        simp only [rank, futureRank, List.length_nil] <;> omega
  | checkTailReply receiver =>
      simp only [poll] at polled
      split at polled <;> cases polled
  | fanOutStore pos receivers =>
      cases op with
      | append entry => exact fanOut_rank polled (fun _ => rfl) rfl
      | checkTail | read | trim | «seal» => cases polled
  | fanOutTrim pos receivers => exact fanOut_rank polled (fun _ => rfl) rfl
  | fanOutSeal sequencerTail receivers => exact fanOut_rank polled (fun _ => rfl) rfl
  | storeReplies pos receivers ackCount sealTail =>
      cases receivers with
      | nil =>
          simp only [poll, acknowledge] at polled
          split at polled
          · cases polled
          · split at polled <;> cases polled
      | cons receiver receivers =>
          simp only [poll] at polled
          split at polled <;> cases polled <;>
            simp only [rank, futureRank, List.length_cons] <;> omega
  | read pos server =>
      simp only [poll] at polled
      split at polled
      · unfold sendTo at polled
        split at polled
        · cases polled
          apply rank_send
          simp only [futureRank]
          omega
        · cases polled
      · cases polled
  | readReply pos server receiver =>
      simp only [poll] at polled
      split at polled <;> cases polled
      simp only [rank, futureRank]
      omega
  | trimReplies receivers =>
      cases receivers with
      | nil => cases polled
      | cons receiver receivers =>
          simp only [poll] at polled
          split at polled <;> cases polled
          simp only [rank, futureRank, List.length_cons]
          omega
  | sealReplies sequencerTail receivers sealedCount maxTail =>
      cases receivers with
      | nil =>
          simp only [poll] at polled
          split at polled <;> cases polled
      | cons receiver receivers =>
          simp only [poll] at polled
          split at polled <;> cases polled <;>
            simp only [rank, futureRank, List.length_cons] <;> omega

end NativeLoglet

end Relos
