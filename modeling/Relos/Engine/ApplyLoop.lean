import Relos.Engine.BaseEngine
import Mathlib.Logic.Relation

set_option autoImplicit false

/-! Requests served one after another by an engine that alone uses its log. The
apply loop takes several turns for each; here a request is one call. -/

namespace Relos

open Serial BaseEngine

/-- The loglet, the store and the locals of an apply loop. -/
structure ApplyLoop (Memory : Type) where
  loglet : MemoryLoglet
  store : MemoryStore
  cursor : Nat
  memory : Memory

namespace ApplyLoop

variable {Memory Local : Type} (applicator : Applicator Memory Unit)

def new (memory : Memory) : ApplyLoop Memory :=
  { loglet := .new, store := .new, cursor := logPosBegin, memory := memory }

/-- `apply_one` at the cursor, which the callers move. -/
def applyOne (loop : ApplyLoop Memory) : ApplyLoop Memory × Result ReturnValue :=
  match loop.loglet.read loop.cursor with
  | .ok (some entry) =>
      match applicator.apply () loop.memory loop.store.beginWriteTxn entry loop.cursor with
      | (memory, .ok (txn, rv)) =>
          ({ loop with
              store := (txn.put cursorKey (toLeBytes 8 (loop.cursor + 1))).commit
              memory := memory }, .ok rv)
      | (memory, .error error) => ({ loop with memory := memory }, .error error)
  | .ok none => (loop, .error
      (.internal s!"expected entry at position {loop.cursor} but got None"))
  | .error error => (loop, .error error)

/-- The loop that plays forward, `remaining` rounds of it. `observe` is what a round
does to its local, before the cursor moves. -/
def play (observe : Nat → ReturnValue → Local → Local) :
    Nat → Local → ApplyLoop Memory → ApplyLoop Memory × Result Local
  | 0, held, loop => (loop, .ok held)
  | remaining + 1, held, loop =>
      match loop.applyOne applicator with
      | (next, .ok rv) =>
          play observe remaining (observe next.cursor rv held)
            { next with cursor := next.cursor + 1 }
      | (next, .error error) => (next, .error error)

def handlePropose (loop : ApplyLoop Memory) (entry : Entry) :
    ApplyLoop Memory × Result ReturnValue :=
  match loop.loglet.append entry with
  | (loglet, .ok targetPos) =>
      play applicator
        (fun cursor rv targetReturn => if cursor = targetPos then rv else targetReturn)
        (targetPos + 1 - loop.cursor) .success { loop with loglet := loglet }
  | (loglet, .error error) => ({ loop with loglet := loglet }, .error error)

def handleSync (loop : ApplyLoop Memory) : ApplyLoop Memory × Result Nat :=
  match loop.loglet.checkTail with
  | .ok tail =>
      let (next, played) := play applicator (fun _ _ _ => ()) (tail - loop.cursor) () loop
      (next, played.map fun _ => tail)
  | .error error => (loop, .error error)

/-! ### The last round of a play -/

/-- The loop when it comes to the entry that it was asked to propose. -/
def reaching (loop : ApplyLoop Memory) (entry : Entry) : ApplyLoop Memory × Result Unit :=
  play applicator (fun _ _ _ => ()) (loop.loglet.tail - loop.cursor) ()
    { loop with loglet := (loop.loglet.append entry).1 }

section LastRound

variable {applicator} {loop next : ApplyLoop Memory}

variable (applicator) in
theorem applyOne_keeps (loop : ApplyLoop Memory) :
    (loop.applyOne applicator).1.cursor = loop.cursor ∧
      (loop.applyOne applicator).1.loglet = loop.loglet := by
  unfold applyOne
  cases loop.loglet.read loop.cursor with
  | error error => exact ⟨rfl, rfl⟩
  | ok found =>
      cases found with
      | none => exact ⟨rfl, rfl⟩
      | some entry =>
          dsimp only
          rcases applicator.apply () loop.memory loop.store.beginWriteTxn entry loop.cursor with
            ⟨memory, error | ⟨txn, rv⟩⟩ <;> exact ⟨rfl, rfl⟩

theorem applyOne_ok {rv : ReturnValue} (applied : (loop.applyOne applicator).2 = .ok rv) :
    ∃ entry memory txn, loop.loglet.read loop.cursor = .ok (some entry) ∧
      applicator.apply () loop.memory loop.store.beginWriteTxn entry loop.cursor =
        (memory, .ok (txn, rv)) := by
  unfold applyOne at applied
  rcases read : loop.loglet.read loop.cursor with error | found | entry
  · rw [read] at applied
    cases applied
  · rw [read] at applied
    cases applied
  · rw [read] at applied
    dsimp only at applied
    rcases ran : applicator.apply () loop.memory loop.store.beginWriteTxn entry loop.cursor with
      ⟨memory, error | ⟨txn, value⟩⟩
    · rw [ran] at applied
      cases applied
    · rw [ran] at applied
      cases applied
      exact ⟨entry, memory, txn, rfl, ran⟩

theorem play_keeps (observe : Nat → ReturnValue → Local → Local) {remaining : Nat} {held last : Local}
    (played : play applicator observe remaining held loop = (next, .ok last)) :
    next.cursor = loop.cursor + remaining ∧ next.loglet = loop.loglet := by
  induction remaining generalizing held loop with
  | zero =>
      cases played
      exact ⟨rfl, rfl⟩
  | succ remaining ih =>
      have keeps := applyOne_keeps applicator loop
      unfold play at played
      rcases applied : loop.applyOne applicator with ⟨middle, error | rv⟩
      · rw [applied] at played
        cases played
      · rw [applied] at played keeps
        obtain ⟨cursor, loglet⟩ := ih played
        dsimp only at keeps cursor loglet
        exact ⟨by omega, loglet.trans keeps.2⟩

/-- A play that succeeds was good in its rounds before the last. -/
theorem play_last (observe : Nat → ReturnValue → Local → Local) {remaining : Nat} {held last : Local}
    (played : play applicator observe (remaining + 1) held loop = (next, .ok last)) :
    ∃ middle rv held', play applicator (fun _ _ _ => ()) remaining () loop = (middle, .ok ()) ∧
      (middle.applyOne applicator).2 = .ok rv ∧ last = observe middle.cursor rv held' := by
  induction remaining generalizing held loop with
  | zero =>
      have keeps := applyOne_keeps applicator loop
      unfold play at played
      rcases applied : loop.applyOne applicator with ⟨middle, error | rv⟩
      · rw [applied] at played
        cases played
      · rw [applied] at played keeps
        cases played
        refine ⟨loop, rv, held, rfl, congrArg Prod.snd applied, ?_⟩
        rw [← keeps.1]
  | succ remaining ih =>
      unfold play at played
      rcases applied : loop.applyOne applicator with ⟨middle, error | rv⟩
      · rw [applied] at played
        cases played
      · rw [applied] at played
        obtain ⟨reached, value, held', before, rest⟩ := ih played
        refine ⟨reached, value, held', ?_, rest⟩
        rw [play, applied]
        exact before

/-- What a propose returns is what its own entry was given. -/
theorem handlePropose_last {entry : Entry} {rv : ReturnValue}
    (behind : loop.cursor ≤ loop.loglet.tail)
    (handled : (loop.handlePropose applicator entry).2 = .ok rv) :
    ∃ reached memory txn, loop.reaching applicator entry = (reached, .ok ()) ∧
      applicator.apply () reached.memory reached.store.beginWriteTxn entry reached.cursor =
        (memory, .ok (txn, rv)) := by
  unfold handlePropose at handled
  cases isSealed : loop.loglet.sealed with
  | true =>
      rw [MemoryLoglet.append, if_pos isSealed] at handled
      cases handled
  | false =>
      have rounds : loop.loglet.tail + 1 - loop.cursor = loop.loglet.tail - loop.cursor + 1 := by
        omega
      rw [MemoryLoglet.append_open isSealed] at handled
      dsimp only at handled
      rw [rounds] at handled
      rcases played : play applicator
        (fun cursor rv targetReturn => if cursor = loop.loglet.tail then rv else targetReturn)
        (loop.loglet.tail - loop.cursor + 1) .success
        { loop with loglet := { loop.loglet with entries := loop.loglet.entries ++ [some entry] } }
        with ⟨next, error | last⟩
      · rw [played] at handled
        cases handled
      · rw [played] at handled
        cases handled
        obtain ⟨reached, value, held, before, applied, same⟩ := play_last _ played
        obtain ⟨cursor, loglet⟩ := play_keeps _ before
        dsimp only at cursor loglet
        have there : reached.cursor = loop.loglet.tail := by omega
        rw [if_pos there] at same
        subst same
        obtain ⟨found, memory, txn, read, ran⟩ := applyOne_ok applied
        rw [there, loglet] at read
        cases MemoryLoglet.read_last read
        refine ⟨reached, memory, txn, ?_, ran⟩
        unfold reaching
        rw [MemoryLoglet.append_open isSealed]
        exact before

end LastRound

/-! ### A loop that has applied its whole log -/

section CaughtUp

/-- The log was neither sealed nor trimmed, and the cursor is its tail. -/
structure CaughtUp (loop : ApplyLoop Memory) (entries : List Entry) : Prop where
  log : loop.loglet = .holding entries
  cursor : loop.cursor = entries.length + 1

theorem CaughtUp.new (memory : Memory) : (new memory).CaughtUp [] := ⟨rfl, rfl⟩

variable {applicator} {loop : ApplyLoop Memory} {entries : List Entry}

/-- The next entry is the one proposed. -/
theorem handlePropose_caughtUp (caughtUp : loop.CaughtUp entries) (entry : Entry) :
    loop.handlePropose applicator entry =
      match applicator.apply () loop.memory loop.store.beginWriteTxn entry loop.cursor with
      | (memory, .ok (txn, rv)) =>
          ({ loglet := .holding (entries ++ [entry])
             store := (txn.put cursorKey (toLeBytes 8 (loop.cursor + 1))).commit
             cursor := loop.cursor + 1
             memory := memory }, .ok rv)
      | (memory, .error error) =>
          ({ loop with loglet := .holding (entries ++ [entry]), memory := memory }, .error error) := by
  have found : (MemoryLoglet.holding (entries ++ [entry])).read loop.cursor = .ok (some entry) := by
    rw [caughtUp.cursor, MemoryLoglet.holding_read, List.getElem?_concat_length]
  have rounds : entries.length + 1 + 1 - loop.cursor = 1 := by
    rw [caughtUp.cursor]
    omega
  unfold handlePropose
  rw [caughtUp.log, MemoryLoglet.holding_append]
  dsimp only
  rw [rounds]
  unfold play applyOne
  dsimp only
  rw [found]
  dsimp only
  cases ran : applicator.apply () loop.memory loop.store.beginWriteTxn entry loop.cursor with
  | mk memory result =>
      cases result with
      | error error => rfl
      | ok applied =>
          dsimp only
          unfold play
          rw [if_pos caughtUp.cursor]

theorem handleSync_caughtUp (caughtUp : loop.CaughtUp entries) :
    loop.handleSync applicator = (loop, .ok (entries.length + 1)) := by
  unfold handleSync MemoryLoglet.checkTail
  rw [caughtUp.log, MemoryLoglet.holding_tail, caughtUp.cursor]
  dsimp only
  rw [Nat.sub_self]
  rfl

end CaughtUp

/-! ### The turns of the small steps -/

section Turns

abbrev Running (Memory : Type) := TrackedLoglet × MemoryStore × BaseEngine Memory

/-- A turn that answers nobody. -/
def Moves (before after : Running Memory) : Prop :=
  ∃ turn, before.2.2.turn applicator () before.1 before.2.1 = some turn ∧ turn.reply = none ∧
    after = (turn.log, turn.store, turn.engine)

/-- Turns up to the one that answers the request, which leaves the rest waiting. -/
def Answers (before : Running Memory) (resultTx : Nat) (requests : List ApplyRequest)
    (after : ApplyLoop Memory × EngineResult) : Prop :=
  ∃ last turn, Relation.ReflTransGen (Moves applicator) before last ∧
    last.2.2.turn applicator () last.1 last.2.1 = some turn ∧
    turn.reply = some (resultTx, after.2) ∧ turn.log.loglet = after.1.loglet ∧
    turn.store = after.1.store ∧ turn.engine =
      { cursor := after.1.cursor, requests := requests, serving := none, memory := after.1.memory }

/-- The small-step state of a loop at a point of a request. -/
def running (loop : ApplyLoop Memory) (log : TrackedLoglet) (requests : List ApplyRequest)
    (serving : Option (Nat × Phase)) : Running Memory :=
  (log, loop.store,
    { cursor := loop.cursor, requests := requests, serving := serving, memory := loop.memory })

variable {applicator}

theorem Answers.of_moves {before : Running Memory} {resultTx : Nat}
    {requests : List ApplyRequest} {after : ApplyLoop Memory × EngineResult}
    (middle : Running Memory) (moved : Moves applicator before middle)
    (answers : Answers applicator middle resultTx requests after) :
    Answers applicator before resultTx requests after := by
  obtain ⟨last, turn, moves, rest⟩ := answers
  exact ⟨last, turn, .head moved moves, rest⟩

theorem Answers.now {before : Running Memory} {resultTx : Nat} {requests : List ApplyRequest}
    {after : ApplyLoop Memory × EngineResult} (turn : Turn Memory)
    (turned : before.2.2.turn applicator () before.1 before.2.1 = some turn)
    (reply : turn.reply = some (resultTx, after.2)) (log : turn.log.loglet = after.1.loglet)
    (store : turn.store = after.1.store) (engine : turn.engine =
      { cursor := after.1.cursor, requests := requests, serving := none,
        memory := after.1.memory }) : Answers applicator before resultTx requests after :=
  ⟨before, turn, .refl, turned, reply, log, store, engine⟩

/-- How a local shows in the handler of the small steps. -/
structure Shows (handler : Local → Handler) (observe : Nat → ReturnValue → Local → Local)
    (limit : Nat) : Prop where
  continues : ∀ cursor held, (handler held).continues cursor = true ↔ cursor < limit
  applied : ∀ cursor rv held, (handler held).applied cursor rv = handler (observe cursor rv held)

variable {handler : Local → Handler} {observe : Nat → ReturnValue → Local → Local}

theorem answers_play {limit : Nat} (shows : Shows handler observe limit) (remaining : Nat)
    {loop : ApplyLoop Memory} (held : Local) {log : TrackedLoglet} {resultTx : Nat}
    {requests : List ApplyRequest} (same : log.loglet = loop.loglet)
    (rounds : remaining = limit - loop.cursor) :
    Answers applicator (running loop log requests (some (resultTx, .play (handler held)))) resultTx
      requests (let played := play applicator observe remaining held loop
        (played.1, played.2.bind fun held => (handler held).result)) := by
  induction remaining generalizing loop held with
  | zero =>
      have stops : (handler held).continues loop.cursor = false := by
        refine Bool.eq_false_iff.mpr fun continues => ?_
        have := (shows.continues loop.cursor held).mp continues
        omega
      refine .now ⟨log, loop.store, _, _⟩ ?_ rfl same rfl rfl
      simp only [running, BaseEngine.turn, stops]
      rfl
  | succ remaining ih =>
      have continues : (handler held).continues loop.cursor = true :=
        (shows.continues loop.cursor held).mpr (by omega)
      unfold play applyOne
      cases read : loop.loglet.read loop.cursor with
      | error error =>
          refine .now ⟨log, loop.store, _, _⟩ ?_ rfl same rfl rfl
          simp only [running, BaseEngine.turn, continues, same, read]
          rfl
      | ok found =>
          cases found with
          | none =>
              refine .now ⟨log, loop.store, _, _⟩ ?_ rfl same rfl rfl
              simp only [running, BaseEngine.turn, continues, same, read]
              rfl
          | some entry =>
              refine .of_moves (running loop log requests
                (some (resultTx, .read (handler held) entry)))
                ⟨⟨log, loop.store, _, none⟩, ?_, rfl, rfl⟩ ?_
              · simp only [running, BaseEngine.turn, continues, same, read]
                rfl
              · dsimp only
                cases ran : applicator.apply () loop.memory loop.store.beginWriteTxn entry
                  loop.cursor with
                | mk memory result =>
                    cases result with
                    | error error =>
                        refine .now ⟨log, loop.store, _, _⟩ ?_ rfl same rfl rfl
                        simp only [running, BaseEngine.turn, ran]
                        rfl
                    | ok applied =>
                        obtain ⟨txn, rv⟩ := applied
                        refine .of_moves (running { loop with memory := memory } log requests
                          (some (resultTx, .staged (handler held)
                            (txn.put cursorKey (toLeBytes 8 (loop.cursor + 1))) rv)))
                          ⟨⟨log, loop.store, _, none⟩, ?_, rfl, rfl⟩ ?_
                        · simp only [running, BaseEngine.turn, ran]
                          rfl
                        refine .of_moves (running { loop with
                            store := (txn.put cursorKey (toLeBytes 8 (loop.cursor + 1))).commit
                            memory := memory } log requests
                          (some (resultTx, .committed (handler held) rv)))
                          ⟨⟨log, _, _, none⟩, rfl, rfl, rfl⟩ ?_
                        refine .of_moves (running { loop with
                            store := (txn.put cursorKey (toLeBytes 8 (loop.cursor + 1))).commit
                            memory := memory
                            cursor := loop.cursor + 1 } log requests
                          (some (resultTx, .play (handler (observe loop.cursor rv held)))))
                          ⟨⟨log, _, _, none⟩, ?_, rfl, rfl⟩ ?_
                        · rw [← shows.applied]
                          rfl
                        · exact ih _ same (by dsimp only; omega)

/-- The turns of the apply loop for a propose do what `handlePropose` does, as long
as the loglet has room. -/
theorem answers_handlePropose {loop : ApplyLoop Memory} {entry : Entry} {log : TrackedLoglet}
    {resultTx : Nat} {requests : List ApplyRequest} (same : log.loglet = loop.loglet)
    (room : loop.loglet.entries.length < vecCapacity) :
    Answers applicator (running loop log (⟨.propose entry, resultTx⟩ :: requests) none) resultTx
      requests (let handled := loop.handlePropose applicator entry
        (handled.1, handled.2.map .returned)) := by
  refine .of_moves (running loop log requests (some (resultTx, .append entry)))
    ⟨⟨log, loop.store, _, none⟩, rfl, rfl, rfl⟩ ?_
  unfold handlePropose
  cases appended : loop.loglet.append entry with
  | mk loglet result =>
      cases result with
      | error error =>
          have kept : loglet = loop.loglet := by
            unfold MemoryLoglet.append at appended
            split at appended <;> cases appended
            rfl
          refine .now ⟨log, loop.store, _, _⟩ ?_ rfl (same.trans kept.symm) rfl rfl
          simp only [running, BaseEngine.turn, same, room, if_true, appended]
          rfl
      | ok targetPos =>
          have called : (log.call resultTx (.append entry)).1.loglet = loglet := by
            unfold TrackedLoglet.call MemoryLoglet.call
            simp only [same, appended]
          refine .of_moves (running { loop with loglet := loglet }
            (log.call resultTx (.append entry)).1 requests
            (some (resultTx, .play (.propose targetPos .success))))
            ⟨⟨(log.call resultTx (.append entry)).1, loop.store, _, none⟩, ?_, rfl, rfl⟩ ?_
          · simp only [running, BaseEngine.turn, same, room, if_true, appended]
            rfl
          · have shows : Shows (Handler.propose targetPos)
                (fun cursor rv targetReturn => if cursor = targetPos then rv else targetReturn)
                (targetPos + 1) := by
              refine ⟨fun cursor held => ?_, fun cursor rv held => rfl⟩
              unfold Handler.continues
              rw [decide_eq_true_iff]
              exact Nat.lt_succ_iff.symm
            exact answers_play shows (targetPos + 1 - loop.cursor) .success called rfl

theorem answers_handleSync {loop : ApplyLoop Memory} {log : TrackedLoglet} {resultTx : Nat}
    {requests : List ApplyRequest} (same : log.loglet = loop.loglet) :
    Answers applicator (running loop log (⟨.sync, resultTx⟩ :: requests) none) resultTx
      requests (let handled := loop.handleSync applicator
        (handled.1, handled.2.map .pos)) := by
  refine .of_moves (running loop log requests (some (resultTx, .checkTail)))
    ⟨⟨log, loop.store, _, none⟩, rfl, rfl, rfl⟩ ?_
  refine .of_moves (running loop log requests
    (some (resultTx, .play (.sync loop.loglet.tail)))) ⟨⟨log, loop.store, _, none⟩, ?_, rfl, rfl⟩ ?_
  · simp only [running, BaseEngine.turn, same, MemoryLoglet.checkTail]
    rfl
  · have shows : Shows (fun _ : Unit => Handler.sync loop.loglet.tail) (fun _ _ _ => ())
        loop.loglet.tail := by
      refine ⟨fun cursor held => ?_, fun cursor rv held => rfl⟩
      unfold Handler.continues
      rw [decide_eq_true_iff]
    have answers : Answers applicator (running loop log requests
        (some (resultTx, .play (.sync loop.loglet.tail)))) resultTx requests _ :=
      answers_play shows (loop.loglet.tail - loop.cursor) () same rfl
    unfold handleSync MemoryLoglet.checkTail
    dsimp only at answers ⊢
    cases result : (play applicator (fun _ _ _ => ()) (loop.loglet.tail - loop.cursor) () loop).2 <;>
      rw [result] at answers <;> exact answers

end Turns

end ApplyLoop

end Relos
