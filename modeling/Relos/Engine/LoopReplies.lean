import Relos.Engine.EngineInvariant
import Mathlib.Data.List.Nodup

set_option autoImplicit false

/-! What an apply loop answers, whatever is appended next to it and whichever applies
fail: a propose is only ever told the value that its own entry was given. -/

namespace Relos

open Async Serial BaseEngine

variable {Memory Choice : Type}

/-- A property of the applied log and the whole store that every commit keeps, and one
of the value that an entry is given after those before it. -/
structure Applicator.Gives (applicator : Applicator Memory Choice)
    (Holds : List Entry → StoreData → Prop) (Value : List Entry → Entry → ReturnValue → Prop) :
    Prop where
  empty : Holds [] ∅
  step : ∀ {entries data choice memory entry memory' txn rv}, Holds entries data →
    applicator.apply choice memory { working := data } entry (entries.length + 1) =
      (memory', .ok (txn, rv)) →
    Holds (entries ++ [entry])
      (txn.put cursorKey (toLeBytes 8 (entries.length + 2))).working ∧ Value entries entry rv

/-- The store holds the first `count` entries, with the cursor behind them. -/
structure Stored (Holds : List Entry → StoreData → Prop) (entries : List Entry) (count : Nat)
    (data : StoreData) : Prop where
  applied : Applied (fun _ _ => True) entries count data
  holds : Holds (entries.take count) data

/-- The value of the entry at this slot of the log. -/
def Given (Value : List Entry → Entry → ReturnValue → Prop) (entries : List Entry) (slot : Nat)
    (rv : ReturnValue) : Prop :=
  ∃ entry, entries[slot]? = some entry ∧ Value (entries.take slot) entry rv

namespace TrackedLoglet

def entries (log : TrackedLoglet) : List Entry := log.written.map Prod.snd

def owners (log : TrackedLoglet) : List Nat := log.written.map Prod.fst

/-- The log was neither sealed nor trimmed, and no call appended twice. -/
structure Open (log : TrackedLoglet) : Prop where
  held : log.loglet = .holding log.entries
  capacity : log.entries.length ≤ vecCapacity
  once : log.owners.Nodup

end TrackedLoglet

variable {Holds : List Entry → StoreData → Prop} {Value : List Entry → Entry → ReturnValue → Prop}
  {applicator : Applicator Memory Choice} {entries entries' : List Entry} {count slot : Nat}
  {rv : ReturnValue} {data : StoreData} {log log' : TrackedLoglet}

theorem Applicator.carries_nothing (applicator : Applicator Memory Choice) :
    applicator.Carries fun _ _ => True :=
  ⟨trivial, fun _ _ => trivial⟩

theorem Stored.new (gives : applicator.Gives Holds Value) : Stored Holds [] 0 ∅ where
  applied := .new applicator.carries_nothing
  holds := gives.empty

theorem Stored.extend (stored : Stored Holds entries count data) (more : entries <+: entries') :
    Stored Holds entries' count data where
  applied := stored.applied.extend more
  holds := by
    rw [take_of_longer more stored.applied.inside]
    exact stored.holds

theorem Given.extend (given : Given Value entries slot rv) (more : entries <+: entries') :
    Given Value entries' slot rv := by
  obtain ⟨entry, found, value⟩ := given
  refine ⟨entry, getElem?_of_longer more found, ?_⟩
  rw [take_of_longer more (Nat.le_of_lt (List.getElem?_eq_some_iff.mp found).1)]
  exact value

/-- The next entry of the log, applied to a copy of the store. -/
theorem Stored.stage (gives : applicator.Gives Holds Value)
    (stored : Stored Holds entries count data) {choice : Choice} {memory memory' : Memory}
    {txn : MemoryWriteTx} {entry : Entry}
    (found : entries[count]? = some entry)
    (ran : applicator.apply choice memory { working := data } entry (count + 1) =
      (memory', .ok (txn, rv))) :
    Stored Holds entries (count + 1) (txn.put cursorKey (toLeBytes 8 (count + 2))).working ∧
      Given Value entries count rv := by
  have applied := stored.applied.stage applicator.carries_nothing found ran
  have length : (entries.take count).length = count := by
    rw [List.length_take]
    exact Nat.min_eq_left stored.applied.inside
  rw [← length] at ran
  obtain ⟨holds, value⟩ := gives.step stored.holds ran
  rw [length] at holds
  refine ⟨⟨applied, ?_⟩, entry, found, value⟩
  rw [List.take_add_one, found, Option.toList_some]
  exact holds

theorem TrackedLoglet.Open.new : TrackedLoglet.new.Open where
  held := rfl
  capacity := Nat.zero_le _
  once := List.nodup_nil

theorem TrackedLoglet.Open.append (isOpen : log.Open) {index : Nat} (entry : Entry)
    (room : log.loglet.entries.length < vecCapacity) (absent : index ∉ log.owners) :
    (log.call index (.append entry)).1.Open ∧
      (log.call index (.append entry)).1.written = log.written ++ [(index, entry)] ∧
      (log.loglet.append entry).2 = .ok (log.written.length + 1) := by
  have length : log.entries.length = log.written.length := List.length_map ..
  have written : (log.call index (.append entry)).1.written = log.written ++ [(index, entry)] := by
    unfold TrackedLoglet.call MemoryLoglet.call
    dsimp only
    rw [isOpen.held, MemoryLoglet.holding_append]
    rfl
  have entries : (log.call index (.append entry)).1.entries = log.entries ++ [entry] := by
    unfold TrackedLoglet.entries
    rw [written, List.map_append]
    rfl
  refine ⟨⟨?_, ?_, ?_⟩, written, ?_⟩
  · rw [entries]
    change (log.loglet.append entry).1 = _
    rw [isOpen.held, MemoryLoglet.holding_append]
  · rw [isOpen.held] at room
    unfold MemoryLoglet.holding at room
    rw [List.length_map] at room
    rw [entries, List.length_append, List.length_singleton]
    exact room
  · unfold TrackedLoglet.owners
    rw [written, List.map_append]
    refine List.nodup_append.mpr ⟨isOpen.once, List.nodup_singleton _, ?_⟩
    intro owner member other last same
    rw [same, List.mem_singleton.mp last] at member
    exact absent member
  · rw [isOpen.held, MemoryLoglet.holding_append, length]

/-- A call owns at most one position. -/
theorem TrackedLoglet.Open.placed_unique (isOpen : log.Open) {index pos pos' : Nat}
    {entry entry' : Entry} (placed : log.Placed index entry pos)
    (placed' : log.Placed index entry' pos') : entry = entry' ∧ pos = pos' := by
  have owner : ∀ {found : Entry} {there : Nat}, log.Placed index found there →
      log.owners[there - logPosBegin]? = some index := by
    intro found there placed
    unfold TrackedLoglet.owners
    rw [List.getElem?_map, placed.2]
    rfl
  have same := (List.getElem?_inj (List.getElem?_eq_some_iff.mp (owner placed)).1
    isOpen.once).mp ((owner placed).trans (owner placed').symm)
  have held := placed.2
  rw [same, placed'.2] at held
  cases held
  have positive := placed.1
  have positive' := placed'.1
  simp only [logPosBegin] at positive positive' same
  exact ⟨rfl, by omega⟩

/-! ### The loop -/

/-- What a handler knows of the propose that it serves. -/
def HandlerAnswers (Value : List Entry → Entry → ReturnValue → Prop) (log : TrackedLoglet)
    (index : Nat) (request : EngineOp) (cursor : Nat) : Handler → Prop
  | .propose targetPos rv => ∃ slot entry, request = .propose entry ∧ targetPos = slot + 1 ∧
      log.written[slot]? = some (index, entry) ∧
      (targetPos < cursor → Given Value log.entries slot rv)
  | .sync _ => True

/-- Between a commit and the increment the store is ahead of the cursor. -/
def PhaseAnswers (Holds : List Entry → StoreData → Prop)
    (Value : List Entry → Entry → ReturnValue → Prop) (log : TrackedLoglet) (count index : Nat)
    (request : EngineOp) (cursor : Nat) : Phase → Prop
  | .append entry => request = .propose entry ∧ index ∉ log.owners ∧ cursor = count + 1
  | .checkTail => cursor = count + 1
  | .play handler => HandlerAnswers Value log index request cursor handler ∧ cursor = count + 1
  | .read handler entry => HandlerAnswers Value log index request cursor handler ∧
      cursor = count + 1 ∧ log.entries[count]? = some entry
  | .staged handler txn rv => HandlerAnswers Value log index request cursor handler ∧
      cursor = count + 1 ∧ Stored Holds log.entries cursor txn.working ∧
      Given Value log.entries count rv
  | .committed handler rv => HandlerAnswers Value log index request cursor handler ∧
      cursor = count ∧ ∃ slot, cursor = slot + 1 ∧ Given Value log.entries slot rv

/-- No request that waits to be appended is in the log. -/
structure LoopAnswers (Holds : List Entry → StoreData → Prop)
    (Value : List Entry → Entry → ReturnValue → Prop) (asked : Nat → EngineOp → Prop)
    (log : TrackedLoglet) (count : Nat) (engine : BaseEngine Memory) : Prop where
  nodup : engine.unanswered.Nodup
  requests : ∀ request ∈ engine.requests, asked request.resultTx request.op ∧
    request.resultTx ∉ log.owners
  idle : engine.serving = none → engine.cursor = count + 1
  serving : ∀ index phase, engine.serving = some (index, phase) → ∃ request, asked index request ∧
    PhaseAnswers Holds Value log count index request engine.cursor phase

/-- The value of the entry that a call has appended, once the store holds it. -/
def Told (Value : List Entry → Entry → ReturnValue → Prop) (log : TrackedLoglet) (count index : Nat)
    (entry : Entry) (rv : ReturnValue) : Prop :=
  ∃ slot, log.written[slot]? = some (index, entry) ∧ slot < count ∧ Given Value log.entries slot rv

/-- What one turn makes of the log, the store and the loop. -/
structure LoopTurned (Holds : List Entry → StoreData → Prop)
    (Value : List Entry → Entry → ReturnValue → Prop) (asked : Nat → EngineOp → Prop)
    (log : TrackedLoglet) (count : Nat) (turn : Turn Memory) (count' : Nat) : Prop where
  isOpen : turn.log.Open
  stored : Stored Holds turn.log.entries count' turn.store.data
  answers : LoopAnswers Holds Value asked turn.log count' turn.engine
  advanced : count ≤ count'
  grown : turn.log.written = log.written ∨ ∃ index entry, asked index (.propose entry) ∧
    index ∉ log.owners ∧ turn.log.written = log.written ++ [(index, entry)]
  replied : ∀ index rv, turn.reply = some (index, .ok (.returned rv)) →
    ∃ entry, asked index (.propose entry) ∧ Told Value turn.log count' index entry rv

section Loop

variable {asked : Nat → EngineOp → Prop} {engine : BaseEngine Memory} {index cursor : Nat}
  {request : EngineOp} {handler : Handler} {store : MemoryStore}

theorem HandlerAnswers.extend (answers : HandlerAnswers Value log index request cursor handler)
    (written : log.written <+: log'.written) :
    HandlerAnswers Value log' index request cursor handler := by
  cases handler with
  | propose targetPos rv =>
      obtain ⟨slot, entry, asks, target, placed, given⟩ := answers
      exact ⟨slot, entry, asks, target, getElem?_of_longer written placed,
        fun past => (given past).extend (written.map Prod.snd)⟩
  | sync tail => trivial

theorem HandlerAnswers.applied
    (answers : HandlerAnswers Value log index request (slot + 1) handler)
    (given : Given Value log.entries slot rv) :
    HandlerAnswers Value log index request (slot + 2) (handler.applied (slot + 1) rv) := by
  cases handler with
  | propose targetPos targetReturn =>
      obtain ⟨target, entry, asks, rfl, placed, known⟩ := answers
      refine ⟨target, entry, asks, rfl, placed, fun past => ?_⟩
      by_cases here : slot = target
      · subst here
        rw [if_pos rfl]
        exact given
      · rw [if_neg (by omega)]
        exact known (by omega)
  | sync tail => trivial

/-- The placeholder is never told: where the loop stops, the cursor has passed the
target. -/
theorem HandlerAnswers.told (asks : asked index request)
    (answers : HandlerAnswers Value log index request (count + 1) handler)
    (done : handler.continues (count + 1) = false) (told : handler.result = .ok (.returned rv)) :
    ∃ entry, asked index (.propose entry) ∧ Told Value log count index entry rv := by
  cases handler with
  | propose targetPos targetReturn =>
      obtain ⟨slot, entry, rfl, rfl, placed, given⟩ := answers
      have past : ¬ count + 1 ≤ slot + 1 := of_decide_eq_false done
      cases told
      exact ⟨entry, asks, slot, placed, by omega, given (by omega)⟩
  | sync tail => cases told

theorem Told.extend {entry : Entry} {count' : Nat} (told : Told Value log count index entry rv)
    (written : log.written <+: log'.written) (advanced : count ≤ count') :
    Told Value log' count' index entry rv := by
  obtain ⟨slot, placed, behind, given⟩ := told
  exact ⟨slot, getElem?_of_longer written placed, Nat.lt_of_lt_of_le behind advanced,
    given.extend (written.map Prod.snd)⟩

/-- A log that grows by the requests of others. -/
theorem PhaseAnswers.extend {phase : Phase}
    (answers : PhaseAnswers Holds Value log count index request cursor phase)
    (written : log.written <+: log'.written)
    (unwritten : index ∉ log.owners → index ∉ log'.owners) :
    PhaseAnswers Holds Value log' count index request cursor phase := by
  have more : log.entries <+: log'.entries := written.map Prod.snd
  cases phase with
  | append entry => exact ⟨answers.1, unwritten answers.2.1, answers.2.2⟩
  | checkTail => exact answers
  | play handler => exact ⟨answers.1.extend written, answers.2⟩
  | read handler entry =>
      obtain ⟨handles, cursor, found⟩ := answers
      exact ⟨handles.extend written, cursor, getElem?_of_longer more found⟩
  | staged handler txn rv =>
      obtain ⟨handles, cursor, staged, given⟩ := answers
      exact ⟨handles.extend written, cursor, staged.extend more, given.extend more⟩
  | committed handler rv =>
      obtain ⟨handles, cursor, slot, past, given⟩ := answers
      exact ⟨handles.extend written, cursor, slot, past, given.extend more⟩

theorem LoopAnswers.extend (answers : LoopAnswers Holds Value asked log count engine)
    (written : log.written <+: log'.written)
    (unwritten : ∀ index request, asked index request → index ∉ log.owners → index ∉ log'.owners) :
    LoopAnswers Holds Value asked log' count engine where
  nodup := answers.nodup
  requests request queued := by
    obtain ⟨asks, absent⟩ := answers.requests request queued
    exact ⟨asks, unwritten _ _ asks absent⟩
  idle := answers.idle
  serving index phase current := by
    obtain ⟨request, asks, holds⟩ := answers.serving index phase current
    exact ⟨request, asks, holds.extend written (unwritten _ _ asks)⟩

theorem LoopAnswers.imp {asked' : Nat → EngineOp → Prop}
    (answers : LoopAnswers Holds Value asked log count engine)
    (still : ∀ index request, asked index request → asked' index request) :
    LoopAnswers Holds Value asked' log count engine where
  nodup := answers.nodup
  requests request queued := by
    obtain ⟨asks, absent⟩ := answers.requests request queued
    exact ⟨still _ _ asks, absent⟩
  idle := answers.idle
  serving index phase current := by
    obtain ⟨request, asks, holds⟩ := answers.serving index phase current
    exact ⟨request, still _ _ asks, holds⟩

theorem LoopAnswers.asked_of_mem (answers : LoopAnswers Holds Value asked log count engine)
    (member : index ∈ engine.unanswered) : ∃ request, asked index request := by
  cases serving : engine.serving with
  | none =>
      rw [unanswered_idle serving] at member
      obtain ⟨request, waits, rfl⟩ := List.mem_map.mp member
      exact ⟨_, (answers.requests request waits).1⟩
  | some current =>
      rw [unanswered_serving serving] at member
      rcases List.mem_cons.mp member with rfl | queued
      · obtain ⟨request, asks, -⟩ := answers.serving _ _ serving
        exact ⟨request, asks⟩
      · obtain ⟨request, waits, rfl⟩ := List.mem_map.mp queued
        exact ⟨_, (answers.requests request waits).1⟩

theorem LoopAnswers.enqueue (answers : LoopAnswers Holds Value asked log count engine)
    (fresh : index ∉ engine.unanswered) (asks : asked index request) (absent : index ∉ log.owners) :
    LoopAnswers Holds Value asked log count
      { engine with requests := engine.requests ++ [⟨request, index⟩] } where
  nodup := by
    rw [unanswered_enqueue]
    refine List.nodup_append.mpr ⟨answers.nodup, List.nodup_singleton _, ?_⟩
    intro other member last single same
    rw [same, List.mem_singleton.mp single] at member
    exact fresh member
  requests other member := by
    rcases List.mem_append.mp member with earlier | last
    · exact answers.requests other earlier
    · rw [List.mem_singleton.mp last]
      exact ⟨asks, absent⟩
  idle := answers.idle
  serving := answers.serving

/-- The loop stays with the request it serves. -/
theorem LoopAnswers.goOn {phase phase' : Phase} {cursor' count' : Nat} {memory : Memory}
    (answers : LoopAnswers Holds Value asked log count engine)
    (serving : engine.serving = some (index, phase)) (asks : asked index request)
    (unwritten : ∀ other ∈ engine.requests, other.resultTx ∉ log.owners →
      other.resultTx ∉ log'.owners)
    (next : PhaseAnswers Holds Value log' count' index request cursor' phase') :
    LoopAnswers Holds Value asked log' count'
      { engine with cursor := cursor', serving := some (index, phase'), memory := memory } where
  nodup := by
    have nodup := answers.nodup
    rw [unanswered_serving serving] at nodup
    exact nodup
  requests other member := by
    obtain ⟨asks, absent⟩ := answers.requests other member
    exact ⟨asks, unwritten other member absent⟩
  idle impossible := by cases impossible
  serving other phase same := by
    cases same
    exact ⟨request, asks, next⟩

theorem LoopTurned.goOn (engine : BaseEngine Memory) {phase phase' : Phase} {cursor' : Nat}
    {memory : Memory} (isOpen : log.Open)
    (stored : Stored Holds log.entries count store.data)
    (answers : LoopAnswers Holds Value asked log count engine)
    (serving : engine.serving = some (index, phase)) (asks : asked index request)
    (next : PhaseAnswers Holds Value log count index request cursor' phase') :
    LoopTurned Holds Value asked log count
      { log := log
        store := store
        engine := { engine with
          cursor := cursor', serving := some (index, phase'), memory := memory }
        reply := none } count where
  isOpen := isOpen
  stored := stored
  answers := answers.goOn serving asks (fun _ _ absent => absent) next
  advanced := Nat.le_refl _
  grown := Or.inl rfl
  replied _ _ impossible := by cases impossible

theorem LoopTurned.answer (engine : BaseEngine Memory) {phase : Phase} {result : EngineResult}
    {memory : Memory}
    (isOpen : log.Open) (stored : Stored Holds log.entries count store.data)
    (answers : LoopAnswers Holds Value asked log count engine)
    (serving : engine.serving = some (index, phase)) (cursor : engine.cursor = count + 1)
    (told : ∀ rv, result = .ok (.returned rv) →
      ∃ entry, asked index (.propose entry) ∧ Told Value log count index entry rv) :
    LoopTurned Holds Value asked log count
      { log := log
        store := store
        engine := { engine with serving := none, memory := memory }
        reply := some (index, result) } count where
  isOpen := isOpen
  stored := stored
  answers := by
    have nodup := answers.nodup
    rw [unanswered_serving serving] at nodup
    exact ⟨(List.nodup_cons.mp nodup).2, answers.requests, fun _ => cursor,
      fun _ _ impossible => by cases impossible⟩
  advanced := Nat.le_refl _
  grown := Or.inl rfl
  replied other rv same := by
    cases same
    exact told rv rfl

/-- One turn of an apply loop, whatever else was appended since the last one. -/
theorem turn_answers (gives : applicator.Gives Holds Value) (isOpen : log.Open)
    (stored : Stored Holds log.entries count store.data)
    (answers : LoopAnswers Holds Value asked log count engine) {choice : Choice}
    {turn : Turn Memory} (moved : engine.turn applicator choice log store = some turn) :
    ∃ count', LoopTurned Holds Value asked log count turn count' := by
  unfold BaseEngine.turn at moved
  split at moved
  · rename_i idle
    split at moved
    · cases moved
    · rename_i request requests queued
      cases moved
      have cursor := answers.idle idle
      obtain ⟨asks, absent⟩ := answers.requests request (queued ▸ List.mem_cons_self)
      have nodup := answers.nodup
      rw [unanswered_idle idle, queued, List.map_cons] at nodup
      refine ⟨count, isOpen, stored, ⟨nodup, fun other member => ?_, fun impossible => ?_,
        fun other phase begun => ?_⟩, Nat.le_refl _, Or.inl rfl, fun _ _ impossible => ?_⟩
      · exact answers.requests other (queued ▸ List.mem_cons_of_mem _ member)
      · cases impossible
      · cases begun
        refine ⟨request.op, asks, ?_⟩
        cases op : request.op with
        | propose entry => exact ⟨rfl, absent, cursor⟩
        | sync => exact cursor
      · cases impossible
  · rename_i index entry serving
    obtain ⟨request, asks, rfl, absent, cursor⟩ := answers.serving _ _ serving
    split at moved
    · rename_i room
      obtain ⟨isOpen', written, targetPos⟩ := isOpen.append entry room absent
      rw [targetPos] at moved
      cases moved
      have starts : log.written <+: (log.call index (.append entry)).1.written :=
        written ▸ List.prefix_append _ _
      refine ⟨count, isOpen', stored.extend (starts.map Prod.snd), ?_, Nat.le_refl _,
        Or.inr ⟨index, entry, asks, absent, written⟩, fun _ _ impossible => by cases impossible⟩
      refine answers.goOn serving asks (fun other member unwritten => ?_)
        ⟨⟨log.written.length, entry, rfl, rfl, ?_, fun past => ?_⟩, cursor⟩
      · unfold TrackedLoglet.owners
        rw [written, List.map_append]
        exact absent_concat_serving serving answers.nodup member unwritten
      · rw [written]
        exact List.getElem?_concat_length
      · have inside := stored.applied.inside
        have length : log.entries.length = log.written.length := List.length_map ..
        omega
    · cases moved
  · rename_i index serving
    obtain ⟨request, asks, cursor⟩ := answers.serving _ _ serving
    have tail : log.loglet.checkTail = .ok log.loglet.tail := rfl
    rw [tail] at moved
    cases moved
    exact ⟨count, .goOn engine isOpen stored answers serving asks ⟨trivial, cursor⟩⟩
  · rename_i index handler serving
    obtain ⟨request, asks, handles, cursor⟩ := answers.serving _ _ serving
    split at moved
    · rename_i continues
      rw [isOpen.held, cursor, MemoryLoglet.holding_read] at moved
      cases found : log.entries[count]? with
      | none =>
          rw [found] at moved
          cases moved
          exact ⟨count, .answer engine isOpen stored answers serving cursor
            fun _ impossible => by cases impossible⟩
      | some entry =>
          rw [found] at moved
          cases moved
          exact ⟨count, .goOn engine isOpen stored answers serving asks ⟨handles, cursor, found⟩⟩
    · rename_i done
      cases moved
      rw [cursor] at handles done
      exact ⟨count, .answer engine isOpen stored answers serving cursor
        fun rv told => handles.told asks (Bool.eq_false_iff.mpr done) told⟩
  · rename_i index handler entry serving
    obtain ⟨request, asks, handles, cursor, found⟩ := answers.serving _ _ serving
    split at moved
    · rename_i memory txn rv ran
      cases moved
      rw [cursor] at ran
      obtain ⟨staged, given⟩ := stored.stage gives found ran
      refine ⟨count, .goOn engine isOpen stored answers serving asks ⟨handles, cursor, ?_, given⟩⟩
      rw [cursor]
      exact staged
    · cases moved
      exact ⟨count, .answer engine isOpen stored answers serving cursor
        fun _ impossible => by cases impossible⟩
  · rename_i index handler txn rv serving
    obtain ⟨request, asks, handles, cursor, staged, given⟩ := answers.serving _ _ serving
    cases moved
    refine ⟨engine.cursor, isOpen, staged, answers.goOn serving asks (fun _ _ absent => absent)
      ⟨handles, rfl, count, cursor, given⟩, by omega, Or.inl rfl,
      fun _ _ impossible => by cases impossible⟩
  · rename_i index handler rv serving
    obtain ⟨request, asks, handles, cursor, slot, past, given⟩ := answers.serving _ _ serving
    cases moved
    rw [past] at handles
    refine ⟨count, .goOn engine isOpen stored answers serving asks ⟨?_, by rw [← cursor]⟩⟩
    rw [past]
    exact handles.applied given

end Loop

end Relos
