import Relos.Engine.LogServers
import Relos.Engine.LoopReplies

set_option autoImplicit false

/-! What an apply loop makes of the answers of its log, entry by entry. The loop remembers
nothing of the log but the entries that it has read. -/

namespace Relos

open Async Serial BaseEngine

variable {Memory Choice : Type}

/-- The first `count` entries stay, and one more may have been read behind them. -/
structure Rehears (op : LogletOp) (result : LogletResult) (count : Nat)
    (heard heard' : List Entry) : Prop where
  inside : count ≤ heard'.length
  kept : heard'.take count = heard.take count
  added : ∀ (slot : Nat) entry, heard'[slot]? = some entry → heard[slot]? = some entry ∨
    slot = count ∧ op = .read (count + 1) ∧ result = .ok (.entry (some entry))

variable {Holds : List Entry → StoreData → Prop} {Value : List Entry → Entry → ReturnValue → Prop}
  {applicator : Applicator Memory Choice} {heard heard' : List Entry} {count slot : Nat}
  {rv : ReturnValue} {data : StoreData}

theorem Stored.rehear {op : LogletOp} {result : LogletResult}
    (stored : Stored Holds heard count data) (rehears : Rehears op result count heard heard') :
    Stored Holds heard' count data where
  applied := ⟨rehears.inside, trivial, stored.applied.cursor⟩
  holds := by
    rw [rehears.kept]
    exact stored.holds

theorem Given.retake (given : Given Value heard slot rv)
    (kept : heard'.take count = heard.take count) (before : slot < count) :
    Given Value heard' slot rv := by
  obtain ⟨entry, found, value⟩ := given
  refine ⟨entry, ?_, ?_⟩
  · rw [← List.getElem?_take_of_lt before, kept, List.getElem?_take_of_lt before]
    exact found
  · have first : ∀ list : List Entry, list.take slot = (list.take count).take slot := by
      intro list
      rw [List.take_take, Nat.min_eq_left (Nat.le_of_lt before)]
    rw [first, kept, ← first]
    exact value

/-- The position fits in the eight bytes of the cursor. -/
theorem Stored.persistedCursor (stored : Stored Holds heard count data)
    (fits : count + 1 < 2 ^ 64) : persistedCursor { data := data } = .ok (count + 1) := by
  unfold BaseEngine.persistedCursor MemoryStore.get
  simp only [stored.applied.cursor]
  by_cases none : count = 0
  · rw [if_pos none, none]
    rfl
  · rw [if_neg none]
    simp only [length_toLeBytes, if_true]
    rw [fromLeBytes_toLeBytes 8 (count + 1) (by omega)]

/-! ### The loop -/

/-- `landed` says which position the append of a request was given. -/
def HandlerTells (Value : List Entry → Entry → ReturnValue → Prop)
    (landed : Nat → Entry → Nat → Prop) (heard : List Entry) (index : Nat) (request : EngineOp)
    (cursor : Nat) : Handler → Prop
  | .propose targetPos rv => ∃ slot entry, request = .propose entry ∧ targetPos = slot + 1 ∧
      landed index entry targetPos ∧ (targetPos < cursor → Given Value heard slot rv)
  | .sync _ => True

def PhaseTells (Holds : List Entry → StoreData → Prop)
    (Value : List Entry → Entry → ReturnValue → Prop) (landed : Nat → Entry → Nat → Prop)
    (heard : List Entry) (count index : Nat) (request : EngineOp) (cursor : Nat) : Phase → Prop
  | .append entry => request = .propose entry ∧ cursor = count + 1
  | .checkTail => cursor = count + 1
  | .play handler => HandlerTells Value landed heard index request cursor handler ∧
      cursor = count + 1
  | .read handler entry => HandlerTells Value landed heard index request cursor handler ∧
      cursor = count + 1 ∧ heard[count]? = some entry
  | .staged handler txn rv => HandlerTells Value landed heard index request cursor handler ∧
      cursor = count + 1 ∧ Stored Holds heard cursor txn.working ∧ Given Value heard count rv
  | .committed handler rv => HandlerTells Value landed heard index request cursor handler ∧
      cursor = count ∧ ∃ slot, cursor = slot + 1 ∧ Given Value heard slot rv

/-- A request is appended at most once: those that wait are `unsent`. -/
structure LoopTells (Holds : List Entry → StoreData → Prop)
    (Value : List Entry → Entry → ReturnValue → Prop) (asked : Nat → EngineOp → Prop)
    (landed : Nat → Entry → Nat → Prop) (unsent : Nat → Prop) (heard : List Entry) (count : Nat)
    (awaited : Option Nat) (engine : BaseEngine Memory) : Prop where
  nodup : engine.unanswered.Nodup
  requests : ∀ request ∈ engine.requests, asked request.resultTx request.op ∧
    unsent request.resultTx
  idle : engine.serving = none → engine.cursor = count + 1
  serving : ∀ index phase, engine.serving = some (index, phase) → ∃ request, asked index request ∧
    PhaseTells Holds Value landed heard count index request engine.cursor phase
  appends : ∀ index entry, engine.serving = some (index, .append entry) → awaited = none →
    unsent index

/-- The value of the entry that a request has appended, once the store holds it. -/
def ToldAt (Value : List Entry → Entry → ReturnValue → Prop) (landed : Nat → Entry → Nat → Prop)
    (heard : List Entry) (count index : Nat) (entry : Entry) (rv : ReturnValue) : Prop :=
  ∃ slot, landed index entry (slot + 1) ∧ slot < count ∧ Given Value heard slot rv

/-- What a step of the loop leaves, without its log. -/
structure LocallyTurned (Holds : List Entry → StoreData → Prop)
    (Value : List Entry → Entry → ReturnValue → Prop) (asked : Nat → EngineOp → Prop)
    (landed : Nat → Entry → Nat → Prop) (unsent : Nat → Prop) (heard : List Entry) (count : Nat)
    (turn : LocalTurn Memory) (count' : Nat) : Prop where
  stored : Stored Holds heard count' turn.store.data
  tells : LoopTells Holds Value asked landed unsent heard count' none turn.engine
  advanced : count ≤ count'
  replied : ∀ index rv, turn.reply = some (index, .ok (.returned rv)) →
    ∃ entry, asked index (.propose entry) ∧ ToldAt Value landed heard count' index entry rv

section Loop

variable {asked : Nat → EngineOp → Prop} {landed landed' : Nat → Entry → Nat → Prop}
  {unsent unsent' : Nat → Prop} {awaited : Option Nat} {engine : BaseEngine Memory}
  {index cursor : Nat} {request : EngineOp} {handler : Handler} {store : MemoryStore}

theorem HandlerTells.rehear {op : LogletOp} {result : LogletResult}
    (tells : HandlerTells Value landed heard index request (count + 1) handler)
    (rehears : Rehears op result count heard heard') :
    HandlerTells Value landed heard' index request (count + 1) handler := by
  cases handler with
  | propose targetPos rv =>
      obtain ⟨slot, entry, asks, rfl, placed, given⟩ := tells
      exact ⟨slot, entry, asks, rfl, placed,
        fun past => (given past).retake rehears.kept (Nat.lt_of_succ_lt_succ past)⟩
  | sync tail => trivial

theorem HandlerTells.imp (tells : HandlerTells Value landed heard index request cursor handler)
    (still : ∀ entry pos, landed index entry pos → landed' index entry pos) :
    HandlerTells Value landed' heard index request cursor handler := by
  cases handler with
  | propose targetPos rv =>
      obtain ⟨slot, entry, asks, target, placed, given⟩ := tells
      exact ⟨slot, entry, asks, target, still entry targetPos placed, given⟩
  | sync tail => trivial

theorem HandlerTells.applied
    (tells : HandlerTells Value landed heard index request (slot + 1) handler)
    (given : Given Value heard slot rv) :
    HandlerTells Value landed heard index request (slot + 2) (handler.applied (slot + 1) rv) := by
  cases handler with
  | propose targetPos targetReturn =>
      obtain ⟨target, entry, asks, rfl, placed, known⟩ := tells
      refine ⟨target, entry, asks, rfl, placed, fun past => ?_⟩
      by_cases here : slot = target
      · subst here
        rw [if_pos rfl]
        exact given
      · rw [if_neg (by omega)]
        exact known (by omega)
  | sync tail => trivial

theorem HandlerTells.told (asks : asked index request)
    (tells : HandlerTells Value landed heard index request (count + 1) handler)
    (done : handler.continues (count + 1) = false) (told : handler.result = .ok (.returned rv)) :
    ∃ entry, asked index (.propose entry) ∧ ToldAt Value landed heard count index entry rv := by
  cases handler with
  | propose targetPos targetReturn =>
      obtain ⟨slot, entry, rfl, rfl, placed, given⟩ := tells
      have past : ¬ count + 1 ≤ slot + 1 := of_decide_eq_false done
      cases told
      exact ⟨entry, asks, slot, placed, by omega, given (by omega)⟩
  | sync tail => cases told

theorem PhaseTells.imp {phase : Phase}
    (tells : PhaseTells Holds Value landed heard count index request cursor phase)
    (still : ∀ entry pos, landed index entry pos → landed' index entry pos) :
    PhaseTells Holds Value landed' heard count index request cursor phase := by
  cases phase with
  | append | checkTail => exact tells
  | play | read | staged | committed => exact ⟨tells.1.imp still, tells.2⟩

/-- What is known of the calls grows, and a waiting request stays unsent. -/
theorem LoopTells.imp {asked' : Nat → EngineOp → Prop} {awaited' : Option Nat}
    (tells : LoopTells Holds Value asked landed unsent heard count awaited engine)
    (asks : ∀ index request, asked index request → asked' index request)
    (lands : ∀ index entry pos, landed index entry pos → landed' index entry pos)
    (waits : ∀ request ∈ engine.requests, unsent request.resultTx → unsent' request.resultTx)
    (appends : ∀ index entry, engine.serving = some (index, .append entry) → awaited' = none →
      unsent' index) :
    LoopTells Holds Value asked' landed' unsent' heard count awaited' engine where
  nodup := tells.nodup
  requests request queued := by
    obtain ⟨asked, waiting⟩ := tells.requests request queued
    exact ⟨asks _ _ asked, waits request queued waiting⟩
  idle := tells.idle
  serving index phase current := by
    obtain ⟨request, asked, holds⟩ := tells.serving index phase current
    exact ⟨request, asks _ _ asked, holds.imp (lands index)⟩
  appends := appends

theorem LoopTells.asked_of_mem
    (tells : LoopTells Holds Value asked landed unsent heard count awaited engine)
    (member : index ∈ engine.unanswered) : ∃ request, asked index request := by
  cases serving : engine.serving with
  | none =>
      rw [unanswered_idle serving] at member
      obtain ⟨request, waits, rfl⟩ := List.mem_map.mp member
      exact ⟨_, (tells.requests request waits).1⟩
  | some current =>
      rw [unanswered_serving serving] at member
      rcases List.mem_cons.mp member with rfl | queued
      · obtain ⟨request, asks, -⟩ := tells.serving _ _ serving
        exact ⟨request, asks⟩
      · obtain ⟨request, waits, rfl⟩ := List.mem_map.mp queued
        exact ⟨_, (tells.requests request waits).1⟩

theorem LoopTells.enqueue
    (tells : LoopTells Holds Value asked landed unsent heard count awaited engine)
    (fresh : index ∉ engine.unanswered) (asks : asked index request) (waits : unsent index) :
    LoopTells Holds Value asked landed unsent heard count awaited
      { engine with requests := engine.requests ++ [⟨request, index⟩] } where
  nodup := by
    rw [unanswered_enqueue]
    refine List.nodup_append.mpr ⟨tells.nodup, List.nodup_singleton _, ?_⟩
    intro other member last single same
    rw [same, List.mem_singleton.mp single] at member
    exact fresh member
  requests other member := by
    rcases List.mem_append.mp member with earlier | last
    · exact tells.requests other earlier
    · rw [List.mem_singleton.mp last]
      exact ⟨asks, waits⟩
  idle := tells.idle
  serving := tells.serving
  appends := tells.appends

/-- The loop stays with the request it serves. -/
theorem LoopTells.goOn {phase phase' : Phase} {cursor' count' : Nat} {memory : Memory}
    (tells : LoopTells Holds Value asked landed unsent heard count awaited engine)
    (serving : engine.serving = some (index, phase)) (asks : asked index request)
    (other : ∀ entry, phase' ≠ .append entry)
    (next : PhaseTells Holds Value landed heard' count' index request cursor' phase') :
    LoopTells Holds Value asked landed unsent heard' count' none
      { engine with cursor := cursor', serving := some (index, phase'), memory := memory } where
  nodup := by
    have nodup := tells.nodup
    rw [unanswered_serving serving] at nodup
    exact nodup
  requests := tells.requests
  idle impossible := by cases impossible
  serving other phase same := by
    cases same
    exact ⟨request, asks, next⟩
  appends _ entry same := by
    cases same
    exact absurd rfl (other entry)

/-- The loop is done with the request it served. -/
theorem LoopTells.answered {phase : Phase} {memory : Memory}
    (tells : LoopTells Holds Value asked landed unsent heard count awaited engine)
    (serving : engine.serving = some (index, phase)) (cursor : engine.cursor = count + 1) :
    LoopTells Holds Value asked landed unsent heard count none
      { engine with serving := none, memory := memory } where
  nodup := by
    have nodup := tells.nodup
    rw [unanswered_serving serving] at nodup
    exact (List.nodup_cons.mp nodup).2
  requests := tells.requests
  idle _ := cursor
  serving _ _ impossible := by cases impossible
  appends _ _ impossible := by cases impossible

/-- A step of the loop's own. -/
theorem localTurn_tells (gives : applicator.Gives Holds Value)
    (stored : Stored Holds heard count store.data)
    (tells : LoopTells Holds Value asked landed unsent heard count awaited engine)
    (resting : engine.logCall = none) {choice : Choice} {turn : LocalTurn Memory}
    (moved : engine.localTurn applicator choice store = some turn) :
    ∃ count', LocallyTurned Holds Value asked landed unsent heard count turn count' := by
  unfold BaseEngine.localTurn at moved
  split at moved
  · rename_i idle
    split at moved
    · cases moved
    · rename_i request requests queued
      cases moved
      have cursor := tells.idle idle
      obtain ⟨asks, waits⟩ := tells.requests request (queued ▸ List.mem_cons_self)
      have nodup := tells.nodup
      rw [unanswered_idle idle, queued, List.map_cons] at nodup
      refine ⟨count, stored, ⟨nodup, fun other member => ?_, fun impossible => ?_,
        fun other phase begun => ?_, fun other entry begun _ => ?_⟩, Nat.le_refl _,
        fun _ _ impossible => ?_⟩
      · exact tells.requests other (queued ▸ List.mem_cons_of_mem _ member)
      · cases impossible
      · cases begun
        refine ⟨request.op, asks, ?_⟩
        cases op : request.op with
        | propose entry => exact ⟨rfl, cursor⟩
        | sync => exact cursor
      · obtain ⟨same, -⟩ := Prod.mk.inj (Option.some.inj begun)
        exact same ▸ waits
      · cases impossible
  · rename_i index handler serving
    cases moved
    obtain ⟨request, asks, handles, cursor⟩ := tells.serving _ _ serving
    rw [logCall_serving serving] at resting
    have done : handler.continues engine.cursor = false := by
      cases continues : handler.continues engine.cursor with
      | false => rfl
      | true => simp [Phase.logCall, continues] at resting
    rw [cursor] at handles done
    exact ⟨count, stored, tells.answered serving cursor, Nat.le_refl _, fun other rv same => by
      obtain ⟨rfl, told⟩ := Prod.mk.inj (Option.some.inj same)
      exact handles.told asks done told⟩
  · rename_i index handler entry serving
    obtain ⟨request, asks, handles, cursor, found⟩ := tells.serving _ _ serving
    split at moved
    · rename_i memory txn rv ran
      cases moved
      rw [cursor] at ran
      obtain ⟨staged, given⟩ := stored.stage gives found ran
      refine ⟨count, stored, tells.goOn serving asks (fun _ impossible => by cases impossible)
        ⟨handles, cursor, ?_, given⟩, Nat.le_refl _, fun _ _ impossible => by cases impossible⟩
      dsimp only
      rw [cursor]
      exact staged
    · cases moved
      exact ⟨count, stored, tells.answered serving cursor, Nat.le_refl _,
        fun _ _ impossible => by cases impossible⟩
  · rename_i index handler txn rv serving
    obtain ⟨request, asks, handles, cursor, staged, given⟩ := tells.serving _ _ serving
    cases moved
    refine ⟨engine.cursor, staged, tells.goOn serving asks (fun _ impossible => by cases impossible)
      ⟨handles, rfl, count, cursor, given⟩, by omega, fun _ _ impossible => by cases impossible⟩
  · rename_i index handler rv serving
    obtain ⟨request, asks, handles, cursor, slot, past, given⟩ := tells.serving _ _ serving
    cases moved
    rw [past] at handles
    refine ⟨count, stored, tells.goOn serving asks (fun _ impossible => by cases impossible)
      ⟨?_, ?_⟩, Nat.le_refl _, fun _ _ impossible => by cases impossible⟩
    · dsimp only
      rw [past]
      exact handles.applied given
    · dsimp only
      rw [cursor]
  · cases moved
  · cases moved

/-- What the loop makes of an answer of its log: an entry that it has read joins those that it
has heard of, and the position of an append lies beyond all of them. -/
theorem resume_tells (stored : Stored Holds heard count store.data)
    (tells : LoopTells Holds Value asked landed unsent heard count awaited engine) {op : LogletOp}
    {result : LogletResult} {turn : LocalTurn Memory} (asking : engine.logCall = some (index, op))
    (appended : ∀ entry pos, op = .append entry → result = .ok (.pos pos) →
      ∃ slot, pos = slot + 1 ∧ landed index entry pos ∧ count ≤ slot)
    (moved : engine.resume store result = some turn) :
    ∃ heard', Rehears op result count heard heard' ∧
      LocallyTurned Holds Value asked landed unsent heard' count turn count := by
  have same : Rehears op result count heard heard :=
    ⟨stored.applied.inside, rfl, fun _ _ found => Or.inl found⟩
  have failed : ∀ {phase : Phase} {error : RelosError}, engine.serving = some (index, phase) →
      engine.cursor = count + 1 →
      ∃ heard', Rehears op result count heard heard' ∧ LocallyTurned Holds Value asked landed unsent
        heard' count (.answer store engine index (.error error)) count := fun serving cursor =>
    ⟨heard, same, stored, tells.answered serving cursor, Nat.le_refl _,
      fun _ _ impossible => by cases impossible⟩
  unfold BaseEngine.resume at moved
  split at moved
  · rename_i resultTx entry serving
    rw [logCall_serving serving] at asking
    cases asking
    obtain ⟨request, asks, rfl, cursor⟩ := tells.serving _ _ serving
    split at moved
    · cases moved
      obtain ⟨slot, rfl, landed, beyond⟩ := appended entry _ rfl rfl
      refine ⟨heard, same, stored, tells.goOn serving asks (fun _ impossible => by cases impossible)
        ⟨⟨slot, entry, rfl, rfl, landed, fun past => ?_⟩, cursor⟩, Nat.le_refl _,
        fun _ _ impossible => by cases impossible⟩
      omega
    · cases moved
    · cases moved
      exact failed serving cursor
  · rename_i resultTx serving
    rw [logCall_serving serving] at asking
    cases asking
    obtain ⟨request, asks, cursor⟩ := tells.serving _ _ serving
    split at moved
    · cases moved
      exact ⟨heard, same, stored, tells.goOn serving asks (fun _ impossible => by cases impossible)
        ⟨trivial, cursor⟩, Nat.le_refl _, fun _ _ impossible => by cases impossible⟩
    · cases moved
    · cases moved
      exact failed serving cursor
  · rename_i resultTx handler serving
    obtain ⟨request, asks, handles, cursor⟩ := tells.serving _ _ serving
    rw [logCall_serving serving] at asking
    obtain ⟨asked', called, equal⟩ := Option.map_eq_some_iff.mp asking
    cases equal
    have reads : op = .read (count + 1) := by
      unfold Phase.logCall at called
      rw [cursor] at called
      dsimp only at called
      split at called
      · exact (Option.some.inj called).symm
      · cases called
    split at moved
    · rename_i entry
      cases moved
      have length : (heard.take count).length = count := by
        rw [List.length_take]
        exact Nat.min_eq_left stored.applied.inside
      have rehears : Rehears op (.ok (.entry (some entry))) count heard
          (heard.take count ++ [entry]) := by
        refine ⟨?_, ?_, fun slot found held => ?_⟩
        · rw [List.length_append, length]
          exact Nat.le_add_right _ _
        · exact List.take_left' length
        · rcases getElem?_of_concat held with before | ⟨last, rfl⟩
          · exact Or.inl (getElem?_of_longer (List.take_prefix _ _) before)
          · exact Or.inr ⟨last.trans length, reads, rfl⟩
      rw [cursor] at handles
      refine ⟨_, rehears, stored.rehear rehears, tells.goOn serving asks
        (fun _ impossible => by cases impossible) ⟨?_, cursor, ?_⟩, Nat.le_refl _,
        fun _ _ impossible => by cases impossible⟩
      · rw [cursor]
        exact handles.rehear rehears
      · have last : (heard.take count ++ [entry])[(heard.take count).length]? = some entry :=
          List.getElem?_concat_length
        rw [length] at last
        exact last
    · cases moved
      exact failed serving cursor
    · cases moved
    · cases moved
      exact failed serving cursor
  · cases moved

end Loop

end Relos
