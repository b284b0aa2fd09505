import Relos.Log.Loglet
import Mathlib.Logic.Function.Basic

set_option autoImplicit false

/-! The replicated loglet: a sequencer that assigns positions and log servers
that store entries. Every send and every awaited reply is a scheduling point;
a channel takes any number of requests, so a full channel is a send that has
not been scheduled yet. -/

namespace Relos

open Async

/-! ### Sequencer -/

inductive SequencerRequest where
  | nextPos
  | seal
  | checkTail
deriving DecidableEq

inductive ReadResult where
  | entry (entry : Entry)
  | trimmed
  | notFound
deriving DecidableEq

/-- What a oneshot channel can carry. -/
inductive Reply where
  | position (pos : Option Nat)
  | tail (tail : Nat)
  | stored (result : Except Nat Bool)
  | read (result : ReadResult)
  | unit
deriving DecidableEq

structure Sequencer where
  nextPos : Nat
  sealed : Bool
deriving DecidableEq

namespace Sequencer

def spawn : Sequencer := { nextPos := logPosBegin, sealed := false }

def handle (sequencer : Sequencer) : SequencerRequest → Sequencer × Reply
  | .nextPos =>
      if sequencer.sealed then (sequencer, .position none)
      else ({ sequencer with nextPos := sequencer.nextPos + 1 }, .position (some sequencer.nextPos))
  | .seal => ({ sequencer with sealed := true }, .tail sequencer.nextPos)
  | .checkTail => (sequencer, .tail sequencer.nextPos)

end Sequencer

/-! ### Log servers -/

inductive LogServerRequest where
  | store (pos : Nat) (entry : Entry)
  | read (pos : Nat)
  | seal
  | trim (pos : Nat)
deriving DecidableEq

/-- `alive` says that the request channel of the server is open. -/
structure LogServer where
  entries : Std.ExtTreeMap Nat Entry
  sealed : Bool
  trimPos : Nat
  tail : Nat
  alive : Bool
deriving DecidableEq

namespace LogServer

def spawn : LogServer :=
  { entries := ∅, sealed := false, trimPos := logPosBegin, tail := logPosBegin, alive := true }

def store (server : LogServer) (pos : Nat) (entry : Entry) : LogServer × Except Nat Bool :=
  if server.sealed then (server, .error server.tail)
  else if server.entries.contains pos then (server, .ok false)
  else
    ({ server with
        entries := server.entries.insert pos entry
        tail := if server.tail ≤ pos then pos + 1 else server.tail }, .ok true)

def read (server : LogServer) (pos : Nat) : ReadResult :=
  if pos < server.trimPos then .trimmed
  else
    match server.entries[pos]? with
    | some entry => .entry entry
    | none => .notFound

def trim (server : LogServer) (pos : Nat) : LogServer :=
  if server.trimPos < pos then
    { server with
      trimPos := pos
      entries := server.entries.filter fun stored _ => decide (pos ≤ stored) }
  else server

def handle (server : LogServer) : LogServerRequest → LogServer × Reply
  | .store pos entry =>
      let (next, result) := server.store pos entry
      (next, .stored result)
  | .read pos => (server, .read (server.read pos))
  | .seal => ({ server with sealed := true }, .tail server.tail)
  | .trim pos => (server.trim pos, .unit)

end LogServer

/-! ### Channels -/

inductive Task (n : Nat) where
  | sequencer
  | logServer (server : Fin n)
deriving DecidableEq

inductive Request (n : Nat) where
  | sequencer (request : SequencerRequest)
  | logServer (server : Fin n) (request : LogServerRequest)
deriving DecidableEq

def Request.task {n : Nat} : Request n → Task n
  | .sequencer _ => .sequencer
  | .logServer server _ => .logServer server

/-- A oneshot channel, seen from its receiver. -/
inductive Receipt where
  | pending
  | sent (reply : Reply)
  | dropped
deriving DecidableEq

/-- A request with its reply channel. The sender is read by statements only. -/
structure Message (n : Nat) where
  sender : Nat × LogletOp
  request : Request n
  receipt : Receipt
deriving DecidableEq

def Message.isQueued {n : Nat} (task : Task n) (message : Message n) : Bool :=
  decide (message.receipt = .pending) && decide (message.request.task = task)

/-- All requests in the order they were sent. A receiver is an index into
`messages`; the queue of a task is what is still pending there. -/
structure NativeLoglet (n : Nat) where
  sequencer : Sequencer
  logServers : Fin n → LogServer
  sealed : Bool
  messages : List (Message n)

def quorumSize (n : Nat) : Nat := n / 2 + 1

namespace NativeLoglet

variable {n : Nat}

def new (n : Nat) : NativeLoglet n where
  sequencer := .spawn
  logServers _ := .spawn
  sealed := false
  messages := []

def send (state : NativeLoglet n) (index : Nat) (op : LogletOp) (request : Request n) :
    NativeLoglet n :=
  { state with messages := state.messages ++ [⟨(index, op), request, .pending⟩] }

/-- The receiver of the next request that is sent. -/
def receiver (state : NativeLoglet n) : Nat := state.messages.length

def receive (state : NativeLoglet n) (receiver : Nat) : Receipt :=
  (state.messages[receiver]?.map Message.receipt).getD .pending

def answer (state : NativeLoglet n) (receiver : Nat) (reply : Reply) : NativeLoglet n :=
  { state with
    messages := state.messages.modify receiver fun message =>
      { message with receipt := .sent reply } }

/-- One turn of the loop of a task, on the request that it receives. -/
def handle (state : NativeLoglet n) (receiver : Nat) : Request n → NativeLoglet n
  | .sequencer request =>
      let (sequencer, reply) := state.sequencer.handle request
      { state with sequencer := sequencer }.answer receiver reply
  | .logServer server request =>
      let (next, reply) := (state.logServers server).handle request
      { state with logServers := Function.update state.logServers server next }.answer receiver reply

def serve (state : NativeLoglet n) (task : Task n) : Option (NativeLoglet n) :=
  (state.messages.findIdx? fun message => message.isQueued task).bind fun receiver =>
    state.messages[receiver]?.map fun message => state.handle receiver message.request

/-- The task of a log server ends: its queue is dropped and its channel closes. -/
def stop (state : NativeLoglet n) (server : Fin n) : NativeLoglet n :=
  { state with
    logServers := Function.update state.logServers server
      { state.logServers server with alive := false }
    messages := state.messages.map fun message =>
      if message.isQueued (.logServer server) then { message with receipt := .dropped }
      else message }

/-! ### Futures -/

inductive Future where
  | append
  | nextPos
  | nextPosReply (receiver : Nat)
  | markSealed
  | checkTail
  | checkTailReply (receiver : Nat)
  | fanOutStore (pos : Nat) (receivers : List Nat)
  | storeReplies (pos : Nat) (receivers : List Nat) (ackCount : Nat) (sealTail : Option Nat)
  | read (pos server : Nat)
  | readReply (pos server receiver : Nat)
  | fanOutTrim (pos : Nat) (receivers : List Nat)
  | trimReplies (receivers : List Nat)
  | sealSequencer
  | sealSequencerReply (receiver : Nat)
  | fanOutSeal (sequencerTail : Nat) (receivers : List Nat)
  | sealReplies (sequencerTail : Nat) (receivers : List Nat) (sealedCount maxTail : Nat)
deriving DecidableEq

def begin : LogletOp → Future
  | .append _ => .append
  | .checkTail => .checkTail
  | .read pos => .read pos 0
  | .trim pos => .fanOutTrim pos []
  | .seal => .sealSequencer

abbrev Poll (n : Nat) : Type := Option (NativeLoglet n × Progress Future LogletResult)

def suspend (state : NativeLoglet n) (future : Future) : Poll n := some (state, .running future)

def finish (state : NativeLoglet n) (result : LogletResult) : Poll n :=
  some (state, .finished result)

def sequencerReplyDropped : LogletResult := .error (.internal "sequencer reply dropped")

def logServerTaskGone : LogletResult := .error (.internal "log server task gone")

def logServerReplyDropped : LogletResult := .error (.internal "log server reply dropped")

/-- `tx.send` to one log server. -/
def sendTo (state : NativeLoglet n) (index : Nat) (op : LogletOp) (server : Fin n)
    (request : LogServerRequest) (next : Nat → Future) : Poll n :=
  if (state.logServers server).alive then
    suspend (state.send index op (.logServer server request)) (next state.receiver)
  else finish state logServerTaskGone

/-- The loop shared by the three fan-outs: the next server is the first one that
has no receiver yet. -/
def fanOut (state : NativeLoglet n) (index : Nat) (op : LogletOp) (request : LogServerRequest)
    (receivers : List Nat) (more : List Nat → Future) (sentAll : Future) : Poll n :=
  if inside : receivers.length < n then
    sendTo state index op ⟨receivers.length, inside⟩ request fun receiver =>
      more (receivers ++ [receiver])
  else suspend state sentAll

def fanOutStore (state : NativeLoglet n) (index : Nat) (op : LogletOp) (pos : Nat) (entry : Entry)
    (receivers : List Nat) : Poll n :=
  fanOut state index op (.store pos entry) receivers (.fanOutStore pos)
    (.storeReplies pos receivers 0 none)

def fanOutSeal (state : NativeLoglet n) (index : Nat) (op : LogletOp) (sequencerTail : Nat)
    (receivers : List Nat) : Poll n :=
  fanOut state index op .seal receivers (.fanOutSeal sequencerTail)
    (.sealReplies sequencerTail receivers 0 logPosBegin)

def fanOutTrim (state : NativeLoglet n) (index : Nat) (op : LogletOp) (pos : Nat)
    (receivers : List Nat) : Poll n :=
  fanOut state index op (.trim pos) receivers (.fanOutTrim pos) (.trimReplies receivers)

/-- `append` queries the tail only to report that the loglet is sealed. -/
def tailResult (tail : Nat) : LogletOp → LogletResult
  | .append _ => .error (.sealed tail)
  | _ => .ok (.pos tail)

/-- The end of `append`, once every reply is in. -/
def acknowledge (state : NativeLoglet n) (pos ackCount : Nat) (sealTail : Option Nat) : Poll n :=
  if quorumSize n ≤ ackCount then finish state (.ok (.pos pos))
  else
    match sealTail with
    | some tail => finish { state with sealed := true } (.error (.sealed tail))
    | none => finish state (.error (.internal "failed to reach quorum for append"))

def poll (state : NativeLoglet n) (index : Nat) (op : LogletOp) : Future → Poll n
  | .append => if state.sealed then suspend state .checkTail else suspend state .nextPos
  | .nextPos =>
      suspend (state.send index op (.sequencer .nextPos)) (.nextPosReply state.receiver)
  | .nextPosReply receiver =>
      match state.receive receiver with
      | .sent (.position (some pos)) => suspend state (.fanOutStore pos [])
      | .sent (.position none) => suspend state .markSealed
      | .dropped => finish state sequencerReplyDropped
      | _ => none
  | .markSealed => suspend { state with sealed := true } .checkTail
  | .checkTail =>
      suspend (state.send index op (.sequencer .checkTail)) (.checkTailReply state.receiver)
  | .checkTailReply receiver =>
      match state.receive receiver with
      | .sent (.tail tail) => finish state (tailResult tail op)
      | .dropped => finish state sequencerReplyDropped
      | _ => none
  | .fanOutStore pos receivers =>
      match op with
      | .append entry => state.fanOutStore index op pos entry receivers
      | _ => none
  | .storeReplies pos [] ackCount sealTail => state.acknowledge pos ackCount sealTail
  | .storeReplies pos (receiver :: receivers) ackCount sealTail =>
      match state.receive receiver with
      -- an occupied position counts as durable
      | .sent (.stored (.ok _)) => suspend state (.storeReplies pos receivers (ackCount + 1) sealTail)
      | .sent (.stored (.error tail)) =>
          suspend state (.storeReplies pos receivers ackCount (some tail))
      | .dropped => suspend state (.storeReplies pos receivers ackCount sealTail)
      | _ => none
  | .read pos server =>
      if inside : server < n then
        sendTo state index op ⟨server, inside⟩ (.read pos) (.readReply pos server)
      else finish state (.ok (.entry none))
  | .readReply pos server receiver =>
      match state.receive receiver with
      | .sent (.read (.entry entry)) => finish state (.ok (.entry (some entry)))
      | .sent (.read .trimmed) => finish state (.error (.trimmed pos))
      | .sent (.read .notFound) => suspend state (.read pos (server + 1))
      | .dropped => finish state logServerReplyDropped
      | _ => none
  | .fanOutTrim pos receivers => state.fanOutTrim index op pos receivers
  | .trimReplies [] => finish state (.ok .unit)
  | .trimReplies (receiver :: receivers) =>
      match state.receive receiver with
      | .sent .unit => suspend state (.trimReplies receivers)
      | .dropped => finish state logServerReplyDropped
      | _ => none
  | .sealSequencer =>
      suspend (state.send index op (.sequencer .seal)) (.sealSequencerReply state.receiver)
  | .sealSequencerReply receiver =>
      match state.receive receiver with
      | .sent (.tail tail) => suspend state (.fanOutSeal tail [])
      | .dropped => finish state sequencerReplyDropped
      | _ => none
  | .fanOutSeal sequencerTail receivers => state.fanOutSeal index op sequencerTail receivers
  | .sealReplies sequencerTail [] sealedCount maxTail =>
      if sealedCount < quorumSize n then
        finish state (.error (.internal "failed to reach quorum for seal"))
      else
        finish { state with sealed := true } (.ok (.pos (max sequencerTail maxTail)))
  | .sealReplies sequencerTail (receiver :: receivers) sealedCount maxTail =>
      match state.receive receiver with
      | .sent (.tail tail) =>
          suspend state (.sealReplies sequencerTail receivers (sealedCount + 1)
            (if maxTail < tail then tail else maxTail))
      | .dropped => suspend state (.sealReplies sequencerTail receivers sealedCount maxTail)
      | _ => none

inductive Event (n : Nat) where
  | serve (task : Task n)
  | stop (server : Fin n)
deriving DecidableEq

end NativeLoglet

def nativeComponent (n : Nat) :
    LogletComponent (NativeLoglet n) NativeLoglet.Future (NativeLoglet.Event n) where
  begin := NativeLoglet.begin
  poll := NativeLoglet.poll
  background
    | state, .serve task => state.serve task
    | state, .stop server => some (state.stop server)

end Relos
