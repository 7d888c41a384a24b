import Anybus.Linkstate.Lsa
import Anybus.Peers.Heartbeat

/-!
# An IPC session

A session is a task that runs through states, one after the other. A state that waits
several times is split where it waits, so that between two waits a task is in exactly
one state; what it waited for comes back as an input, and what it has done meanwhile is
listed as effects.
-/

namespace Anybus

/-- What the manager tells a session. -/
inductive IpcControl where
  | accepted
  | shutdown
  | resume
  deriving DecidableEq, Repr

/-- What crosses the stream. -/
inductive IpcMessage where
  | hello (nodeId : NodeId)
  | knownPeers (ids : List NodeId)
  | neighborRemoved (nodeId : NodeId)
  | closeConnection
  | nodeMsg (message : NodeMessage)
  | ping (token : PingToken)
  | pong (token : PingToken)
  deriving DecidableEq

/-- What a session tells the manager; `τ` names the control channels of the sessions. -/
inductive IpcCommand (τ : Type) where
  | peerClosed (peerId : NodeId) (connectionId : ConnectionId)
  | learnedPeers (ids : List NodeId)
  | sessionReady (peerId : NodeId) (control : τ) (connectionId : ConnectionId)
  | handshakeFailed (expected : Option NodeId)
  deriving DecidableEq

/-- Where a session is. -/
inductive IpcState where
  | hello
  /-- In `Hello`: our id is sent, the peer's is awaited. -/
  | helloSent
  /-- In `Hello`: registered with the router, the manager is not told yet. -/
  | helloReceived (peerId : NodeId) (connectionId : ConnectionId)
  /-- In `Hello`: the manager is told, its answer is awaited. -/
  | awaitAccepted
  | abortHandshake
  /-- In `AbortHandshake`: the stream is closed, the manager is not told yet. -/
  | handshakeAborted
  | sendPeers
  | waitForMessages
  | heartbeatTick
  | sendPing
  | handleError
  | nodeMessageReceived (message : NodeMessage)
  | ipcControlReceived (message : IpcControl)
  | ipcMessageReceived (message : IpcMessage)
  | closePeer
  /-- In `ClosePeer`: the stream is closed, the manager is not told yet. -/
  | streamClosed
  | shutdown
  | ended
  /-- An `expect` has failed. -/
  | panicked
  deriving DecidableEq

/-- What a session waited for. -/
inductive IpcInput where
  /-- A write to the stream is over. -/
  | wrote (ok : Bool)
  /-- A command is handed to the manager, or the manager is gone. -/
  | told (ok : Bool)
  /-- A read is over: `none` at the end of the stream, `some none` for an error. -/
  | read (message : Option (Option IpcMessage))
  | control (message : Option IpcControl)
  | node (message : Option NodeMessage)
  /-- The time is up. -/
  | elapsed
  /-- The state waits for nothing. -/
  | proceed
  deriving DecidableEq

/-- What a session has done, with the outcome where it can fail. -/
inductive IpcEffect (τ : Type) where
  | send (message : IpcMessage) (ok : Bool)
  | close
  | command (command : IpcCommand τ) (ok : Bool)
  | registerPeer (peerId : NodeId) (connectionId : ConnectionId) (cost : Cost) (realms : RealmList)
  | unregister (connectionId : ConnectionId)
  | handleNodeMessage (message : NodeMessage)
  deriving DecidableEq

/-- What a session reads besides its input: the clock, the next number of the connection
counter, and the ids of the manager's peer list. -/
structure IpcContext where
  now : Instant
  connectionId : ConnectionId
  neighbors : List NodeId

/-- The part of `Peer` a session keeps. -/
structure RegisteredPeer where
  peerId : NodeId
  connectionId : ConnectionId
  deriving DecidableEq

/-- A session; `control` is the sending half of its own control channel. -/
structure IpcPeer (τ : Type) where
  state : IpcState
  control : τ
  peer : Option RegisteredPeer
  hb : Heartbeat
  expected : Option NodeId
  ourNodeid : NodeId
  established : Bool
  deriving DecidableEq

namespace IpcPeer

variable {τ : Type}

/-- A fresh session over a new stream. -/
def new (control : τ) (expected : Option NodeId) (ourNodeid : NodeId) (now : Instant)
    (interval timeout : Duration) : IpcPeer τ where
  state := .hello
  control := control
  peer := none
  hb := .new now interval timeout
  expected := expected
  ourNodeid := ourNodeid
  established := false

def peerId (peer : IpcPeer τ) : Option NodeId :=
  (peer.peer.map RegisteredPeer.peerId).or peer.expected

def goto (peer : IpcPeer τ) (state : IpcState) : IpcPeer τ := { peer with state := state }

/-- The peer has said who it is. A dialled peer must be the one that was dialled. -/
def onHello (peer : IpcPeer τ) (ctx : IpcContext) (peerId : NodeId) :
    IpcPeer τ × List (IpcEffect τ) :=
  if peer.expected.isSome ∧ peer.expected ≠ some peerId then (peer.goto .abortHandshake, [])
  else
    ({ peer with
        state := .helloReceived peerId ctx.connectionId
        peer := some ⟨peerId, ctx.connectionId⟩ },
      [.registerPeer peerId ctx.connectionId ⟨10, by decide⟩ {.userspace, .global}])

/-- The ids sent to a new peer. -/
def knownPeers (peer : IpcPeer τ) (ctx : IpcContext) (peerId : NodeId) : List NodeId :=
  ctx.neighbors.filter (· ≠ peerId) ++ [peer.ourNodeid]

/-- After a write: go on, or report the error. -/
def afterWrite (peer : IpcPeer τ) (message : IpcMessage) (ok : Bool) :
    IpcPeer τ × List (IpcEffect τ) :=
  (peer.goto (if ok then .waitForMessages else .handleError), [.send message ok])

/-- The last words of an established session. -/
def reportClosed (peer : IpcPeer τ) (ok : Bool) : IpcPeer τ × List (IpcEffect τ) :=
  match peer.peerId, peer.peer with
  | some peerId, some registered =>
    (peer.goto .ended,
      [.command (.peerClosed peerId registered.connectionId) ok, .unregister registered.connectionId])
  | some _, none => (peer.goto .panicked, [])
  | none, _ => (peer.goto .ended, [])

/-- One step of a session, if its state waits for this input. -/
def next (peer : IpcPeer τ) (ctx : IpcContext) (input : IpcInput) :
    Option (IpcPeer τ × List (IpcEffect τ)) :=
  match peer.state with
  | .hello =>
    match input with
    | .wrote ok => some (peer.goto (if ok then .helloSent else .abortHandshake),
        [.send (.hello peer.ourNodeid) ok])
    | .elapsed => some (peer.goto .abortHandshake, [])
    | _ => none
  | .helloSent =>
    match input with
    | .read (some (some (.hello peerId))) => some (peer.onHello ctx peerId)
    | .read _ | .elapsed => some (peer.goto .abortHandshake, [])
    | _ => none
  | .helloReceived peerId connectionId =>
    match input with
    | .told ok => some (peer.goto (if ok then .awaitAccepted else .abortHandshake),
        [.command (.sessionReady peerId peer.control connectionId) ok])
    | _ => none
  | .awaitAccepted =>
    match input with
    | .control (some .accepted) =>
      some ({ peer with state := .sendPeers, established := true }, [])
    | .control _ | .elapsed => some (peer.goto .abortHandshake, [])
    | _ => none
  | .abortHandshake =>
    match input with
    | .wrote _ => some (peer.goto .handshakeAborted,
        .close :: (peer.peer.map fun p => .unregister p.connectionId).toList)
    | _ => none
  | .handshakeAborted =>
    match input with
    | .told ok => some (peer.goto .ended, [.command (.handshakeFailed peer.expected) ok])
    | _ => none
  | .sendPeers =>
    match peer.peerId, input with
    | none, _ => some (peer.goto .panicked, [])
    | some peerId, .wrote ok => some (peer.afterWrite (.knownPeers (peer.knownPeers ctx peerId)) ok)
    | some _, _ => none
  | .waitForMessages =>
    if peer.peer = none then some (peer.goto .panicked, [])
    else
      match input with
      | .read (some (some message)) =>
        some ({ peer with state := .ipcMessageReceived message, hb := peer.hb.onRx ctx.now }, [])
      | .read (some none) => some (peer.goto .handleError, [])
      | .read none => some (peer.goto .closePeer, [])
      | .control (some message) => some (peer.goto (.ipcControlReceived message), [])
      | .control none => some (peer.goto .shutdown, [])
      | .node (some message) => some (peer.goto (.nodeMessageReceived message), [])
      | .node none => some (peer.goto .shutdown, [])
      | .elapsed => some (peer.goto .heartbeatTick, [])
      | _ => none
  | .heartbeatTick =>
    match input with
    | .proceed =>
      if peer.hb.timedOut ctx.now then some (peer.goto .closePeer, [])
      else if peer.hb.pingDue ctx.now then some (peer.goto .sendPing, [])
      else some (peer.goto .waitForMessages, [])
    | _ => none
  | .sendPing =>
    match input with
    | .wrote ok =>
      let r := peer.hb.takePingToken ctx.now
      some ({ peer with hb := r.1 }.afterWrite (.ping r.2) ok)
    | _ => none
  | .handleError =>
    match input with
    | .proceed => some (peer.goto (if peer.established then .closePeer else .abortHandshake), [])
    | _ => none
  | .nodeMessageReceived message =>
    match input with
    | .wrote ok => some (peer.afterWrite (.nodeMsg message) ok)
    | _ => none
  | .ipcControlReceived message =>
    match input with
    | .proceed =>
      match message with
      | .shutdown => some (peer.goto .shutdown, [])
      | .accepted => some (peer.goto .waitForMessages, [])
      | .resume => some ({ peer with state := .sendPing, hb := peer.hb.noteResume ctx.now }, [])
    | _ => none
  | .ipcMessageReceived message =>
    match message with
    | .knownPeers ids =>
      match input with
      | .told ok => some (peer.goto .waitForMessages, [.command (.learnedPeers ids) ok])
      | _ => none
    | .ping token =>
      match input with
      | .wrote ok => some (peer.afterWrite (.pong token) ok)
      | _ => none
    | .closeConnection =>
      match input with
      | .proceed => some (peer.goto .closePeer, [])
      | _ => none
    | .nodeMsg message =>
      match input with
      | .proceed => some (peer.goto .waitForMessages,
          (peer.peer.map fun _ => .handleNodeMessage message).toList)
      | _ => none
    | .hello _ | .neighborRemoved _ | .pong _ =>
      match input with
      | .proceed => some (peer.goto .waitForMessages, [])
      | _ => none
  | .closePeer =>
    match input with
    | .wrote _ => some (peer.goto .streamClosed, [.close])
    | _ => none
  | .streamClosed =>
    match input with
    | .told ok =>
      if peer.established then some (peer.reportClosed ok)
      else some (peer.goto .ended, [.command (.handshakeFailed peer.expected) ok])
    | _ => none
  | .shutdown =>
    match input with
    | .wrote ok => some (peer.goto .closePeer, [.send .closeConnection ok])
    | _ => none
  | .ended | .panicked => none

end IpcPeer

end Anybus
