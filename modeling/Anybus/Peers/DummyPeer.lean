import Anybus.Core.Pipe
import Anybus.Peers.Heartbeat
import Anybus.Peers.Peer

/-!
# One end of a dummy link

Two buses of one process can be joined by an in-memory stream. Each end says hello, waits
for the hello of the other, registers it as a peer, and then passes messages on in both
directions until the stream, the router, the heartbeat or the owner of the link ends it. The
owner can also silence an end, which then reads on without ever answering.

A step of an end takes what has become ready and does everything up to the next wait. A write
that has to wait for room in the stream counts as one step with the wait before it.
-/

namespace Anybus

/-- What crosses the stream. -/
inductive DummyMessage where
  | hello (id : NodeId)
  | nodeMsg (message : NodeMessage)
  | ping (token : PingToken)
  | pong (token : PingToken)
  | shutdown
  deriving DecidableEq

/-- How the owner closes an end. -/
inductive DummyPeerStop where
  /-- Say so, and close. -/
  | shutdown
  /-- Stop sending and answering, and leave the stream open. -/
  | silence
  /-- Drop the stream without a word. -/
  | drop
  deriving DecidableEq, Repr

/-- Where the task of an end is. -/
inductive DummyState where
  | start
  /-- Waiting for the hello of the other end. -/
  | handshake
  | connected (peer : Peer) (hb : Heartbeat)
  /-- Silenced, during the handshake or later. -/
  | silent (peer : Option Peer)
  | ended
  deriving DecidableEq

/-- An end with the two directions of its stream. -/
structure DummyEnd where
  ourId : NodeId
  /-- The number that the connection counter gives to the session. -/
  connectionId : ConnectionId
  cost : Cost
  realms : RealmList
  state : DummyState
  /-- Whether the owner may still close the end. -/
  killOpen : Bool
  incoming : Pipe DummyMessage
  outgoing : Pipe DummyMessage
  /-- What the router was told, oldest first. -/
  actions : List PeerAction
  /-- The messages of the router that were written, oldest first. -/
  sent : List NodeMessage
  deriving DecidableEq

/-- What an end wakes up for. -/
inductive DummyEvent where
  /-- The task starts and says hello. -/
  | sendHello
  /-- There was no hello for two seconds. -/
  | handshakeTimeout
  /-- The stream has a frame, or is at its end. -/
  | read (now : Instant)
  /-- The stream has bytes that are no frame. -/
  | readError
  /-- The router has a message for the peer. -/
  | recv (message : NodeMessage)
  /-- The router has dropped the peer. -/
  | recvClosed
  | tick (now : Instant)
  | stop (kind : DummyPeerStop)
  /-- The owner has dropped the means to close the end. -/
  | killDropped
  deriving DecidableEq

namespace DummyEnd

/-- 10 seconds, in milliseconds. -/
def heartbeatInterval : Duration := 10000

/-- 30 seconds, in milliseconds. -/
def heartbeatTimeout : Duration := 30000

/-- The task is over and its half of the stream is dropped. -/
def finish (e : DummyEnd) : DummyEnd :=
  { e with state := .ended, incoming := e.incoming.dropReader, outgoing := e.outgoing.dropWriter }

/-- Unregister the peer and finish. -/
def unregister (e : DummyEnd) (peer : Peer) : DummyEnd :=
  { e with actions := e.actions ++ [peer.unregister] }.finish

/-- Write a frame, and fail if the other end has dropped the stream. -/
def send (e : DummyEnd) (message : DummyMessage) : Option DummyEnd :=
  (e.outgoing.write message).map fun outgoing => { e with outgoing := outgoing }

/-- Write a frame, if it can be written. -/
def sendOk (e : DummyEnd) (message : DummyMessage) : DummyEnd := (e.send message).getD e

/-- The other end has said who it is. -/
def register (e : DummyEnd) (peerId : NodeId) (now : Instant) : DummyEnd :=
  let r := Peer.registerPeer peerId e.ourId e.connectionId e.cost e.realms
  { e with
    state := .connected r.1 (.new now heartbeatInterval heartbeatTimeout)
    actions := e.actions ++ [r.2] }

/-- The first frame has to be the hello. -/
def onHello (e : DummyEnd) (now : Instant) : DummyMessage → DummyEnd
  | .hello id => e.register id now
  | .nodeMsg _ | .ping _ | .pong _ | .shutdown => e.finish

/-- A frame of a connected peer. -/
def onRemote (e : DummyEnd) (peer : Peer) (hb : Heartbeat) (now : Instant) : DummyMessage → DummyEnd
  | .nodeMsg message =>
    let r := peer.handleNodeMessage message
    { e with state := .connected r.1 (hb.onRx now), actions := e.actions ++ [r.2] }
  | .ping token =>
    match e.send (.pong token) with
    | some e => { e with state := .connected peer (hb.onRx now) }
    | none => e.unregister peer
  | .pong _ => { e with state := .connected peer (hb.onRx now) }
  | .hello _ => e
  | .shutdown => e.unregister peer

/-- The heartbeat is due. -/
def onTick (e : DummyEnd) (peer : Peer) (hb : Heartbeat) (now : Instant) : DummyEnd :=
  if hb.timedOut now then e.unregister peer
  else if hb.pingDue now then
    let r := hb.takePingToken now
    match e.send (.ping r.2) with
    | some e => { e with state := .connected peer r.1 }
    | none => e.unregister peer
  else e

/-- The owner closes an end that has registered a peer or has not. -/
def stopLink (e : DummyEnd) (peer : Option Peer) (kind : DummyPeerStop) : DummyEnd :=
  let e := { e with killOpen := false }
  match kind with
  | .shutdown =>
    match peer with
    | some peer => (e.sendOk .shutdown).unregister peer
    | none => (e.sendOk .shutdown).finish
  | .silence => { e with state := .silent peer }
  | .drop =>
    match peer with
    | some peer => e.unregister peer
    | none => e.finish

/-- One step of an end; `none` if the event cannot happen now. -/
def step (e : DummyEnd) (event : DummyEvent) : Option DummyEnd :=
  match e.state, event with
  | .start, .sendHello =>
    match e.send (.hello e.ourId) with
    | some e => some { e with state := .handshake }
    | none => some e.finish
  | .handshake, .handshakeTimeout => some e.finish
  | .handshake, .read now =>
    match e.incoming.read with
    | some (.frame message, incoming) => some ({ e with incoming := incoming }.onHello now message)
    | some (.eof, _) => some e.finish
    | none => none
  | .handshake, .readError => some e.finish
  | .handshake, .stop kind => if e.killOpen then some (e.stopLink none kind) else none
  | .handshake, .killDropped => if e.killOpen then some { e with killOpen := false } else none
  | .connected peer hb, .read now =>
    match e.incoming.read with
    | some (.frame message, incoming) =>
      some ({ e with incoming := incoming }.onRemote peer hb now message)
    | some (.eof, _) => some (e.unregister peer)
    | none => none
  | .connected peer _, .readError => some (e.unregister peer)
  | .connected peer hb, .recv message =>
    let peer := peer.recv message
    match e.send (.nodeMsg message) with
    | some e => some { e with state := .connected peer hb, sent := e.sent ++ [message] }
    | none => some (e.unregister peer)
  | .connected peer _, .recvClosed => some (e.unregister peer)
  | .connected peer hb, .tick now =>
    if hb.nextDeadline ≤ now then some (e.onTick peer hb now) else none
  | .connected peer _, .stop kind => if e.killOpen then some (e.stopLink (some peer) kind) else none
  | .connected _ _, .killDropped => if e.killOpen then some { e with killOpen := false } else none
  | .silent peer, .read _ =>
    match e.incoming.read with
    | some (.frame _, incoming) => some { e with incoming := incoming }
    | some (.eof, _) =>
      match peer with
      | some peer => some (e.unregister peer)
      | none => some e.finish
    | none => none
  | .silent (some peer), .readError => some (e.unregister peer)
  -- Without a peer every item of the stream is skipped, and so is an error.
  | .silent none, .readError => some e
  | .silent (some peer), .recv message => some { e with state := .silent (some (peer.recv message)) }
  | .silent (some peer), .recvClosed => some (e.unregister peer)
  | _, _ => none

end DummyEnd

end Anybus
