import Anybus.Linkstate.Lsa
import Anybus.Peers.Heartbeat

/-!
# A WebSocket session

The state machine of a session takes events and queues effects. Its driver applies the
effects one by one, turns a failed one into a dead transport, and waits for the next
event when the queue is empty.
-/

namespace Anybus

/-- What the manager tells a session. -/
inductive WsControl where
  | shutdown
  | resume
  deriving DecidableEq, Repr

/-- What crosses the socket. -/
inductive WsMessage where
  | hello (nodeId : NodeId)
  | nodeMsg (message : NodeMessage)
  | closeConnection
  | ping (token : PingToken)
  | pong (token : PingToken)
  deriving DecidableEq

/-- What a session reacts to. -/
inductive WsEvent where
  | control (control : WsControl)
  | fromWire (message : WsMessage)
  | fromNode (message : NodeMessage)
  | transportDead
  | unknownWire
  | tick (now : Instant)
  deriving DecidableEq

/-- What a session asks its driver to do. -/
inductive WsEffect where
  | send (message : WsMessage)
  | closeSocket
  | handleNodeMessage (message : NodeMessage)
  | unregister
  | notifyPeerClosed
  deriving DecidableEq

/-- Where a session is in its life. -/
inductive Phase where
  | opened
  | closing
  | closed
  deriving DecidableEq, Repr

/-- Why a session closes. -/
inductive CloseReason where
  /-- We are hanging up, and say so. -/
  | loc
  /-- The peer has said goodbye. -/
  | remote
  /-- The socket is dead. -/
  | transport
  deriving DecidableEq, Repr

/-- What closing asks for, in order. -/
def CloseReason.effects : CloseReason → List WsEffect
  | .loc => [.send .closeConnection, .closeSocket, .unregister]
  | .remote => [.closeSocket, .notifyPeerClosed, .unregister]
  | .transport => [.notifyPeerClosed, .unregister]

/-- The state machine of a session. -/
structure WsPeer where
  phase : Phase
  effects : List WsEffect
  peerId : NodeId
  hb : Heartbeat
  deriving DecidableEq

namespace WsPeer

/-- 15 seconds, in milliseconds. -/
def defaultHeartbeatInterval : Duration := 15000

/-- 45 seconds, in milliseconds. -/
def defaultHeartbeatTimeout : Duration := 45000

def newWithHeartbeat (peerId : NodeId) (now : Instant) (interval timeout : Duration) : WsPeer :=
  ⟨.opened, [], peerId, .new now interval timeout⟩

def new (peerId : NodeId) (now : Instant) : WsPeer :=
  newWithHeartbeat peerId now defaultHeartbeatInterval defaultHeartbeatTimeout

def isDone (peer : WsPeer) : Bool := decide (peer.phase = .closed) && peer.effects.isEmpty

/-- When the driver wakes the session up; one that is closing is left alone. -/
def nextWake (peer : WsPeer) : Option Instant :=
  if peer.phase = .opened then some peer.hb.nextDeadline else none

/-- A closing session is closed once all its effects were applied. -/
def effectsFlushed (peer : WsPeer) : WsPeer :=
  if peer.phase = .closing ∧ peer.effects.isEmpty then { peer with phase := .closed } else peer

def emit (peer : WsPeer) (effect : WsEffect) : WsPeer :=
  { peer with effects := peer.effects ++ [effect] }

def close (peer : WsPeer) (reason : CloseReason) : WsPeer :=
  if peer.phase ≠ .opened then peer
  else { peer with effects := peer.effects ++ reason.effects, phase := .closing }

/-- Queue a ping with the next token. -/
def emitPing (peer : WsPeer) (now : Instant) : WsPeer :=
  let r := peer.hb.takePingToken now
  { peer with hb := r.1 }.emit (.send (.ping r.2))

def onWire (peer : WsPeer) (now : Instant) (message : WsMessage) : WsPeer :=
  let peer := { peer with hb := peer.hb.onRx now }
  match message with
  | .hello _ => peer.close .loc
  | .closeConnection => peer.close .remote
  | .ping token => peer.emit (.send (.pong token))
  | .pong _ => peer
  | .nodeMsg message => peer.emit (.handleNodeMessage message)

def onTick (peer : WsPeer) (now : Instant) : WsPeer :=
  if peer.hb.timedOut now then peer.close .loc
  else if peer.hb.pingDue now then peer.emitPing now
  else peer

/-- One event; `now` is what the clock shows meanwhile. A closing session only notices
that its transport is dead, and then forgets what is left to do. -/
def step (peer : WsPeer) (now : Instant) (event : WsEvent) : WsPeer :=
  match peer.phase with
  | .closed => peer
  | .closing =>
    if event = .transportDead then { peer with effects := [], phase := .closed } else peer
  | .opened =>
    match event with
    | .control .shutdown => peer.close .loc
    | .control .resume => { peer with hb := peer.hb.noteResume now }.emitPing now
    | .fromWire message => peer.onWire now message
    | .transportDead => peer.close .transport
    | .unknownWire => peer
    | .tick now => peer.onTick now
    | .fromNode message => peer.emit (.send (.nodeMsg message))

end WsPeer

/-- Which effects succeed, by the number of effects applied before: writing to the socket
and telling the manager can fail, the rest cannot. -/
structure Outcomes where
  send : Nat → Bool
  command : Nat → Bool

def Outcomes.of (outcomes : Outcomes) (n : Nat) : WsEffect → Bool
  | .send _ => outcomes.send n
  | .notifyPeerClosed => outcomes.command n
  | .closeSocket | .handleNodeMessage _ | .unregister => true

/-- An effect that was applied, the phase it was applied in, and whether it succeeded. -/
structure Applied where
  phase : Phase
  effect : WsEffect
  succeeded : Bool
  deriving DecidableEq

/-- A session with its driver: what was applied and what was fed, oldest first. -/
structure WsSession where
  fsm : WsPeer
  applied : List Applied
  fed : List (WsPeer × WsEvent)

/-- What the driver does next. -/
inductive Turn where
  /-- The loop ends. -/
  | ended (session : WsSession)
  /-- An effect has failed, so the transport is dead. -/
  | failed (session : WsSession)
  /-- Wait for an event. -/
  | waits (session : WsSession)

namespace WsSession

/-- The start of a session. -/
def start (peerId : NodeId) (now : Instant) : WsSession := ⟨.new peerId now, [], []⟩

/-- Apply effects until the queue is empty or one fails; returns what is left in the queue
and whether all succeeded. -/
def drain (outcomes : Outcomes) (phase : Phase) :
    List WsEffect → List Applied → List WsEffect × List Applied × Bool
  | [], applied => ([], applied, true)
  | effect :: rest, applied =>
    if outcomes.of applied.length effect then
      drain outcomes phase rest (applied ++ [⟨phase, effect, true⟩])
    else (rest, applied ++ [⟨phase, effect, false⟩], false)

/-- The part of the loop before an event is taken. -/
def turn (outcomes : Outcomes) (session : WsSession) : Turn :=
  let r := drain outcomes session.fsm.phase session.fsm.effects session.applied
  let fsm := { session.fsm with effects := r.1 }
  let fsm := if r.2.2 then fsm.effectsFlushed else fsm
  let session := { session with fsm := fsm, applied := r.2.1 }
  if fsm.isDone then .ended session
  else if r.2.2 then .waits session
  else .failed session

/-- Feed an event to the state machine. -/
def feed (session : WsSession) (now : Instant) (event : WsEvent) : WsSession :=
  { session with fsm := session.fsm.step now event, fed := session.fed ++ [(session.fsm, event)] }

/-- The runs of the driver that end: the events that were taken, and the last state. -/
inductive Ends (outcomes : Outcomes) : WsSession → List (Instant × WsEvent) → WsSession → Prop where
  | ended {s s' : WsSession} (h : s.turn outcomes = .ended s') : Ends outcomes s [] s'
  | failed {s s' s'' : WsSession} {l : List (Instant × WsEvent)} (now : Instant)
      (h : s.turn outcomes = .failed s') (hrest : Ends outcomes (s'.feed now .transportDead) l s'') :
      Ends outcomes s l s''
  | event {s s' s'' : WsSession} {l : List (Instant × WsEvent)} (now : Instant) (event : WsEvent)
      (h : s.turn outcomes = .waits s') (hrest : Ends outcomes (s'.feed now event) l s'') :
      Ends outcomes s ((now, event) :: l) s''

end WsSession

end Anybus
