import Anybus.Core.Search
import Anybus.Peers.WsPeer

/-!
# The WebSocket manager

The manager keeps the active sessions, the peers to connect to, and the disconnected peers
in the order in which they become ready. In every turn it connects to a pending or ready
peer, or else waits for a timer, a request, a command or a notice of the bus.
-/

namespace Anybus

/-- The address of a peer. -/
abbrev WsUrl := String

structure WebSocketPeerConfig where
  url : WsUrl
  name : String
  deriving DecidableEq, Repr

def WebSocketPeerConfig.display (config : WebSocketPeerConfig) : String :=
  "WebSocket \x7b name: " ++ config.name ++ ", url: " ++ config.url ++ " \x7d"

/-- Which side has opened a stream. -/
inductive StreamDirection where
  | inbound
  | outbound (config : WebSocketPeerConfig)
  deriving DecidableEq, Repr

/-- Comparison of a direction with a configuration. -/
def StreamDirection.isTo (direction : StreamDirection) (config : WebSocketPeerConfig) : Bool :=
  match direction with
  | .inbound => false
  | .outbound config' => decide (config' = config)

/-- Comparison of a direction with an address. -/
def StreamDirection.isToUrl (direction : StreamDirection) (url : WsUrl) : Bool :=
  match direction with
  | .inbound => false
  | .outbound config => decide (config.url = url)

/-- A peer that is not connected. -/
structure WsPendingPeer where
  config : WebSocketPeerConfig
  lastAttempt : Instant
  backoff : Duration
  numAttempts : Nat
  deriving DecidableEq, Repr

namespace WsPendingPeer

/-- Seconds in the units of the clock. -/
def fromSecs (n : Nat) : Duration := 1000 * n

def ofConfig (config : WebSocketPeerConfig) (now : Instant) : WsPendingPeer where
  config := config
  lastAttempt := now
  backoff := fromSecs 1
  numAttempts := 0

def whenReady (peer : WsPendingPeer) : Instant := peer.lastAttempt + peer.backoff

def recordAttempt (peer : WsPendingPeer) (now : Instant) : WsPendingPeer :=
  let numAttempts := peer.numAttempts + 1
  { peer with
    lastAttempt := now
    numAttempts := numAttempts
    backoff := fromSecs (2 ^ min numAttempts 8) }

def readyNow (peer : WsPendingPeer) (now : Instant) : WsPendingPeer :=
  { peer with lastAttempt := now, backoff := 0, numAttempts := 0 }

end WsPendingPeer

/-- The manager's entry of a running session, with the session's control channel. -/
structure WsActivePeer where
  direction : StreamDirection
  peerId : NodeId
  wsControl : Nat
  deriving DecidableEq, Repr

/-- What the connecting tasks and the sessions tell the manager. -/
inductive WsCommand where
  | newWsStream (wsPendingPeer : Option WsPendingPeer) (peerId : NodeId)
  | peerClosed (peerId : NodeId)
  | queueReconnect (wsPendingPeer : WsPendingPeer)
  deriving DecidableEq, Repr

/-- What ends the wait of the manager. Each clock reading it then makes is given. -/
inductive WsInput where
  | timeout (now : Instant)
  | addPeer (peerConfig : WebSocketPeerConfig) (now : Instant)
  | removePeer (url : WsUrl)
  | command (command : WsCommand) (now : Instant) (connectionId : ConnectionId)
  | resuming (clock : Nat → Instant)
  | otherStatus
  | shuttingDown

/-- What the manager does besides keeping its lists. -/
inductive WsAction where
  | connectToPeer (peer : WsPendingPeer)
  | registerPeer (peerId : NodeId) (connectionId : ConnectionId) (cost : Cost) (realms : RealmList)
  | runWsPeer (entry : WsActivePeer)
  | control (wsControl : Nat) (message : WsControl)
  | respond (response : Except String Unit)

/-- The manager. Control channels are numbered in the order of their creation. -/
structure WebsocketManager where
  currentPeers : List WsActivePeer
  pendingPeers : List WsPendingPeer
  disconnectedPeers : List WsPendingPeer
  controls : Nat
  stopped : Bool

namespace WebsocketManager

def new (wsPeers : List WebSocketPeerConfig) (clock : Nat → Instant) : WebsocketManager where
  currentPeers := []
  pendingPeers := wsPeers.mapIdx fun i config => .ofConfig config (clock i)
  disconnectedPeers := []
  controls := 0
  stopped := false

/-- Take the first disconnected peer if it is ready. -/
def getNextReadyPeer (m : WebsocketManager) (now : Instant) :
    Option (WsPendingPeer × WebsocketManager) :=
  match m.disconnectedPeers with
  | [] => none
  | first :: rest =>
    if first.whenReady ≤ now then some (first, { m with disconnectedPeers := rest }) else none

theorem getNextReadyPeer_cases {m m' : WebsocketManager} {now : Instant} {peer : WsPendingPeer}
    (h : m.getNextReadyPeer now = some (peer, m')) :
    ∃ rest, m.disconnectedPeers = peer :: rest ∧ m' = { m with disconnectedPeers := rest } := by
  unfold getNextReadyPeer at h
  split at h
  · cases h
  · next hpeers =>
    split at h
    · cases h
      exact ⟨_, hpeers, rfl⟩
    · cases h

/-- Put a peer at its place among the disconnected ones. A search that finds a peer that
becomes ready at the same instant has no place to insert at, and nothing is inserted. -/
def schedule (disconnected : List WsPendingPeer) (pending : WsPendingPeer) : List WsPendingPeer :=
  match binarySearch (disconnected.map WsPendingPeer.whenReady) pending.whenReady with
  | .error pos => disconnected.insertIdx pos pending
  | .ok _ => disconnected

def connectRemote (m : WebsocketManager) (peer : WsPendingPeer) : WebsocketManager × List WsAction :=
  (m, [.connectToPeer peer])

def queueReconnect (m : WebsocketManager) (peer : WsPendingPeer) (now : Instant) :
    WebsocketManager × List WsAction :=
  ({ m with disconnectedPeers := schedule m.disconnectedPeers (peer.recordAttempt now) }, [])

def newWsStream (m : WebsocketManager) (wsPendingPeer : Option WsPendingPeer) (peerId : NodeId)
    (connectionId : ConnectionId) : WebsocketManager × List WsAction :=
  let direction := match wsPendingPeer with
    | some peer => StreamDirection.outbound peer.config
    | none => .inbound
  let entry : WsActivePeer := ⟨direction, peerId, m.controls⟩
  ({ m with currentPeers := m.currentPeers ++ [entry], controls := m.controls + 1 },
    [.registerPeer peerId connectionId ⟨20, by decide⟩ {.global}, .runWsPeer entry])

/-- A closed session is known by the id of its peer alone: the first entry with that id is
removed, and if it was outbound its peer is scheduled for a reconnect. -/
def peerClosed (m : WebsocketManager) (peerId : NodeId) (now : Instant) : WebsocketManager :=
  match m.currentPeers.find? fun p => p.peerId = peerId with
  | none => m
  | some closedPeer =>
    let m := { m with currentPeers := m.currentPeers.eraseP fun p => p.peerId = peerId }
    match closedPeer.direction with
    | .outbound config =>
      { m with disconnectedPeers := schedule m.disconnectedPeers (.ofConfig config now) }
    | .inbound => m

def handleCommand (m : WebsocketManager) (command : WsCommand) (now : Instant)
    (connectionId : ConnectionId) : WebsocketManager × List WsAction :=
  match command with
  | .newWsStream wsPendingPeer peerId => m.newWsStream wsPendingPeer peerId connectionId
  | .peerClosed peerId => (m.peerClosed peerId now, [])
  | .queueReconnect peer => m.queueReconnect peer now

def addWsPeer (m : WebsocketManager) (peerConfig : WebSocketPeerConfig) (now : Instant) :
    WebsocketManager × List WsAction :=
  if (m.pendingPeers.any fun p => p.config = peerConfig) ||
      (m.disconnectedPeers.any fun p => p.config = peerConfig) ||
      (m.currentPeers.any fun p => p.direction.isTo peerConfig) then
    (m, [.respond (.error ("Peer already exists: " ++ peerConfig.display))])
  else
    ({ m with pendingPeers := m.pendingPeers ++ [.ofConfig peerConfig now] }, [.respond (.ok ())])

/-- The number of peers in all three lists. -/
def size (m : WebsocketManager) : Nat :=
  m.pendingPeers.length + m.disconnectedPeers.length + m.currentPeers.length

/-- Forget a peer and shut down the first session to it. -/
def removeWsPeer (m : WebsocketManager) (url : WsUrl) : WebsocketManager × List WsAction :=
  let kept : WebsocketManager :=
    { m with
      pendingPeers := m.pendingPeers.filter fun p => p.config.url ≠ url
      disconnectedPeers := m.disconnectedPeers.filter fun p => p.config.url ≠ url
      currentPeers := m.currentPeers.eraseP fun p => p.direction.isToUrl url }
  let shutdown := match m.currentPeers.find? fun p => p.direction.isToUrl url with
    | some peer => [WsAction.control peer.wsControl .shutdown]
    | none => []
  let response : Except String Unit :=
    if kept.size < m.size then .ok () else .error ("Unable to find url: " ++ url)
  (kept, shutdown ++ [.respond response])

/-- Make all disconnected peers ready, each at its own reading of the clock. -/
def onResume (m : WebsocketManager) (clock : Nat → Instant) : WebsocketManager × List WsAction :=
  let ready := m.disconnectedPeers.mapIdx fun i peer => peer.readyNow (clock i)
  ({ m with disconnectedPeers := ready.insertionSort fun p q => p.whenReady ≤ q.whenReady },
    m.currentPeers.map fun p => .control p.wsControl .resume)

/-- Tell all sessions to shut down and stop. -/
def shutdown (m : WebsocketManager) : WebsocketManager × List WsAction :=
  ({ m with currentPeers := [], stopped := true },
    m.currentPeers.map fun p => .control p.wsControl .shutdown)

/-- What the manager does when its wait ends. -/
def react (m : WebsocketManager) : WsInput → WebsocketManager × List WsAction
  | .timeout now =>
    match m.getNextReadyPeer now with
    | some (peer, m) => m.connectRemote peer
    | none => (m, [])
  | .addPeer peerConfig now => m.addWsPeer peerConfig now
  | .removePeer url => m.removeWsPeer url
  | .command command now connectionId => m.handleCommand command now connectionId
  | .resuming clock => m.onResume clock
  | .otherStatus => (m, [])
  | .shuttingDown => m.shutdown

/-- A peer the manager connects to before it waits: the last pending one, or else the first
disconnected one if it is ready. -/
def dueNow (m : WebsocketManager) (now : Instant) : Option (WsPendingPeer × WebsocketManager) :=
  match m.pendingPeers.getLast? with
  | some peer => some (peer, { m with pendingPeers := m.pendingPeers.dropLast })
  | none => m.getNextReadyPeer now

/-- One turn of the manager from one wait to the next. It waits, and takes the input, only
if there is no peer to connect to. -/
def listen (m : WebsocketManager) (now : Instant) (input : WsInput) :
    WebsocketManager × List WsAction :=
  match m.dueNow now with
  | some (peer, m) => m.connectRemote peer
  | none => m.react input

end WebsocketManager

end Anybus
