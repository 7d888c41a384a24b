import Anybus.Core.Machine
import Anybus.Peers.WsManager

/-!
# The manager among its tasks

The manager spawns a task for every connection attempt, which goes on as a handshake, and
one for every session. While a peer is being connected it is in none of the manager's lists:
it comes back as a command. All tasks send their commands through one queue. A session ends
with one report, which names its peer and nothing else; the model keeps the session's control
channel beside it, and a trace of the sessions and requests.
-/

namespace Anybus

/-- A command in the queue, and the session that has reported by it. -/
structure QueuedCommand where
  command : WsCommand
  session : Option Nat
  deriving DecidableEq

/-- The manager, its tasks, and what has happened so far. -/
structure WsNode where
  manager : WebsocketManager
  queue : List QueuedCommand
  /-- Connection attempts. -/
  connecting : List WsPendingPeer
  /-- Handshakes, of accepted streams without a peer to reconnect to. -/
  handshaking : List (Option WsPendingPeer)
  /-- Sessions that have not ended. -/
  running : List WsActivePeer
  /-- All sessions ever entered. -/
  opened : List WsActivePeer
  /-- Sessions whose report was handled. -/
  reported : List Nat
  /-- Sessions shut down on a request to remove their peer. -/
  dismissed : List Nat
  /-- The reconnects scheduled on a report, with the session that has reported. -/
  reconnects : List (Nat × WebSocketPeerConfig)
  /-- Peers removed and not added since. -/
  removed : List WsUrl

/-- What ends the manager's wait: the next command, or something else. -/
inductive WsWake where
  | next (now : Instant) (connectionId : ConnectionId)
  | request (input : WsInput)

/-- What can happen. -/
inductive WsNodeEvent where
  | accept
  | connected (i : Nat)
  | connectFailed (i : Nat)
  | greeted (i : Nat) (peerId : NodeId)
  | handshakeFailed (i : Nat)
  | sessionEnds (i : Nat)
  | turn (now : Instant) (wake : WsWake)

def WsAction.connects : WsAction → Option WsPendingPeer
  | .connectToPeer peer => some peer
  | _ => none

def WsAction.runs : WsAction → Option WsActivePeer
  | .runWsPeer entry => some entry
  | _ => none

namespace WsNode

def new (wsPeers : List WebSocketPeerConfig) (clock : Nat → Instant) : WsNode where
  manager := .new wsPeers clock
  queue := []
  connecting := []
  handshaking := []
  running := []
  opened := []
  reported := []
  dismissed := []
  reconnects := []
  removed := []

/-- Send a command that is no report. -/
def enqueue (s : WsNode) (command : WsCommand) : WsNode :=
  { s with queue := s.queue ++ [⟨command, none⟩] }

/-- Spawn the tasks the manager asks for. -/
def act (s : WsNode) (r : WebsocketManager × List WsAction) : WsNode :=
  { s with
    manager := r.1
    connecting := s.connecting ++ r.2.filterMap WsAction.connects
    running := s.running ++ r.2.filterMap WsAction.runs
    opened := s.opened ++ r.2.filterMap WsAction.runs }

/-- Write down a report and the reconnect that the manager is going to schedule on it. -/
def noteReport (s : WsNode) (q : QueuedCommand) : WsNode :=
  match q.command, q.session with
  | .peerClosed peerId, some k =>
    { s with
      reported := k :: s.reported
      reconnects := match s.manager.currentPeers.find? fun p => p.peerId = peerId with
        | some ⟨.outbound config, _, _⟩ => (k, config) :: s.reconnects
        | _ => s.reconnects }
  | _, _ => s

/-- Whether a request to remove a peer finds it. -/
def finds (m : WebsocketManager) (url : WsUrl) : Bool := decide ((m.removeWsPeer url).1.size < m.size)

/-- Write down a request. -/
def noteRequest (s : WsNode) : WsInput → WsNode
  | .removePeer url =>
    { s with
      dismissed := ((s.manager.currentPeers.find? fun p => p.direction.isToUrl url).map
        WsActivePeer.wsControl).toList ++ s.dismissed
      removed := if finds s.manager url then url :: s.removed else s.removed }
  | .addPeer peerConfig _ => { s with removed := s.removed.filter fun url => url ≠ peerConfig.url }
  | _ => s

/-- The manager's turn when it has no peer to connect to. -/
def wake (s : WsNode) (now : Instant) : WsWake → Option WsNode
  | .next now' connectionId =>
    match s.queue with
    | [] => none
    | q :: rest => some (({ s with queue := rest }.noteReport q).act
        (s.manager.listen now (.command q.command now' connectionId)))
  | .request (.command _ _ _) => none
  | .request input => some ((s.noteRequest input).act (s.manager.listen now input))

/-- One event, if it is possible. -/
def step (s : WsNode) : WsNodeEvent → Option WsNode
  | .accept => some { s with handshaking := s.handshaking ++ [none] }
  | .connected i => s.connecting[i]?.map fun peer =>
      { s with
        connecting := s.connecting.eraseIdx i
        handshaking := s.handshaking ++ [some peer] }
  | .connectFailed i => s.connecting[i]?.map fun peer =>
      { s with connecting := s.connecting.eraseIdx i }.enqueue (.queueReconnect peer)
  | .greeted i peerId => s.handshaking[i]?.map fun pending =>
      { s with handshaking := s.handshaking.eraseIdx i }.enqueue (.newWsStream pending peerId)
  | .handshakeFailed i => s.handshaking[i]?.map fun pending =>
      let s := { s with handshaking := s.handshaking.eraseIdx i }
      match pending with
      | some peer => s.enqueue (.queueReconnect peer)
      -- An accepted stream is just dropped.
      | none => s
  | .sessionEnds i => s.running[i]?.map fun entry =>
      { s with
        running := s.running.eraseIdx i
        queue := s.queue ++ [⟨.peerClosed entry.peerId, some entry.wsControl⟩] }
  | .turn now wake =>
    if s.manager.stopped then none
    else
      match s.manager.dueNow now with
      -- The wait is skipped, and nothing is taken.
      | some _ => some (s.act (s.manager.listen now .otherStatus))
      | none => s.wake now wake

/-- A manager among its tasks. -/
def machine : Machine WsNode WsNodeEvent where
  init s := ∃ wsPeers clock, s = .new wsPeers clock
  step s event s' := s.step event = some s'

theorem reaches_of_run {allowed : WsNode → WsNodeEvent → Prop} [∀ s event, Decidable (allowed s event)]
    {wsPeers : List WebSocketPeerConfig} {clock : Nat → Instant} {events : List WsNodeEvent}
    {s : WsNode} (h : Machine.run step allowed (.new wsPeers clock) events = some s) :
    machine.Reaches allowed s := by
  have hinit : machine.Reaches allowed (.new wsPeers clock) := .init ⟨wsPeers, clock, rfl⟩
  exact hinit.run (fun _ _ _ hs => hs) h

end WsNode

namespace WebsocketManager

variable {m : WebsocketManager} {now : Instant}

theorem listen_of_due {peer : WsPendingPeer} {m' : WebsocketManager}
    (h : m.dueNow now = some (peer, m')) (input : WsInput) :
    m.listen now input = (m', [.connectToPeer peer]) := by
  unfold listen
  rw [h]
  rfl

theorem listen_of_idle (h : m.dueNow now = none) (input : WsInput) :
    m.listen now input = m.react input := by
  unfold listen
  rw [h]

/-- Everything the manager can connect to without waiting, and what it then keeps. -/
theorem dueNow_cases {peer : WsPendingPeer} {m' : WebsocketManager}
    (h : m.dueNow now = some (peer, m')) :
    (peer ∈ m.pendingPeers ∧ m' = { m with pendingPeers := m.pendingPeers.dropLast }) ∨
    ∃ rest, m.disconnectedPeers = peer :: rest ∧ m' = { m with disconnectedPeers := rest } := by
  unfold dueNow at h
  split at h
  · next last hlast =>
    cases h
    exact Or.inl ⟨List.mem_of_getLast? hlast, rfl⟩
  · exact Or.inr (getNextReadyPeer_cases h)

end WebsocketManager

namespace WsNode

variable {s s' : WsNode} {now : Instant}

/-- Everything a turn of the manager can be: it connects to a peer, handles the next command,
or reacts to something that is no command. -/
theorem turn_cases {wake : WsWake} (h : s.step (.turn now wake) = some s') :
    s.manager.stopped = false ∧
    ((∃ peer m, s.manager.dueNow now = some (peer, m) ∧ s' = s.act (m, [.connectToPeer peer])) ∨
    (s.manager.dueNow now = none ∧
      ((∃ now' connectionId q rest, wake = .next now' connectionId ∧ s.queue = q :: rest ∧
        s' = ({ s with queue := rest }.noteReport q).act
          (s.manager.handleCommand q.command now' connectionId)) ∨
      ∃ input, wake = .request input ∧
        (∀ command now connectionId, input ≠ .command command now connectionId) ∧
        s' = (s.noteRequest input).act (s.manager.react input)))) := by
  simp only [step] at h
  split at h
  · cases h
  · next hstop =>
    refine ⟨Bool.eq_false_iff.mpr hstop, ?_⟩
    cases hdue : s.manager.dueNow now with
    | some due =>
      rw [hdue] at h
      cases h
      rw [WebsocketManager.listen_of_due hdue]
      exact Or.inl ⟨due.1, due.2, rfl, rfl⟩
    | none =>
      rw [hdue] at h
      refine Or.inr ⟨rfl, ?_⟩
      cases wake with
      | next now' connectionId =>
        simp only [WsNode.wake] at h
        split at h
        · cases h
        · next q rest hqueue =>
          cases h
          rw [WebsocketManager.listen_of_idle hdue]
          exact Or.inl ⟨now', connectionId, q, rest, rfl, hqueue, rfl⟩
      | request input =>
        refine Or.inr ⟨input, rfl, ?_⟩
        rw [← WebsocketManager.listen_of_idle hdue]
        cases input with
        | command command now connectionId => cases h
        | timeout | addPeer | removePeer | resuming | otherStatus | shuttingDown =>
          cases h
          refine ⟨fun _ _ _ heq => ?_, rfl⟩
          cases heq

end WsNode

end Anybus
