import Anybus.Core.Machine
import Anybus.Peers.WsManager

/-!
# The reconnect queue

The disconnected peers are always sorted by the instant at which they become ready, so that
looking at the first one is enough. A peer is lost when it is scheduled for an instant at
which another one becomes ready already, and only then.
-/

namespace Anybus.WebsocketManager

/-- The disconnected peers stand in the order in which they become ready. -/
def Ordered (peers : List WsPendingPeer) : Prop :=
  (peers.map WsPendingPeer.whenReady).Pairwise (· ≤ ·)

section Schedule

variable {peers : List WsPendingPeer} {pending : WsPendingPeer}

/-- Scheduling inserts the peer at its place, unless another one is ready at the same instant. -/
theorem schedule_cases (h : Ordered peers) (pending : WsPendingPeer) :
    (schedule peers pending = peers ∧ ∃ q ∈ peers, q.whenReady = pending.whenReady) ∨
    ((schedule peers pending).Perm (pending :: peers) ∧ Ordered (schedule peers pending) ∧
      ∀ q ∈ peers, q.whenReady ≠ pending.whenReady) := by
  unfold schedule
  obtain ⟨i, hsearch, hi⟩ | ⟨pos, hsearch, hpos, hbefore, hafter⟩ :=
    binarySearch_spec h pending.whenReady
  · rw [hsearch]
    obtain ⟨q, hq, heq⟩ := List.mem_map.mp (List.mem_of_getElem? hi)
    exact Or.inl ⟨rfl, q, hq, heq⟩
  · rw [hsearch]
    rw [List.length_map] at hpos
    refine Or.inr ⟨List.perm_insertIdx _ _ hpos, ?_, fun q hq heq => ?_⟩
    · unfold Ordered
      simp only [List.map_insertIdx]
      exact pairwise_insertIdx h (by rwa [List.length_map]) hbefore hafter
    · have hmem : pending.whenReady ∈ peers.map WsPendingPeer.whenReady :=
        List.mem_map.mpr ⟨q, hq, heq⟩
      rw [← List.take_append_drop pos (peers.map _), List.mem_append] at hmem
      obtain hmem | hmem := hmem
      · exact lt_irrefl _ (hbefore _ hmem)
      · exact lt_irrefl _ (hafter _ hmem)

theorem Ordered.schedule (h : Ordered peers) : Ordered (schedule peers pending) := by
  obtain ⟨heq, -⟩ | ⟨-, hordered, -⟩ := schedule_cases h pending
  · rw [heq]
    exact h
  · exact hordered

/-- Everyone is kept if and only if no other peer becomes ready at the same instant. -/
theorem schedule_perm_iff (h : Ordered peers) :
    (WebsocketManager.schedule peers pending).Perm (pending :: peers) ↔
      ∀ q ∈ peers, q.whenReady ≠ pending.whenReady := by
  obtain ⟨heq, q, hq, hsame⟩ | ⟨hperm, -, hne⟩ := schedule_cases h pending
  · constructor
    · intro hperm
      have hlen := hperm.length_eq
      rw [heq, List.length_cons] at hlen
      omega
    · intro hne
      exact absurd hsame (hne q hq)
  · exact ⟨fun _ => hne, fun _ => hperm⟩

end Schedule

/-- The manager over its turns. -/
def machine : Machine WebsocketManager (Instant × WsInput) where
  init m := ∃ wsPeers clock, m = .new wsPeers clock
  step m turn m' := m.stopped = false ∧ m' = (m.listen turn.1 turn.2).1

variable {m m' : WebsocketManager} {now : Instant}

theorem Ordered.sublist {peers peers' : List WsPendingPeer} (h : Ordered peers)
    (hsub : peers'.Sublist peers) : Ordered peers' :=
  List.Pairwise.sublist (hsub.map _) h

theorem Ordered.getNextReadyPeer (h : Ordered m.disconnectedPeers) {peer : WsPendingPeer}
    (hready : m.getNextReadyPeer now = some (peer, m')) : Ordered m'.disconnectedPeers := by
  obtain ⟨rest, hpeers, rfl⟩ := getNextReadyPeer_cases hready
  rw [hpeers] at h
  exact h.sublist (List.sublist_cons_self peer rest)

theorem Ordered.peerClosed (h : Ordered m.disconnectedPeers) (peerId : NodeId) :
    Ordered (m.peerClosed peerId now).disconnectedPeers := by
  unfold WebsocketManager.peerClosed
  cases m.currentPeers.find? fun p => p.peerId = peerId with
  | none => exact h
  | some closedPeer =>
    cases hdir : closedPeer.direction with
    | inbound =>
      simp only [hdir]
      exact h
    | outbound config =>
      simp only [hdir]
      exact h.schedule

theorem Ordered.onResume (clock : Nat → Instant) :
    Ordered (m.onResume clock).1.disconnectedPeers := by
  unfold Ordered WebsocketManager.onResume
  rw [List.pairwise_map]
  have htotal : Std.Total fun p q : WsPendingPeer => p.whenReady ≤ q.whenReady :=
    ⟨fun p q => le_total _ _⟩
  have htrans : IsTrans WsPendingPeer fun p q => p.whenReady ≤ q.whenReady :=
    ⟨fun _ _ _ => le_trans⟩
  exact List.pairwise_insertionSort _ _

theorem Ordered.react (h : Ordered m.disconnectedPeers) (input : WsInput) :
    Ordered (m.react input).1.disconnectedPeers := by
  cases input with
  | timeout now =>
    simp only [WebsocketManager.react]
    cases hready : m.getNextReadyPeer now with
    | none => exact h
    | some ready => exact h.getNextReadyPeer hready
  | addPeer peerConfig now =>
    simp only [WebsocketManager.react, addWsPeer]
    split
    · exact h
    · exact h
  | removePeer url => exact h.sublist List.filter_sublist
  | command command now connectionId =>
    cases command with
    | newWsStream wsPendingPeer peerId => exact h
    | peerClosed peerId => exact h.peerClosed peerId
    | queueReconnect peer => exact h.schedule
  | resuming clock => exact Ordered.onResume clock
  | otherStatus => exact h
  | shuttingDown => exact h

theorem Ordered.listen (h : Ordered m.disconnectedPeers) (input : WsInput) :
    Ordered (m.listen now input).1.disconnectedPeers := by
  unfold WebsocketManager.listen dueNow
  cases m.pendingPeers.getLast? with
  | some peer => exact h
  | none =>
    cases hready : m.getNextReadyPeer now with
    | none => exact h.react input
    | some ready => exact h.getNextReadyPeer hready

theorem ordered_of_reaches (h : machine.Reaches (fun _ _ => True) m) :
    Ordered m.disconnectedPeers := by
  refine h.invariant (P := fun m => Ordered m.disconnectedPeers) ?_ ?_
  · rintro m ⟨wsPeers, clock, rfl⟩
    exact List.Pairwise.nil
  · rintro m turn m' hordered - ⟨-, rfl⟩
    exact hordered.listen turn.2

/-- The peer that a command asks to be scheduled. -/
def toSchedule (m : WebsocketManager) (now : Instant) : WsCommand → Option WsPendingPeer
  | .queueReconnect peer => some (peer.recordAttempt now)
  | .peerClosed peerId =>
    match m.currentPeers.find? fun p => p.peerId = peerId with
    | some ⟨.outbound config, _, _⟩ => some (.ofConfig config now)
    | _ => none
  | .newWsStream _ _ => none

theorem handleCommand_schedules {command : WsCommand} {connectionId : ConnectionId}
    {pending : WsPendingPeer} (h : m.toSchedule now command = some pending) :
    (m.handleCommand command now connectionId).1.disconnectedPeers =
      schedule m.disconnectedPeers pending := by
  cases command with
  | newWsStream wsPendingPeer peerId => cases h
  | queueReconnect peer =>
    cases h
    rfl
  | peerClosed peerId =>
    simp only [toSchedule] at h
    simp only [handleCommand, WebsocketManager.peerClosed]
    split at h
    · next config _ _ hfind =>
      cases h
      rw [hfind]
    · cases h

/-- The disconnected peers are always in order. A command that schedules a peer keeps all
the others and adds exactly that one if and only if none of the others becomes ready at the
same instant. -/
theorem reconnect_queue (h : machine.Reaches (fun _ _ => True) m) :
    Ordered m.disconnectedPeers ∧
    ∀ now now' command connectionId pending, m.dueNow now = none →
      m.toSchedule now' command = some pending →
      ((m.listen now (.command command now' connectionId)).1.disconnectedPeers.Perm
          (pending :: m.disconnectedPeers) ↔
        ∀ q ∈ m.disconnectedPeers, q.whenReady ≠ pending.whenReady) := by
  have hordered := ordered_of_reaches h
  refine ⟨hordered, fun now now' command connectionId pending hdue hpending => ?_⟩
  have hlisten : m.listen now (.command command now' connectionId) =
      m.handleCommand command now' connectionId := by
    unfold WebsocketManager.listen
    rw [hdue]
    rfl
  rw [hlisten, handleCommand_schedules hpending]
  exact schedule_perm_iff hordered

/-- Two servers. -/
def northConfig : WebSocketPeerConfig := ⟨"ws://north", "north"⟩

def southConfig : WebSocketPeerConfig := ⟨"ws://south", "south"⟩

/-- Two outbound sessions, and the first of them ends. -/
def oneLost : WebsocketManager where
  currentPeers := [⟨.outbound southConfig, 3, 1⟩]
  pendingPeers := []
  disconnectedPeers := [.ofConfig northConfig 5]
  controls := 2
  stopped := false

theorem oneLost_reached : machine.Reaches (fun _ _ => True) oneLost := by
  have hstart : machine.Reaches (fun _ _ => True) (.new [] fun _ => 0) := .init ⟨[], fun _ => 0, rfl⟩
  have hnorth := hstart.step (0, .command (.newWsStream (some (.ofConfig northConfig 0)) 2) 0 1)
    trivial ⟨rfl, rfl⟩
  have hsouth := hnorth.step (0, .command (.newWsStream (some (.ofConfig southConfig 0)) 3) 0 2)
    trivial ⟨rfl, rfl⟩
  exact hsouth.step (0, .command (.peerClosed 2) 5 0) trivial ⟨rfl, rfl⟩

/-- The second session ends one tick later, and both peers are scheduled. -/
theorem second_scheduled : (oneLost.listen 5 (.command (.peerClosed 3) 6 0)).1.disconnectedPeers.Perm
    [.ofConfig southConfig 6, .ofConfig northConfig 5] := by
  refine ((reconnect_queue oneLost_reached).2 5 6 (.peerClosed 3) 0 (.ofConfig southConfig 6)
    (by decide) (by decide)).mpr ?_
  decide

/-- The second session ends at the same reading of the clock, and its peer is lost. -/
theorem second_lost : machine.Reaches (fun _ _ => True) oneLost ∧ oneLost.dueNow 5 = none ∧
    oneLost.toSchedule 5 (.peerClosed 3) = some (.ofConfig southConfig 5) ∧
    ¬ (oneLost.listen 5 (.command (.peerClosed 3) 5 0)).1.disconnectedPeers.Perm
      (.ofConfig southConfig 5 :: oneLost.disconnectedPeers) := by
  refine ⟨oneLost_reached, by decide, by decide, fun hperm => ?_⟩
  have hlen := hperm.length_eq
  have hone : (oneLost.listen 5 (.command (.peerClosed 3) 5 0)).1.disconnectedPeers.length = 1 := by
    decide
  rw [hone] at hlen
  cases hlen

end Anybus.WebsocketManager
