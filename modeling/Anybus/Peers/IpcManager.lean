import Anybus.Peers.IpcPeer

/-!
# The sessions of an IPC manager

The manager keeps one entry for each peer it has a session with and answers the commands
of the sessions. What it does with the directory sockets between two commands leaves the
entries alone.
-/

namespace Anybus

/-- One entry of the peer list. -/
structure IpcEntry (τ : Type) where
  nodeId : NodeId
  control : τ
  connectionId : ConnectionId
  deriving DecidableEq

/-- The sessions of a manager, and the peers it has dialled and not heard of since. -/
structure IpcManager (τ : Type) where
  ourNodeid : NodeId
  peers : List (IpcEntry τ)
  pending : Finset NodeId
  shuttingDown : Bool
  deriving DecidableEq

namespace IpcManager

variable {τ : Type}

/-- Forget a dial. -/
def settle (m : IpcManager τ) (id : NodeId) : IpcManager τ := { m with pending := m.pending.erase id }

/-- A session has ended. -/
def peerClosed (m : IpcManager τ) (id : NodeId) (connectionId : ConnectionId) : IpcManager τ :=
  let m := { m with
    peers := m.peers.filter fun e => !(decide (e.nodeId = id) && decide (e.connectionId = connectionId)) }
  if m.peers.any fun e => decide (e.nodeId = id) then m else m.settle id

/-- A session has been set up. It takes the place of an older one with the same peer, which
is told to shut down; returns the controls that are sent. -/
def sessionReady (m : IpcManager τ) (id : NodeId) (control : τ) (connectionId : ConnectionId) :
    IpcManager τ × List (τ × IpcControl) :=
  let m := m.settle id
  match m.peers.findIdx? fun e => decide (e.nodeId = id) with
  | some pos =>
    ({ m with peers := m.peers.set pos ⟨id, control, connectionId⟩ },
      (m.peers[pos]?.map fun old => (old.control, IpcControl.shutdown)).toList ++
        [(control, .accepted)])
  | none => ({ m with peers := m.peers ++ [⟨id, control, connectionId⟩] }, [(control, .accepted)])

/-- A handshake has failed. -/
def handshakeFailed (m : IpcManager τ) : Option NodeId → IpcManager τ
  | some id => m.settle id
  | none => m

/-- The ids worth dialling. Of two nodes that learn of each other only the one with the
smaller id dials, except that ids from a directory are dialled regardless. -/
def dialable (m : IpcManager τ) (ids : List NodeId) (fromDirectory : Bool) : List NodeId :=
  ids.filter fun id => decide (id ≠ m.ourNodeid) && !(m.peers.any fun e => decide (e.nodeId = id)) &&
    decide (id ∉ m.pending) && (fromDirectory || decide (m.ourNodeid < id))

/-- Dial; `connects` says which peers answer. Returns the peers a session is started with. -/
def dialPeers (m : IpcManager τ) (ids : List NodeId) (fromDirectory : Bool)
    (connects : NodeId → Bool) : IpcManager τ × List NodeId :=
  if m.shuttingDown then (m, [])
  else
    let started := (m.dialable ids fromDirectory).filter connects
    ({ m with pending := m.pending ∪ started.toFinset }, started)

/-- Answer a command. Returns the controls that are sent and the peers that are dialled. -/
def handleIpcCommand (m : IpcManager τ) (connects : NodeId → Bool) :
    IpcCommand τ → IpcManager τ × List (τ × IpcControl) × List NodeId
  | .peerClosed id connectionId => (m.peerClosed id connectionId, [], [])
  | .sessionReady id control connectionId =>
    let r := m.sessionReady id control connectionId
    (r.1, r.2, [])
  | .handshakeFailed expected => (m.handshakeFailed expected, [], [])
  | .learnedPeers ids =>
    let r := m.dialPeers ids false connects
    (r.1, [], r.2)

/-- The entries of one peer. -/
def sessions (m : IpcManager τ) (id : NodeId) : List (IpcEntry τ) :=
  m.peers.filter fun e => decide (e.nodeId = id)

/-- The first entry that passes a test is the head of those that do, and replacing it
replaces that head. -/
theorem filter_set_findIdx {α : Type} {p : α → Bool} {a : α} (ha : p a = true) {l : List α} {i : Nat}
    (h : l.findIdx? p = some i) :
    l[i]? = (l.filter p).head? ∧ (l.set i a).filter p = a :: (l.filter p).tail := by
  induction l generalizing i with
  | nil => simp at h
  | cons b l ih =>
    rw [List.findIdx?_cons] at h
    cases hb : p b with
    | true =>
      obtain rfl : 0 = i := by simpa [hb] using h
      simp [hb, ha]
    | false =>
      simp only [hb, Bool.false_eq_true, if_false, Option.map_eq_some_iff] at h
      obtain ⟨j, hj, rfl⟩ := h
      simpa [hb] using ih hj

/-- A new session is listed in the place of the first old one, which is told to shut down
before the new one is accepted. -/
theorem sessionReady_spec (m : IpcManager τ) (id : NodeId) (control : τ)
    (connectionId : ConnectionId) :
    (m.sessionReady id control connectionId).1.sessions id =
        ⟨id, control, connectionId⟩ :: (m.sessions id).tail ∧
      (m.sessionReady id control connectionId).2 =
        ((m.sessions id).head?.map fun old => (old.control, IpcControl.shutdown)).toList ++
          [(control, .accepted)] := by
  cases h : m.peers.findIdx? fun e => decide (e.nodeId = id) with
  | some pos =>
    obtain ⟨hhead, htail⟩ :=
      filter_set_findIdx (a := (⟨id, control, connectionId⟩ : IpcEntry τ)) (decide_eq_true rfl) h
    simp only [sessionReady, sessions, settle, h, hhead, htail, and_self]
  | none =>
    have hnil : m.peers.filter (fun e => decide (e.nodeId = id)) = [] := by
      simpa [List.findIdx?_eq_none_iff] using h
    simp [sessionReady, sessions, settle, h, hnil]

/-- A new session is the only new entry. -/
theorem mem_sessionReady {m : IpcManager τ} {id : NodeId} {control : τ} {connectionId : ConnectionId}
    {e : IpcEntry τ} (h : e ∈ (m.sessionReady id control connectionId).1.peers) :
    e = ⟨id, control, connectionId⟩ ∨ e ∈ m.peers := by
  simp only [sessionReady, settle] at h
  split at h
  · exact (List.mem_or_eq_of_mem_set h).symm
  · rw [List.mem_append, List.mem_singleton] at h
    exact h.symm

/-- A peer is listed once, whether its new session takes the place of an old one or not. -/
theorem nodup_sessionReady {m : IpcManager τ} (h : (m.peers.map IpcEntry.nodeId).Nodup) (id : NodeId)
    (control : τ) (connectionId : ConnectionId) :
    ((m.sessionReady id control connectionId).1.peers.map IpcEntry.nodeId).Nodup := by
  simp only [sessionReady, settle]
  split
  · next pos hpos =>
    obtain ⟨hlt, hid, -⟩ := List.findIdx?_eq_some_iff_getElem.mp hpos
    have hlt' : pos < (m.peers.map IpcEntry.nodeId).length := by rwa [List.length_map]
    have hsame : (m.peers.map IpcEntry.nodeId)[pos] = id := by
      rw [List.getElem_map]
      exact of_decide_eq_true hid
    rw [List.map_set]
    change ((m.peers.map IpcEntry.nodeId).set pos id).Nodup
    rw [← hsame, List.set_getElem_self]
    exact h
  · next hnone =>
    rw [List.findIdx?_eq_none_iff] at hnone
    rw [List.map_append, List.map_singleton]
    refine List.nodup_append.mpr ⟨h, List.nodup_singleton _, ?_⟩
    intro id' hid' id'' hid''
    obtain ⟨e, he, rfl⟩ := List.mem_map.mp hid'
    rw [List.mem_singleton.mp hid'']
    exact of_decide_eq_false (hnone e he)

/-- The entries that a closed session leaves. -/
theorem peers_peerClosed (m : IpcManager τ) (id : NodeId) (connectionId : ConnectionId) :
    (m.peerClosed id connectionId).peers = m.peers.filter fun e =>
      !(decide (e.nodeId = id) && decide (e.connectionId = connectionId)) := by
  simp only [peerClosed]
  split <;> rfl

/-- A closed session is no longer listed. -/
theorem sessions_peerClosed (m : IpcManager τ) (id : NodeId) (connectionId : ConnectionId) :
    (m.peerClosed id connectionId).sessions id =
      (m.sessions id).filter fun e => decide (e.connectionId ≠ connectionId) := by
  rw [sessions, sessions, peers_peerClosed, List.filter_filter, List.filter_filter]
  congr 1
  ext e
  by_cases he : e.nodeId = id <;> simp [he]

@[simp] theorem peers_handshakeFailed (m : IpcManager τ) (expected : Option NodeId) :
    (m.handshakeFailed expected).peers = m.peers := by
  cases expected <;> rfl

@[simp] theorem peers_dialPeers (m : IpcManager τ) (ids : List NodeId) (fromDirectory : Bool)
    (connects : NodeId → Bool) : (m.dialPeers ids fromDirectory connects).1.peers = m.peers := by
  unfold dialPeers
  split <;> rfl

@[simp] theorem ourNodeid_handleIpcCommand (m : IpcManager τ)
    (connects : NodeId → Bool) (command : IpcCommand τ) :
    (m.handleIpcCommand connects command).1.ourNodeid = m.ourNodeid := by
  cases command with
  | peerClosed id connectionId =>
    simp only [handleIpcCommand, peerClosed]
    split <;> rfl
  | learnedPeers ids =>
    simp only [handleIpcCommand, dialPeers]
    split <;> rfl
  | sessionReady id control connectionId =>
    simp only [handleIpcCommand, sessionReady]
    split <;> rfl
  | handshakeFailed expected => cases expected <;> rfl

end IpcManager

end Anybus
