import Anybus.Ipc.Tasks

/-!
# A session and its registration

Whatever a session reads and however its writes end, when it is over it has taken back its
registration if it had one, and it has told the manager once: that the handshake failed, or,
if it was accepted, that it is closed under the number it was registered with.
-/

namespace Anybus

/-- What a session has done that needs a counterpart. -/
inductive BookEntry where
  | registered (connectionId : ConnectionId)
  | unregistered (connectionId : ConnectionId)
  | handshakeFailed (expected : Option NodeId)
  | peerClosed (peerId : NodeId) (connectionId : ConnectionId)
  deriving DecidableEq

def IpcEffect.entry {τ : Type} : IpcEffect τ → Option BookEntry
  | .registerPeer _ connectionId _ _ => some (.registered connectionId)
  | .unregister connectionId => some (.unregistered connectionId)
  | .command (.handshakeFailed expected) _ => some (.handshakeFailed expected)
  | .command (.peerClosed peerId connectionId) _ => some (.peerClosed peerId connectionId)
  | _ => none

namespace IpcPeer

variable {τ : Type} {peer : IpcPeer τ} {ctx : IpcContext} {input : IpcInput}
  {r : IpcPeer τ × List (IpcEffect τ)}

/-- The entries of a registration that has been taken back. -/
def settled (registered : Option RegisteredPeer) : List BookEntry :=
  match registered with
  | some p => [.registered p.connectionId, .unregistered p.connectionId]
  | none => []

/-- What a session must have done by the time it is in a state, and whether it has received
the manager's word that it is accepted. -/
inductive Booked (peer : IpcPeer τ) : List BookEntry → Bool → Prop where
  | greeting (hst : peer.state = .hello ∨ peer.state = .helloSent) (hp : peer.peer = none) :
      Booked peer [] false
  | announcing (p : RegisteredPeer)
      (hst : peer.state = .helloReceived p.peerId p.connectionId ∨ peer.state = .awaitAccepted)
      (hp : peer.peer = some p) : Booked peer [.registered p.connectionId] false
  | aborting (hst : peer.state = .abortHandshake) :
      Booked peer (peer.peer.map fun p => .registered p.connectionId).toList false
  | aborted (hst : peer.state = .handshakeAborted) : Booked peer (settled peer.peer) false
  | failed (hst : peer.state = .ended) :
      Booked peer (settled peer.peer ++ [.handshakeFailed peer.expected]) false
  | running (p : RegisteredPeer) (hst : peer.state.Running) (hest : peer.established = true)
      (hp : peer.peer = some p) : Booked peer [.registered p.connectionId] true
  | closed (p : RegisteredPeer) (hst : peer.state = .ended) : Booked peer
      [.registered p.connectionId, .peerClosed p.peerId p.connectionId,
        .unregistered p.connectionId] true

theorem entries_afterWrite (peer : IpcPeer τ) (message : IpcMessage) (ok : Bool) :
    (peer.afterWrite message ok).2.filterMap IpcEffect.entry = [] := rfl

/-- While a session goes on nothing is booked. -/
theorem entries_of_running (h : peer.next ctx input = some r) (hst : peer.state.Running)
    (hrun : r.1.state.Running) : r.2.filterMap IpcEffect.entry = [] := by
  cases hs : peer.state with
  | sendPeers =>
    rw [next.eq_def, hs] at h
    dsimp only at h
    split at h
    · cases h
      rfl
    · cases h
      exact entries_afterWrite _ _ _
    · cases h
  | waitForMessages =>
    rw [next.eq_def, hs] at h
    dsimp only at h
    split at h
    · cases h
      rfl
    · split at h <;> cases h <;> rfl
  | heartbeatTick =>
    rw [next.eq_def, hs] at h
    dsimp only at h
    split at h
    · split at h
      · cases h
        rfl
      · split at h <;> cases h <;> rfl
    · cases h
  | sendPing | nodeMessageReceived message =>
    rw [next.eq_def, hs] at h
    dsimp only at h
    split at h
    · cases h
      exact entries_afterWrite _ _ _
    · cases h
  | handleError | closePeer | shutdown =>
    rw [next.eq_def, hs] at h
    dsimp only at h
    split at h
    · cases h
      rfl
    · cases h
  | ipcControlReceived message =>
    rw [next.eq_def, hs] at h
    dsimp only at h
    split at h
    · split at h <;> cases h <;> rfl
    · cases h
  | ipcMessageReceived message =>
    rw [next.eq_def, hs] at h
    dsimp only at h
    cases message with
    | nodeMsg message =>
      dsimp only at h
      split at h
      · cases h
        cases peer.peer <;> rfl
      · cases h
    | _ =>
      dsimp only at h
      split at h
      · cases h
        rfl
      · cases h
  | streamClosed =>
    -- The session ends here.
    rw [next.eq_def, hs] at h
    dsimp only at h
    split at h
    · split at h
      · cases h
        unfold reportClosed at hrun
        split at hrun <;> cases hrun
      · cases h
        cases hrun
    · cases h
  | _ =>
    rw [hs] at hst
    cases hst

/-- Whether an input is the manager's word that the session is accepted. -/
def isAccepted : IpcInput → Bool
  | .control (some .accepted) => true
  | _ => false

theorem isAccepted_iff : isAccepted input = true ↔ input = .control (some .accepted) := by
  unfold isAccepted
  split
  · exact ⟨fun _ => rfl, fun _ => rfl⟩
  · next hne => exact ⟨fun h => absurd h Bool.false_ne_true, fun h => absurd h hne⟩

theorem Booked.of_abort (hp : peer.peer = none) : Booked (peer.goto .abortHandshake) [] false := by
  have h : Booked (peer.goto .abortHandshake) _ false := .aborting rfl
  rw [goto, hp] at h
  rwa [goto, hp]

/-- A task that has sent its name gets the peer's, or gives up. -/
theorem next_helloSent (h : peer.next ctx input = some r) (hst : peer.state = .helloSent) :
    (∃ id, input = .read (some (some (.hello id))) ∧ r = peer.onHello ctx id) ∨
    (isAccepted input = false ∧ r = (peer.goto .abortHandshake, [])) := by
  rw [next.eq_def, hst] at h
  cases input with
  | read message =>
    cases message with
    | none => exact Or.inr ⟨rfl, (Option.some.inj h).symm⟩
    | some message =>
      cases message with
      | none => exact Or.inr ⟨rfl, (Option.some.inj h).symm⟩
      | some message =>
        cases message with
        | hello id => exact Or.inl ⟨id, rfl, (Option.some.inj h).symm⟩
        | knownPeers | neighborRemoved | closeConnection | nodeMsg | ping | pong =>
          exact Or.inr ⟨rfl, (Option.some.inj h).symm⟩
  | elapsed => exact Or.inr ⟨rfl, (Option.some.inj h).symm⟩
  | told | wrote | control | node | proceed => cases h

/-- The peer's name is awaited. -/
theorem Booked.next_greeting (hst : peer.state = .hello ∨ peer.state = .helloSent)
    (hp : peer.peer = none) (h : peer.next ctx input = some r) :
    Booked r.1 (r.2.filterMap IpcEffect.entry) (isAccepted input) := by
  obtain hs | hs := hst
  · rw [next.eq_def, hs] at h
    cases input with
    | wrote ok =>
      cases h
      cases ok with
      | true => exact .greeting (Or.inr rfl) hp
      | false => exact .of_abort hp
    | elapsed =>
      cases h
      exact .of_abort hp
    | told | read | control | node | proceed => cases h
  · obtain ⟨id, rfl, rfl⟩ | ⟨hacc, rfl⟩ := next_helloSent h hs
    · unfold onHello
      split
      · exact .of_abort hp
      · exact .announcing ⟨id, ctx.connectionId⟩ (Or.inl rfl) rfl
    · rw [hacc]
      exact .of_abort hp

theorem Booked.next_announcing {p : RegisteredPeer}
    (hst : peer.state = .helloReceived p.peerId p.connectionId ∨ peer.state = .awaitAccepted)
    (hp : peer.peer = some p) (h : peer.next ctx input = some r) :
    Booked r.1 ([.registered p.connectionId] ++ r.2.filterMap IpcEffect.entry)
      (isAccepted input) := by
  have haborting : Booked (peer.goto .abortHandshake) [.registered p.connectionId] false := by
    have habort : Booked (peer.goto .abortHandshake) _ false := .aborting rfl
    simpa [goto, hp] using habort
  obtain hs | hs := hst
  · obtain ⟨ok, rfl, rfl⟩ := next_helloReceived h hs
    cases ok with
    | true => exact .announcing p (Or.inr rfl) hp
    | false => exact haborting
  · obtain ⟨rfl, rfl⟩ | ⟨hne, -, rfl⟩ := next_awaitAccepted h hs
    · exact .running p trivial rfl hp
    · have hacc : isAccepted input = false := Bool.eq_false_iff.mpr fun h => hne (isAccepted_iff.mp h)
      rw [hacc]
      exact haborting

/-- The stream is closed, a registration is taken back, and the manager is told. -/
theorem Booked.next_aborting (hst : peer.state = .abortHandshake)
    (h : peer.next ctx input = some r) :
    Booked r.1 ((peer.peer.map fun p => .registered p.connectionId).toList ++
      r.2.filterMap IpcEffect.entry) (isAccepted input) := by
  rw [next.eq_def, hst] at h
  cases input with
  | wrote ok =>
    cases h
    have haborted : Booked (peer.goto .handshakeAborted) (settled peer.peer) false := .aborted rfl
    cases hp : peer.peer with
    | none =>
      rw [hp] at haborted
      exact haborted
    | some p =>
      rw [hp] at haborted
      exact haborted
  | told | read | control | node | elapsed | proceed => cases h

theorem Booked.next_aborted (hst : peer.state = .handshakeAborted)
    (h : peer.next ctx input = some r) :
    Booked r.1 (settled peer.peer ++ r.2.filterMap IpcEffect.entry) (isAccepted input) := by
  rw [next.eq_def, hst] at h
  cases input with
  | told ok =>
    cases h
    exact .failed rfl
  | wrote | read | control | node | elapsed | proceed => cases h

theorem Booked.next_running {p : RegisteredPeer} (hst : peer.state.Running)
    (hest : peer.established = true) (hp : peer.peer = some p) (h : peer.next ctx input = some r) :
    Booked r.1 ([.registered p.connectionId] ++ r.2.filterMap IpcEffect.entry) true := by
  obtain hcont | ⟨ok, rfl, rfl⟩ := IpcPeer.next_running h hst hest hp
  · rw [entries_of_running h hst hcont.running, List.append_nil]
    exact .running p hcont.running (hcont.established.trans hest) (hcont.registered.trans hp)
  · exact .closed p rfl

/-- Every step of a session keeps its books. -/
theorem Booked.next {entries : List BookEntry} {acc : Bool} (h : peer.Booked entries acc)
    (hr : peer.next ctx input = some r) :
    r.1.Booked (entries ++ r.2.filterMap IpcEffect.entry) (acc || isAccepted input) := by
  cases h with
  | greeting hst hp => exact .next_greeting hst hp hr
  | announcing p hst hp => exact .next_announcing hst hp hr
  | aborting hst => exact .next_aborting hst hr
  | aborted hst => exact .next_aborted hst hr
  | running p hst hest hp => exact .next_running hst hest hp hr
  | failed hst | closed p hst =>
    rw [next.eq_def, hst] at hr
    cases hr

end IpcPeer

/-- A session with what it has read and done so far. -/
structure IpcSession (τ : Type) where
  peer : IpcPeer τ
  inputs : List IpcInput
  effects : List (IpcEffect τ)

namespace IpcSession

variable {τ : Type} {s s' : IpcSession τ}

/-- One step. -/
def step (s : IpcSession τ) (event : IpcContext × IpcInput) : Option (IpcSession τ) :=
  (s.peer.next event.1 event.2).map fun r => ⟨r.1, s.inputs ++ [event.2], s.effects ++ r.2⟩

def machine : Machine (IpcSession τ) (IpcContext × IpcInput) where
  init s := ∃ control expected ourNodeid now interval timeout,
    s = ⟨.new control expected ourNodeid now interval timeout, [], []⟩
  step s event s' := s.step event = some s'

/-- The books of a session. -/
def entries (s : IpcSession τ) : List BookEntry := s.effects.filterMap IpcEffect.entry

/-- The numbers under which the session was registered, and those that were taken back. -/
def registered (s : IpcSession τ) : List ConnectionId := s.entries.filterMap fun
  | .registered connectionId => some connectionId
  | _ => none

def unregistered (s : IpcSession τ) : List ConnectionId := s.entries.filterMap fun
  | .unregistered connectionId => some connectionId
  | _ => none

/-- The reports of a failed handshake, and those of a closed session. -/
def handshakeFailures (s : IpcSession τ) : List (Option NodeId) := s.entries.filterMap fun
  | .handshakeFailed expected => some expected
  | _ => none

def closings (s : IpcSession τ) : List (NodeId × ConnectionId) := s.entries.filterMap fun
  | .peerClosed peerId connectionId => some (peerId, connectionId)
  | _ => none

theorem booked_of_reaches (h : machine.Reaches (fun _ _ => True) s) :
    s.peer.Booked s.entries (s.inputs.any IpcPeer.isAccepted) := by
  refine h.invariant (P := fun s => s.peer.Booked s.entries (s.inputs.any IpcPeer.isAccepted)) ?_
    fun s event s' hbooked _ hs => ?_
  · rintro s ⟨control, expected, ourNodeid, now, interval, timeout, rfl⟩
    exact .greeting (Or.inl rfl) rfl
  · obtain ⟨r, hr, rfl⟩ := Option.map_eq_some_iff.mp hs
    have hnext := hbooked.next hr
    simpa [entries] using hnext

theorem any_isAccepted (s : IpcSession τ) :
    s.inputs.any IpcPeer.isAccepted = true ↔ .control (some .accepted) ∈ s.inputs := by
  rw [List.any_eq_true]
  constructor
  · rintro ⟨input, hin, hacc⟩
    rw [← IpcPeer.isAccepted_iff.mp hacc]
    exact hin
  · exact fun hin => ⟨_, hin, rfl⟩

/-- No `expect` of a session ever fails. When a session has ended, it has taken back its
registration once if it was registered, and not otherwise; it has reported once, that its
handshake failed or that it is closed; and it has reported that it is closed if and only if
it was accepted, and then under the number it was registered with. -/
theorem session_paired (h : machine.Reaches (fun _ _ => True) s) :
    s.peer.state ≠ .panicked ∧ (s.peer.state = .ended →
      s.unregistered = s.registered ∧ s.registered.length ≤ 1 ∧
      s.handshakeFailures.length + s.closings.length = 1 ∧
      (s.closings ≠ [] ↔ .control (some .accepted) ∈ s.inputs) ∧
      ∀ closing ∈ s.closings, s.registered = [closing.2]) := by
  have hbooked := booked_of_reaches h
  rw [← any_isAccepted]
  unfold registered unregistered handshakeFailures closings
  generalize s.entries = entries at hbooked
  generalize s.inputs.any IpcPeer.isAccepted = acc at hbooked
  cases hbooked with
  | greeting hst hp =>
    obtain hst | hst := hst
    · simp [hst]
    · simp [hst]
  | announcing p hst hp =>
    obtain hst | hst := hst
    · simp [hst]
    · simp [hst]
  | aborting hst | aborted hst => simp [hst]
  | running p hst hest hp =>
    refine ⟨fun heq => ?_, fun heq => ?_⟩
    · rw [heq] at hst
      cases hst
    · rw [heq] at hst
      cases hst
  | failed hst =>
    rw [hst]
    cases s.peer.peer with
    | none => simp [IpcPeer.settled]
    | some p => simp [IpcPeer.settled]
  | closed p hst => simp [hst]

/-- A session that is dialled, accepted and then closed by the peer. -/
def shortSession : List (IpcContext × IpcInput) :=
  let ctx : IpcContext := ⟨0, 5, []⟩
  [(ctx, .wrote true), (ctx, .read (some (some (.hello 3)))), (ctx, .told true),
    (ctx, .control (some .accepted)), (ctx, .wrote true), (ctx, .read none), (ctx, .wrote true),
    (ctx, .told true)]

theorem shortSession_paired : ∃ s : IpcSession Nat, s.peer.state = .ended ∧
    s.entries = [.registered 5, .peerClosed 3 5, .unregistered 5] ∧ s.unregistered = s.registered := by
  have hend : (Machine.run step (fun _ _ => True)
      (⟨.new 0 (some 3) 7 0 10000 30000, [], []⟩ : IpcSession Nat) shortSession).map
        (fun s => (s.peer.state, s.entries)) =
      some (.ended, [.registered 5, .peerClosed 3 5, .unregistered 5]) := by
    decide +kernel
  obtain ⟨s, hrun, hend⟩ := Option.map_eq_some_iff.mp hend
  simp only [Prod.mk.injEq] at hend
  have hinit : machine.Reaches (fun _ _ => True)
      (⟨.new 0 (some 3) 7 0 10000 30000, [], []⟩ : IpcSession Nat) :=
    .init ⟨0, some 3, 7, 0, 10000, 30000, rfl⟩
  have hreaches := hinit.run (fun _ _ _ hs => hs) hrun
  exact ⟨s, hend.1, hend.2, ((session_paired hreaches).2 hend.1).1⟩

end IpcSession

end Anybus
