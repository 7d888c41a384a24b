import Anybus.Dummy.Link

/-!
# What two connected ends count

Each session counts the packets that it takes from its router and those that it hands on. The
counts of two connected ends agree up to the packets that are on the way between them.
-/

namespace Anybus

/-- The packets among the messages. -/
def wirePackets (messages : List NodeMessage) : List WirePacket := messages.filterMap fun
  | .wirePacket packet => some packet
  | .lsa _ | .lsaAck _ _ => none

/-- The packets among what the router was told. -/
def forwarded (actions : List PeerAction) : List WirePacket := actions.filterMap fun
  | .forwardPacket packet _ => some packet
  | .registerPeer _ _ _ _ | .unRegisterPeer _ | .lsaInbound _ _ | .lsaAckInbound _ _ _ => none

@[simp] theorem wirePackets_append (l l' : List NodeMessage) :
    wirePackets (l ++ l') = wirePackets l ++ wirePackets l' := List.filterMap_append

@[simp] theorem forwarded_append (l l' : List PeerAction) :
    forwarded (l ++ l') = forwarded l ++ forwarded l' := List.filterMap_append

@[simp] theorem forwarded_registerPeer (peerId : NodeId) (connectionId : ConnectionId) (cost : Cost)
    (realms : RealmList) (l : List PeerAction) :
    forwarded (.registerPeer peerId connectionId cost realms :: l) = forwarded l := rfl

theorem forwarded_ofNode (connectionId : ConnectionId) (messages : List NodeMessage) :
    forwarded (messages.map (.ofNode connectionId)) = wirePackets messages := by
  rw [forwarded, List.filterMap_map, wirePackets]
  refine congrArg (List.filterMap · messages) (funext fun message => ?_)
  cases message <;> rfl

namespace PacketByteCounts

/-- The counts of some packets. -/
def of (packets : List WirePacket) : PacketByteCounts := packets.foldl record ⟨0, 0⟩

theorem of_concat (packets : List WirePacket) (packet : WirePacket) :
    of (packets ++ [packet]) = (of packets).record packet := List.foldl_concat ..

theorem foldl_record (packets : List WirePacket) (c : PacketByteCounts) :
    packets.foldl record c = ⟨c.bytes + (of packets).bytes, c.packets + (of packets).packets⟩ := by
  induction packets generalizing c with
  | nil => rfl
  | cons packet packets ih =>
    rw [of, List.foldl_cons, List.foldl_cons, ih, ih (record ⟨0, 0⟩ packet)]
    simp only [record, PacketByteCounts.mk.injEq]
    omega

theorem of_append (packets later : List WirePacket) : of (packets ++ later) =
    ⟨(of packets).bytes + (of later).bytes, (of packets).packets + (of later).packets⟩ := by
  rw [of, List.foldl_append, foldl_record]
  rfl

end PacketByteCounts

namespace DummyEnd

variable {e e' : DummyEnd} {event : DummyEvent} {peer : Peer} {hb : Heartbeat}

/-- A connected session has counted what it has written and what it has handed on. -/
def Counted (e : DummyEnd) : Prop :=
  match e.state with
  | .start | .handshake => e.sent = [] ∧ e.actions = []
  | .connected peer _ =>
    peer.stats = ⟨.of (wirePackets e.sent), .of (forwarded e.actions)⟩
  | .silent _ | .ended => True

theorem counted_recv {sent : List NodeMessage} {rx : PacketByteCounts}
    (h : peer.stats = ⟨.of (wirePackets sent), rx⟩) (message : NodeMessage) :
    (peer.recv message).stats = ⟨.of (wirePackets (sent ++ [message])), rx⟩ := by
  rw [wirePackets_append]
  cases message with
  | wirePacket packet =>
    have hone : wirePackets [.wirePacket packet] = [packet] := rfl
    rw [hone, PacketByteCounts.of_concat, Peer.recv, h]
  | lsa | lsaAck =>
    simp only [Peer.recv, h]
    rw [wirePackets, wirePackets]
    simp

theorem counted_handle {actions : List PeerAction} {tx : PacketByteCounts}
    (h : peer.stats = ⟨tx, .of (forwarded actions)⟩) (message : NodeMessage) :
    (peer.handleNodeMessage message).1.stats =
      ⟨tx, .of (forwarded (actions ++ [(peer.handleNodeMessage message).2]))⟩ := by
  rw [forwarded_append]
  cases message with
  | wirePacket packet =>
    have hone : forwarded [.forwardPacket packet peer.connectionId] = [packet] := rfl
    simp only [Peer.handleNodeMessage, h]
    rw [hone, PacketByteCounts.of_concat]
  | lsa | lsaAck =>
    simp only [Peer.handleNodeMessage, h]
    simp [forwarded]

/-- Writing a frame changes nothing that is counted. -/
theorem send_counted {message : DummyMessage} (h : e.send message = some e') :
    e'.sent = e.sent ∧ e'.actions = e.actions := by
  obtain ⟨-, rfl⟩ := send_eq_some_iff.mp h
  exact ⟨rfl, rfl⟩

theorem counted_onRemote (h : peer.stats = ⟨.of (wirePackets e.sent), .of (forwarded e.actions)⟩)
    (hstate : e.state = .connected peer hb) (now : Instant) (message : DummyMessage) :
    (e.onRemote peer hb now message).Counted := by
  cases message with
  | hello id =>
    simp only [onRemote, Counted, hstate]
    exact h
  | nodeMsg m => exact counted_handle h m
  | ping token =>
    rw [onRemote]
    split
    · next e₁ hsend =>
      obtain ⟨hsent, hactions⟩ := send_counted hsend
      simp only [Counted]
      rw [hsent, hactions]
      exact h
    · trivial
  | pong token => exact h
  | shutdown => trivial

theorem counted_onTick (h : peer.stats = ⟨.of (wirePackets e.sent), .of (forwarded e.actions)⟩)
    (hstate : e.state = .connected peer hb) (now : Instant) : (e.onTick peer hb now).Counted := by
  unfold onTick
  split
  · trivial
  · split
    · dsimp only
      split
      · next e₁ hsend =>
        obtain ⟨hsent, hactions⟩ := send_counted hsend
        simp only [Counted]
        rw [hsent, hactions]
        exact h
      · trivial
    · simp only [Counted, hstate]
      exact h

theorem counted_stopLink (peer : Option Peer) (kind : DummyPeerStop) :
    (e.stopLink peer kind).Counted := by
  cases kind <;> cases peer <;> trivial

theorem Counted.step_handshake (h : e.Counted) (hstate : e.state = .handshake)
    (hstep : e.step event = some e') : e'.Counted := by
  simp only [Counted, hstate] at h
  obtain ⟨hsent, hactions⟩ := h
  cases event with
  | handshakeTimeout | readError =>
    simp only [DummyEnd.step, hstate] at hstep
    cases hstep
    trivial
  | read now =>
    simp only [DummyEnd.step, hstate] at hstep
    rcases hread : e.incoming.read with _ | ⟨message | _, incoming⟩
    · simp [hread] at hstep
    · rw [hread] at hstep
      cases hstep
      cases message with
      | hello id =>
        simp only [onHello, register, Peer.registerPeer, Counted]
        rw [hsent, hactions]
        rfl
      | nodeMsg | ping | pong | shutdown => trivial
    · rw [hread] at hstep
      cases hstep
      trivial
  | stop kind =>
    simp only [DummyEnd.step, hstate] at hstep
    obtain ⟨-, hstep⟩ := Option.ite_none_right_eq_some.mp hstep
    cases hstep
    exact counted_stopLink none kind
  | killDropped =>
    simp only [DummyEnd.step, hstate] at hstep
    obtain ⟨-, hstep⟩ := Option.ite_none_right_eq_some.mp hstep
    cases hstep
    simp only [Counted]
    exact ⟨hsent, hactions⟩
  | _ => simp [DummyEnd.step, hstate] at hstep

theorem Counted.step_connected (h : e.Counted) (hstate : e.state = .connected peer hb)
    (hstep : e.step event = some e') : e'.Counted := by
  simp only [Counted, hstate] at h
  cases event with
  | readError | recvClosed =>
    simp only [DummyEnd.step, hstate] at hstep
    cases hstep
    trivial
  | read now =>
    simp only [DummyEnd.step, hstate] at hstep
    rcases hread : e.incoming.read with _ | ⟨message | _, incoming⟩
    · simp [hread] at hstep
    · rw [hread] at hstep
      cases hstep
      exact counted_onRemote (e := { e with incoming := incoming, state := .connected peer hb })
        h rfl now message
    · rw [hread] at hstep
      cases hstep
      trivial
  | recv message =>
    simp only [DummyEnd.step, hstate] at hstep
    cases hsend : e.send (.nodeMsg message) with
    | none =>
      rw [hsend] at hstep
      cases hstep
      trivial
    | some e₁ =>
      rw [hsend] at hstep
      cases hstep
      obtain ⟨hsent, hactions⟩ := send_counted hsend
      simp only [Counted]
      rw [hsent, hactions]
      exact counted_recv h message
  | tick now =>
    simp only [DummyEnd.step, hstate] at hstep
    obtain ⟨-, hstep⟩ := Option.ite_none_right_eq_some.mp hstep
    cases hstep
    exact counted_onTick h hstate now
  | stop kind =>
    simp only [DummyEnd.step, hstate] at hstep
    obtain ⟨-, hstep⟩ := Option.ite_none_right_eq_some.mp hstep
    cases hstep
    exact counted_stopLink _ kind
  | killDropped =>
    simp only [DummyEnd.step, hstate] at hstep
    obtain ⟨-, hstep⟩ := Option.ite_none_right_eq_some.mp hstep
    cases hstep
    simp only [Counted]
    exact h
  | _ => simp [DummyEnd.step, hstate] at hstep

theorem counted_step_silent {peer : Option Peer} (hstate : e.state = .silent peer)
    (hstep : e.step event = some e') : e'.Counted := by
  cases event with
  | read now =>
    simp only [DummyEnd.step, hstate] at hstep
    rcases hread : e.incoming.read with _ | ⟨message | _, incoming⟩
    · simp [hread] at hstep
    · rw [hread] at hstep
      cases hstep
      trivial
    · rw [hread] at hstep
      cases peer <;> (cases hstep; trivial)
  | readError =>
    cases peer with
    | none =>
      simp only [DummyEnd.step, hstate] at hstep
      cases hstep
      simp only [Counted, hstate]
    | some peer =>
      simp only [DummyEnd.step, hstate] at hstep
      cases hstep
      trivial
  | recv | recvClosed =>
    cases peer with
    | none => simp [DummyEnd.step, hstate] at hstep
    | some peer =>
      simp only [DummyEnd.step, hstate] at hstep
      cases hstep
      trivial
  | _ => cases peer <;> simp [DummyEnd.step, hstate] at hstep

/-- Every step keeps the counts. -/
theorem Counted.step (h : e.Counted) (hstep : e.step event = some e') : e'.Counted := by
  cases hstate : e.state with
  | start =>
    simp only [Counted, hstate] at h
    cases event with
    | sendHello =>
      simp only [DummyEnd.step, hstate] at hstep
      cases hsend : e.send (.hello e.ourId) with
      | none =>
        rw [hsend] at hstep
        cases hstep
        trivial
      | some e₁ =>
        rw [hsend] at hstep
        cases hstep
        obtain ⟨hsent, hactions⟩ := send_counted hsend
        simp only [Counted]
        rw [hsent, hactions]
        exact h
    | _ => simp [DummyEnd.step, hstate] at hstep
  | handshake => exact h.step_handshake hstate hstep
  | connected peer hb => exact h.step_connected hstate hstep
  | silent peer => exact counted_step_silent hstate hstep
  | ended => simp [DummyEnd.step, hstate] at hstep

end DummyEnd

namespace DummyLink

variable {l : DummyLink} {side : Bool}

theorem counted (h : machine.Reaches (fun _ _ => True) l) (side : Bool) : (l.ends side).Counted := by
  refine h.invariant (P := fun l => ∀ side, (l.ends side).Counted) ?_ ?_ side
  · intro l hfresh side
    obtain ⟨ourId, connectionId, cost, realms, hend⟩ := hfresh side
    rw [hend]
    exact ⟨rfl, rfl⟩
  · rintro l ⟨side, event⟩ l' hcounted - hstep s
    obtain ⟨e, hend, rfl⟩ := step_eq_some_iff.mp hstep
    rcases Bool.eq_or_eq_not s side with rfl | rfl
    · rw [put_same]
      exact (hcounted s).step hend
    · rw [put_other]
      exact hcounted !side

/-- While both ends are connected, what one has counted as sent is what the other has counted
as received, and the packets on the way between them. -/
theorem counts_conserved (h : machine.Reaches (fun _ _ => True) l) (side : Bool) {peer peer' : Peer}
    (hside : (l.ends side).connectedPeer = some peer)
    (hother : (l.ends !side).connectedPeer = some peer') :
    let onWay := PacketByteCounts.of (wirePackets (nodeMsgs (l.ends !side).incoming.frames))
    peer.stats.tx.packets = peer'.stats.rx.packets + onWay.packets ∧
      peer.stats.tx.bytes = peer'.stats.rx.bytes + onWay.bytes := by
  obtain ⟨_, hside⟩ := DummyEnd.connectedPeer_eq_some_iff.mp hside
  obtain ⟨_, hother⟩ := DummyEnd.connectedPeer_eq_some_iff.mp hother
  have htx := counted h side
  have hrx := counted h !side
  simp only [DummyEnd.Counted, hside, hother] at htx hrx
  have hinv := inv h !side
  simp only [DummyEnd.Inv, hother] at hinv
  obtain ⟨got, hin⟩ := hinv
  obtain ⟨-, hsent⟩ := taken_hello (inv h !!side) hin.taken
  rw [Bool.not_not, List.append_nil] at hsent
  rw [htx, hrx, hsent, hin.actions, DummyEnd.opening, forwarded_registerPeer, forwarded_ofNode,
    wirePackets_append, PacketByteCounts.of_append]
  exact ⟨rfl, rfl⟩

/-- Node 1 has sent two packets, of which node 2 has read the first. -/
theorem counts_of_packets : ∃ (l : DummyLink) (peer peer' : Peer),
    peer.stats.tx = ⟨5, 2⟩ ∧ peer'.stats.rx = ⟨3, 1⟩ ∧
      let onWay := PacketByteCounts.of (wirePackets (nodeMsgs (l.ends true).incoming.frames))
      peer.stats.tx.packets = peer'.stats.rx.packets + onWay.packets ∧
        peer.stats.tx.bytes = peer'.stats.rx.bytes + onWay.bytes := by
  have hend : (Machine.run step (fun _ _ => True) twoNodes
      [(false, .sendHello), (true, .sendHello), (true, .read 0), (false, .read 0),
        (false, .recv (.wirePacket ⟨.endpoint 2, none, 1, [7, 8, 9]⟩)),
        (false, .recv (.wirePacket ⟨.endpoint 2, none, 1, [6, 5]⟩)), (true, .read 5)]).map
      (fun l => ((l.ends false).connectedPeer.map Peer.stats,
        (l.ends true).connectedPeer.map Peer.stats)) =
      some (some ⟨⟨5, 2⟩, ⟨0, 0⟩⟩, some ⟨⟨0, 0⟩, ⟨3, 1⟩⟩) := by
    decide +kernel
  obtain ⟨l, hrun, hend⟩ := Option.map_eq_some_iff.mp hend
  simp only [Prod.mk.injEq] at hend
  obtain ⟨peer, hpeer, hstats⟩ := Option.map_eq_some_iff.mp hend.1
  obtain ⟨peer', hpeer', hstats'⟩ := Option.map_eq_some_iff.mp hend.2
  refine ⟨l, peer, peer', by rw [hstats], by rw [hstats'], ?_⟩
  exact counts_conserved (twoNodes_reaches _ hrun) false hpeer hpeer'

end DummyLink

end Anybus
