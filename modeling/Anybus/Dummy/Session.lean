import Anybus.Peers.DummyPeer

/-!
# The session at one end of a dummy link

Whatever an end wakes up for, it has told its router nothing before it has read the hello of
the other end, then registers that peer, hands on the messages it reads in the order of the
frames, and unregisters the peer as the last thing before it is over.
-/

namespace Anybus

/-- The messages of the router among the frames. -/
def nodeMsgs (frames : List DummyMessage) : List NodeMessage := frames.filterMap fun
  | .nodeMsg message => some message
  | .hello _ | .ping _ | .pong _ | .shutdown => none

@[simp] theorem nodeMsgs_nil : nodeMsgs [] = [] := rfl

@[simp] theorem nodeMsgs_append (l l' : List DummyMessage) :
    nodeMsgs (l ++ l') = nodeMsgs l ++ nodeMsgs l' := List.filterMap_append

@[simp] theorem nodeMsgs_hello (id : NodeId) (l : List DummyMessage) :
    nodeMsgs (.hello id :: l) = nodeMsgs l := rfl

/-- What a session does with a message of its peer. -/
def PeerAction.ofNode (connectionId : ConnectionId) : NodeMessage → PeerAction
  | .wirePacket packet => .forwardPacket packet connectionId
  | .lsa lsa => .lsaInbound connectionId lsa
  | .lsaAck key seq => .lsaAckInbound connectionId key seq

theorem Peer.handleNodeMessage_action (peer : Peer) (message : NodeMessage) :
    (peer.handleNodeMessage message).2 = .ofNode peer.connectionId message := by
  cases message <;> rfl

theorem Peer.handleNodeMessage_ids (peer : Peer) (message : NodeMessage) :
    (peer.handleNodeMessage message).1.peerId = peer.peerId ∧
      (peer.handleNodeMessage message).1.connectionId = peer.connectionId := by
  cases message <;> exact ⟨rfl, rfl⟩

theorem Peer.recv_ids (peer : Peer) (message : NodeMessage) :
    (peer.recv message).peerId = peer.peerId ∧ (peer.recv message).connectionId = peer.connectionId := by
  cases message <;> exact ⟨rfl, rfl⟩

namespace DummyEnd

variable {e e' : DummyEnd} {peer : Peer} {got junk : List DummyMessage} {message : DummyMessage}

/-- The end has said hello first, and the messages it has written are those it has sent. -/
structure Said (e : DummyEnd) : Prop where
  hello : ∃ rest, e.outgoing.written = .hello e.ourId :: rest
  sent : e.sent = nodeMsgs e.outgoing.written

/-- The registration and what was made of the messages read so far. -/
def opening (e : DummyEnd) (peerId : NodeId) (got : List DummyMessage) : List PeerAction :=
  .registerPeer peerId e.connectionId e.cost e.realms :: (nodeMsgs got).map (.ofNode e.connectionId)

/-- The end has registered the peer whose hello it has read, and has made something of the
frames `got`; those behind them were dropped. -/
structure InSession (e : DummyEnd) (peer : Peer) (got junk : List DummyMessage) : Prop where
  said : e.Said
  connectionId : peer.connectionId = e.connectionId
  taken : e.incoming.taken = .hello peer.peerId :: (got ++ junk)
  actions : e.actions = e.opening peer.peerId got

/-- The end has told its router nothing. -/
structure Outside (e : DummyEnd) : Prop where
  actions : e.actions = []
  said : e.Said ∨ e.sent = [] ∧ e.outgoing.written = []

/-- The task is over. If a peer was registered, it is unregistered. -/
structure Over (e : DummyEnd) : Prop where
  reader : e.incoming.readerGone = true
  writer : e.outgoing.writerGone = true
  story : e.Outside ∨ ∃ peerId got junk, e.Said ∧
    e.incoming.taken = .hello peerId :: (got ++ junk) ∧
    e.actions = e.opening peerId got ++ [.unRegisterPeer e.connectionId]

/-- What holds of an end at each of its stages. -/
def Inv (e : DummyEnd) : Prop :=
  match e.state with
  | .start => e.actions = [] ∧ e.sent = [] ∧ e.incoming.taken = [] ∧ e.outgoing.written = []
  | .handshake => e.actions = [] ∧ e.Said ∧ e.incoming.taken = []
  | .connected peer _ => ∃ got, e.InSession peer got []
  | .silent (some peer) => ∃ got junk, e.InSession peer got junk
  | .silent none => e.actions = [] ∧ e.Said
  | .ended => e.Over

theorem send_eq_some_iff : e.send message = some e' ↔ e.outgoing.readerGone = false ∧
    e' = { e with outgoing := { e.outgoing with frames := e.outgoing.frames ++ [message] } } := by
  simp only [send, Option.map_eq_some_iff, Pipe.write_eq_some_iff]
  constructor
  · rintro ⟨p, ⟨hgone, rfl⟩, rfl⟩
    exact ⟨hgone, rfl⟩
  · rintro ⟨hgone, rfl⟩
    exact ⟨_, ⟨hgone, rfl⟩, rfl⟩

theorem send_eq_none_iff : e.send message = none ↔ e.outgoing.readerGone = true := by
  cases hgone : e.outgoing.readerGone <;> simp [send, Pipe.write, hgone]

/-- A frame that carries no message of the router. -/
theorem Said.send (h : e.Said) (hsend : e.send message = some e') (hmsg : nodeMsgs [message] = []) :
    e'.Said := by
  obtain ⟨-, rfl⟩ := send_eq_some_iff.mp hsend
  obtain ⟨rest, hhello⟩ := h.hello
  refine ⟨⟨rest ++ [message], ?_⟩, ?_⟩
  · rw [Pipe.written_push, hhello, List.cons_append]
  · rw [Pipe.written_push, nodeMsgs_append, hmsg, List.append_nil]
    exact h.sent

/-- A message of the router. -/
theorem Said.sendNode (h : e.Said) {m : NodeMessage} (hsend : e.send (.nodeMsg m) = some e')
    (state : DummyState) : { e' with state := state, sent := e'.sent ++ [m] }.Said := by
  obtain ⟨-, rfl⟩ := send_eq_some_iff.mp hsend
  obtain ⟨rest, hhello⟩ := h.hello
  refine ⟨⟨rest ++ [.nodeMsg m], ?_⟩, ?_⟩
  · rw [Pipe.written_push, hhello, List.cons_append]
  · rw [Pipe.written_push, nodeMsgs_append, ← h.sent]
    rfl

/-- An end that has told its router nothing is over. -/
theorem Outside.finish (h : e.Outside) : e.finish.Over :=
  ⟨rfl, rfl, Or.inl ⟨h.actions, h.said.imp (fun said => ⟨said.hello, said.sent⟩) id⟩⟩

namespace InSession

/-- The peer is unregistered, and the end is over. -/
theorem unregister (h : e.InSession peer got junk) : (e.unregister peer).Over := by
  refine ⟨rfl, rfl, Or.inr ⟨peer.peerId, got, junk, ⟨h.said.hello, h.said.sent⟩, h.taken, ?_⟩⟩
  have hactions : e.actions ++ [peer.unregister] =
      e.opening peer.peerId got ++ [.unRegisterPeer e.connectionId] := by
    rw [h.actions, Peer.unregister, h.connectionId]
  exact hactions

/-- A frame is written that carries no message of the router. -/
theorem send (h : e.InSession peer got junk) (hsend : e.send message = some e')
    (hmsg : nodeMsgs [message] = []) (state : DummyState) :
    { e' with state := state }.InSession peer got junk := by
  have hsaid := h.said.send hsend hmsg
  obtain ⟨-, rfl⟩ := send_eq_some_iff.mp hsend
  exact ⟨⟨hsaid.hello, hsaid.sent⟩, h.connectionId, h.taken, h.actions⟩

theorem sendOk (h : e.InSession peer got junk) (hmsg : nodeMsgs [message] = []) :
    (e.sendOk message).InSession peer got junk := by
  unfold DummyEnd.sendOk
  cases hsend : e.send message with
  | none => exact h
  | some e' => exact h.send hsend hmsg e'.state

/-- A message of the router is written. -/
theorem sendNode (h : e.InSession peer got junk) {m : NodeMessage}
    (hsend : e.send (.nodeMsg m) = some e') (state : DummyState) :
    { e' with state := state, sent := e'.sent ++ [m] }.InSession (peer.recv m) got junk := by
  have hsaid := h.said.sendNode hsend state
  obtain ⟨hpeer, hconn⟩ := peer.recv_ids m
  obtain ⟨-, rfl⟩ := send_eq_some_iff.mp hsend
  refine ⟨hsaid, hconn.trans h.connectionId, ?_, ?_⟩
  · rw [hpeer]
    exact h.taken
  · rw [hpeer]
    exact h.actions

/-- A message of the router is counted. -/
theorem recv (h : e.InSession peer got junk) (m : NodeMessage) :
    e.InSession (peer.recv m) got junk := by
  obtain ⟨hpeer, hconn⟩ := peer.recv_ids m
  refine ⟨h.said, hconn.trans h.connectionId, ?_, ?_⟩
  · rw [hpeer]
    exact h.taken
  · rw [hpeer]
    exact h.actions

/-- A frame is read and dropped. -/
theorem discard (h : e.InSession peer got junk) {incoming : Pipe DummyMessage}
    (hread : e.incoming.read = some (.frame message, incoming)) (state : DummyState) :
    { e with incoming := incoming, state := state }.InSession peer got (junk ++ [message]) := by
  obtain ⟨rest, -, rfl⟩ := Pipe.read_eq_frame_iff.mp hread
  refine ⟨⟨h.said.hello, h.said.sent⟩, h.connectionId, ?_, h.actions⟩
  rw [h.taken, List.cons_append, List.append_assoc]

/-- A frame is read that carries no message of the router. -/
theorem read (h : e.InSession peer got []) {incoming : Pipe DummyMessage}
    (hread : e.incoming.read = some (.frame message, incoming)) (hmsg : nodeMsgs [message] = [])
    (state : DummyState) :
    { e with incoming := incoming, state := state }.InSession peer (got ++ [message]) [] := by
  obtain ⟨rest, -, rfl⟩ := Pipe.read_eq_frame_iff.mp hread
  refine ⟨⟨h.said.hello, h.said.sent⟩, h.connectionId, ?_, ?_⟩
  · rw [h.taken, List.append_nil, List.append_nil, List.cons_append]
  · rw [h.actions, opening, opening, nodeMsgs_append, hmsg, List.append_nil]

/-- A message of the peer is read and handed on. -/
theorem readNode (h : e.InSession peer got []) {incoming : Pipe DummyMessage} {m : NodeMessage}
    (hread : e.incoming.read = some (.frame (.nodeMsg m), incoming)) (state : DummyState) :
    { e with
      incoming := incoming, state := state
      actions := e.actions ++ [(peer.handleNodeMessage m).2] }.InSession
        (peer.handleNodeMessage m).1 (got ++ [DummyMessage.nodeMsg m]) [] := by
  obtain ⟨hpeer, hconn⟩ := peer.handleNodeMessage_ids m
  obtain ⟨rest, -, rfl⟩ := Pipe.read_eq_frame_iff.mp hread
  refine ⟨⟨h.said.hello, h.said.sent⟩, hconn.trans h.connectionId, ?_, ?_⟩
  · rw [hpeer, h.taken, List.append_nil, List.append_nil, List.cons_append]
  · have hnode : nodeMsgs (got ++ [.nodeMsg m]) = nodeMsgs got ++ [m] := nodeMsgs_append _ _
    rw [hpeer, h.actions, Peer.handleNodeMessage_action, h.connectionId, opening, opening, hnode,
      List.map_append, List.cons_append]
    rfl

/-- A frame of the peer is handled. -/
theorem onRemote {hb : Heartbeat} (h : e.InSession peer got []) {incoming : Pipe DummyMessage}
    (hread : e.incoming.read = some (.frame message, incoming)) (now : Instant)
    (hstate : e.state = .connected peer hb) :
    ({ e with incoming := incoming }.onRemote peer hb now message).Inv := by
  cases message with
  | nodeMsg m => exact ⟨_, h.readNode hread _⟩
  | ping token =>
    have hin := h.read hread rfl e.state
    rw [DummyEnd.onRemote]
    split
    · next e' hsend => exact ⟨_, hin.send hsend rfl _⟩
    · exact hin.unregister
  | pong token => exact ⟨_, h.read hread rfl _⟩
  | hello id =>
    rw [DummyEnd.onRemote, Inv, hstate]
    exact ⟨_, h.read hread rfl (.connected peer hb)⟩
  | shutdown => exact (h.read hread rfl e.state).unregister

theorem onTick {hb : Heartbeat} (h : e.InSession peer got []) (now : Instant)
    (hstate : e.state = .connected peer hb) : (e.onTick peer hb now).Inv := by
  unfold DummyEnd.onTick
  split
  · exact h.unregister
  · split
    · dsimp only
      split
      · next e' hsend => exact ⟨_, h.send hsend rfl _⟩
      · exact h.unregister
    · rw [Inv, hstate]
      exact ⟨_, h⟩

/-- The owner closes an end with a peer. -/
theorem stopLink (h : e.InSession peer got []) (kind : DummyPeerStop) :
    (e.stopLink (some peer) kind).Inv := by
  have hkill : { e with killOpen := false }.InSession peer got [] :=
    ⟨⟨h.said.hello, h.said.sent⟩, h.connectionId, h.taken, h.actions⟩
  cases kind with
  | shutdown => exact (hkill.sendOk rfl).unregister
  | silence =>
    exact ⟨got, [], ⟨h.said.hello, h.said.sent⟩, h.connectionId, h.taken, h.actions⟩
  | drop => exact hkill.unregister

end InSession

/-- The hello of the other end is read. -/
theorem Said.onHello (h : e.Said) (hactions : e.actions = []) (htaken : e.incoming.taken = [])
    {incoming : Pipe DummyMessage} (hread : e.incoming.read = some (.frame message, incoming))
    (now : Instant) : ({ e with incoming := incoming }.onHello now message).Inv := by
  obtain ⟨rest, -, rfl⟩ := Pipe.read_eq_frame_iff.mp hread
  cases message with
  | hello id =>
    refine ⟨[], ⟨h.hello, h.sent⟩, rfl, ?_, ?_⟩
    · simp [DummyEnd.onHello, register, Peer.registerPeer, htaken]
    · simp [DummyEnd.onHello, register, Peer.registerPeer, hactions, opening]
  | nodeMsg | ping | pong | shutdown => exact Outside.finish ⟨hactions, Or.inl ⟨h.hello, h.sent⟩⟩

/-- The owner closes an end during the handshake. -/
theorem Said.stopLink (h : e.Said) (hactions : e.actions = []) (kind : DummyPeerStop) :
    (e.stopLink none kind).Inv := by
  cases kind with
  | shutdown =>
    refine Outside.finish ⟨?_, Or.inl ?_⟩
    · unfold sendOk
      cases hsend : { e with killOpen := false }.send .shutdown with
      | none => exact hactions
      | some e' =>
        obtain ⟨-, rfl⟩ := send_eq_some_iff.mp hsend
        exact hactions
    · unfold sendOk
      have hsaid : { e with killOpen := false }.Said := ⟨h.hello, h.sent⟩
      cases hsend : { e with killOpen := false }.send .shutdown with
      | none => exact hsaid
      | some e' => exact hsaid.send hsend rfl
  | silence => exact ⟨hactions, h.hello, h.sent⟩
  | drop => exact Outside.finish ⟨hactions, Or.inl ⟨h.hello, h.sent⟩⟩

variable {event : DummyEvent}

theorem Inv.step_start (h : e.Inv) (hstate : e.state = .start) (hstep : e.step event = some e') :
    e'.Inv := by
  simp only [Inv, hstate] at h
  obtain ⟨hactions, hsent, htaken, hwritten⟩ := h
  cases event with
  | sendHello =>
    simp only [DummyEnd.step, hstate] at hstep
    cases hsend : e.send (.hello e.ourId) with
    | none =>
      rw [hsend] at hstep
      cases hstep
      exact Outside.finish ⟨hactions, Or.inr ⟨hsent, hwritten⟩⟩
    | some e₁ =>
      rw [hsend] at hstep
      cases hstep
      obtain ⟨-, rfl⟩ := send_eq_some_iff.mp hsend
      refine ⟨hactions, ⟨⟨[], ?_⟩, ?_⟩, htaken⟩
      · rw [Pipe.written_push, hwritten, List.nil_append]
      · rw [Pipe.written_push, hwritten, hsent]
        rfl
  | _ => simp [DummyEnd.step, hstate] at hstep

theorem Inv.step_handshake (h : e.Inv) (hstate : e.state = .handshake)
    (hstep : e.step event = some e') : e'.Inv := by
  simp only [Inv, hstate] at h
  obtain ⟨hactions, hsaid, htaken⟩ := h
  cases event with
  | handshakeTimeout | readError =>
    simp only [DummyEnd.step, hstate] at hstep
    cases hstep
    exact Outside.finish ⟨hactions, Or.inl hsaid⟩
  | read now =>
    simp only [DummyEnd.step, hstate] at hstep
    rcases hread : e.incoming.read with _ | ⟨message | _, incoming⟩
    · simp [hread] at hstep
    · rw [hread] at hstep
      cases hstep
      exact hsaid.onHello hactions htaken hread now
    · rw [hread] at hstep
      cases hstep
      exact Outside.finish ⟨hactions, Or.inl hsaid⟩
  | stop kind =>
    simp only [DummyEnd.step, hstate] at hstep
    obtain ⟨-, hstep⟩ := Option.ite_none_right_eq_some.mp hstep
    cases hstep
    exact hsaid.stopLink hactions kind
  | killDropped =>
    simp only [DummyEnd.step, hstate] at hstep
    obtain ⟨-, hstep⟩ := Option.ite_none_right_eq_some.mp hstep
    cases hstep
    simp only [Inv]
    exact ⟨hactions, ⟨hsaid.hello, hsaid.sent⟩, htaken⟩
  | _ => simp [DummyEnd.step, hstate] at hstep

theorem Inv.step_connected {hb : Heartbeat} (h : e.Inv) (hstate : e.state = .connected peer hb)
    (hstep : e.step event = some e') : e'.Inv := by
  simp only [Inv, hstate] at h
  obtain ⟨got, hin⟩ := h
  cases event with
  | readError | recvClosed =>
    simp only [DummyEnd.step, hstate] at hstep
    cases hstep
    exact hin.unregister
  | read now =>
    simp only [DummyEnd.step, hstate] at hstep
    rcases hread : e.incoming.read with _ | ⟨message | _, incoming⟩
    · simp [hread] at hstep
    · rw [hread] at hstep
      cases hstep
      have hinv := hin.onRemote hread now hstate
      rw [hstate] at hinv
      exact hinv
    · rw [hread] at hstep
      cases hstep
      exact hin.unregister
  | recv message =>
    simp only [DummyEnd.step, hstate] at hstep
    cases hsend : e.send (.nodeMsg message) with
    | none =>
      rw [hsend] at hstep
      cases hstep
      exact (hin.recv message).unregister
    | some e₁ =>
      rw [hsend] at hstep
      cases hstep
      exact ⟨got, hin.sendNode hsend _⟩
  | tick now =>
    simp only [DummyEnd.step, hstate] at hstep
    obtain ⟨-, hstep⟩ := Option.ite_none_right_eq_some.mp hstep
    cases hstep
    exact hin.onTick now hstate
  | stop kind =>
    simp only [DummyEnd.step, hstate] at hstep
    obtain ⟨-, hstep⟩ := Option.ite_none_right_eq_some.mp hstep
    cases hstep
    exact hin.stopLink kind
  | killDropped =>
    simp only [DummyEnd.step, hstate] at hstep
    obtain ⟨-, hstep⟩ := Option.ite_none_right_eq_some.mp hstep
    cases hstep
    simp only [Inv]
    exact ⟨got, ⟨hin.said.hello, hin.said.sent⟩, hin.connectionId, hin.taken, hin.actions⟩
  | _ => simp [DummyEnd.step, hstate] at hstep

theorem Inv.step_silent_none (h : e.Inv) (hstate : e.state = .silent none)
    (hstep : e.step event = some e') : e'.Inv := by
  simp only [Inv, hstate] at h
  obtain ⟨hactions, hsaid⟩ := h
  cases event with
  | read now =>
    simp only [DummyEnd.step, hstate] at hstep
    rcases hread : e.incoming.read with _ | ⟨message | _, incoming⟩
    · simp [hread] at hstep
    · rw [hread] at hstep
      cases hstep
      simp only [Inv]
      exact ⟨hactions, hsaid.hello, hsaid.sent⟩
    · rw [hread] at hstep
      cases hstep
      exact Outside.finish ⟨hactions, Or.inl hsaid⟩
  | readError =>
    simp only [DummyEnd.step, hstate] at hstep
    cases hstep
    simp only [Inv, hstate]
    exact ⟨hactions, hsaid⟩
  | _ => simp [DummyEnd.step, hstate] at hstep

theorem Inv.step_silent_some (h : e.Inv) (hstate : e.state = .silent (some peer))
    (hstep : e.step event = some e') : e'.Inv := by
  simp only [Inv, hstate] at h
  obtain ⟨got, junk, hin⟩ := h
  cases event with
  | read now =>
    simp only [DummyEnd.step, hstate] at hstep
    rcases hread : e.incoming.read with _ | ⟨message | _, incoming⟩
    · simp [hread] at hstep
    · rw [hread] at hstep
      cases hstep
      simp only [Inv]
      exact ⟨got, junk ++ [message], hin.discard hread _⟩
    · rw [hread] at hstep
      cases hstep
      exact hin.unregister
  | readError | recvClosed =>
    simp only [DummyEnd.step, hstate] at hstep
    cases hstep
    exact hin.unregister
  | recv message =>
    simp only [DummyEnd.step, hstate] at hstep
    cases hstep
    simp only [Inv]
    exact ⟨got, junk, ⟨hin.said.hello, hin.said.sent⟩, (hin.recv message).connectionId,
      (hin.recv message).taken, (hin.recv message).actions⟩
  | _ => simp [DummyEnd.step, hstate] at hstep

/-- Every step keeps what holds of an end. -/
theorem Inv.step (h : e.Inv) (hstep : e.step event = some e') : e'.Inv := by
  cases hstate : e.state with
  | start => exact h.step_start hstate hstep
  | handshake => exact h.step_handshake hstate hstep
  | connected peer hb => exact h.step_connected hstate hstep
  | silent peer =>
    cases peer with
    | none => exact h.step_silent_none hstate hstep
    | some peer => exact h.step_silent_some hstate hstep
  | ended => simp [DummyEnd.step, hstate] at hstep

/-- What holds of an end does not depend on what the other end does with the stream. -/
theorem Inv.of_stream (h : e.Inv) {incoming outgoing : Pipe DummyMessage}
    (htaken : incoming.taken = e.incoming.taken)
    (hreader : incoming.readerGone = e.incoming.readerGone)
    (hwritten : outgoing.written = e.outgoing.written)
    (hwriter : outgoing.writerGone = e.outgoing.writerGone) :
    { e with incoming := incoming, outgoing := outgoing }.Inv := by
  have hsaid : ∀ state, e.Said →
      { e with state := state, incoming := incoming, outgoing := outgoing }.Said := by
    intro state said
    obtain ⟨rest, hhello⟩ := said.hello
    refine ⟨⟨rest, hwritten.trans hhello⟩, ?_⟩
    rw [hwritten]
    exact said.sent
  have hin : ∀ state peer got junk, e.InSession peer got junk →
      { e with state := state, incoming := incoming, outgoing := outgoing }.InSession
        peer got junk := by
    intro state peer got junk h
    exact ⟨hsaid state h.said, h.connectionId, htaken.trans h.taken, h.actions⟩
  cases hstate : e.state with
  | start =>
    simp only [Inv, hstate] at h ⊢
    exact ⟨h.1, h.2.1, htaken.trans h.2.2.1, hwritten.trans h.2.2.2⟩
  | handshake =>
    simp only [Inv, hstate] at h ⊢
    exact ⟨h.1, hsaid _ h.2.1, htaken.trans h.2.2⟩
  | connected peer hb =>
    simp only [Inv, hstate] at h ⊢
    obtain ⟨got, h⟩ := h
    exact ⟨got, hin _ _ _ _ h⟩
  | silent peer =>
    cases peer with
    | none =>
      simp only [Inv, hstate] at h ⊢
      exact ⟨h.1, hsaid _ h.2⟩
    | some peer =>
      simp only [Inv, hstate] at h ⊢
      obtain ⟨got, junk, h⟩ := h
      exact ⟨got, junk, hin _ _ _ _ h⟩
  | ended =>
    simp only [Inv, hstate] at h ⊢
    refine ⟨hreader.trans h.reader, hwriter.trans h.writer, ?_⟩
    rcases h.story with hout | ⟨peerId, got, junk, said, htaken', hactions⟩
    · refine Or.inl ⟨hout.actions, hout.said.imp (hsaid _) ?_⟩
      rintro ⟨hsent, hnone⟩
      exact ⟨hsent, hwritten.trans hnone⟩
    · exact Or.inr ⟨peerId, got, junk, hsaid _ said, htaken.trans htaken', hactions⟩

/-- What a step leaves as it is: who the end is, and of the stream what the other end does. -/
structure Keeps (e e' : DummyEnd) : Prop where
  ids : e'.ourId = e.ourId ∧ e'.connectionId = e.connectionId
  frames : e'.incoming.frames.length ≤ e.incoming.frames.length
  taken : e'.outgoing.taken = e.outgoing.taken
  readerGone : e'.outgoing.readerGone = e.outgoing.readerGone
  written : e'.incoming.written = e.incoming.written
  writerGone : e'.incoming.writerGone = e.incoming.writerGone

namespace Keeps

theorem refl (e : DummyEnd) : e.Keeps e := ⟨⟨rfl, rfl⟩, Nat.le_refl _, rfl, rfl, rfl, rfl⟩

theorem trans {e'' : DummyEnd} (h : e.Keeps e') (h' : e'.Keeps e'') : e.Keeps e'' := by
  obtain ⟨ids, frames, taken, readerGone, written, writerGone⟩ := h
  obtain ⟨ids', frames', taken', readerGone', written', writerGone'⟩ := h'
  exact ⟨⟨ids'.1.trans ids.1, ids'.2.trans ids.2⟩, frames'.trans frames, taken'.trans taken,
    readerGone'.trans readerGone, written'.trans written, writerGone'.trans writerGone⟩

theorem finish (e : DummyEnd) : e.Keeps e.finish :=
  ⟨⟨rfl, rfl⟩, Nat.le_refl _, rfl, rfl, rfl, rfl⟩

theorem unregister (e : DummyEnd) (peer : Peer) : e.Keeps (e.unregister peer) :=
  ⟨⟨rfl, rfl⟩, Nat.le_refl _, rfl, rfl, rfl, rfl⟩

theorem send (h : e.send message = some e') : e.Keeps e' := by
  obtain ⟨-, rfl⟩ := send_eq_some_iff.mp h
  exact ⟨⟨rfl, rfl⟩, Nat.le_refl _, rfl, rfl, rfl, rfl⟩

theorem read {r : PipeRead DummyMessage} {incoming : Pipe DummyMessage}
    (h : e.incoming.read = some (r, incoming)) : e.Keeps { e with incoming := incoming } := by
  cases r with
  | frame a =>
    have hwritten := Pipe.written_read h
    obtain ⟨rest, hframes, rfl⟩ := Pipe.read_eq_frame_iff.mp h
    refine ⟨⟨rfl, rfl⟩, ?_, rfl, rfl, hwritten, rfl⟩
    rw [hframes]
    exact Nat.le_succ _
  | eof =>
    obtain ⟨-, -, rfl⟩ := Pipe.read_eq_eof_iff.mp h
    exact refl e

/-- What the session knows may change. -/
theorem update (e : DummyEnd) (state : DummyState) (killOpen : Bool) (actions : List PeerAction)
    (sent : List NodeMessage) :
    e.Keeps { e with state := state, killOpen := killOpen, actions := actions, sent := sent } :=
  ⟨⟨rfl, rfl⟩, Nat.le_refl _, rfl, rfl, rfl, rfl⟩

theorem onHello (e : DummyEnd) (now : Instant) (message : DummyMessage) :
    e.Keeps (e.onHello now message) := by
  cases message with
  | hello id => exact update e _ _ _ _
  | nodeMsg | ping | pong | shutdown => exact finish e

theorem onRemote (e : DummyEnd) (peer : Peer) (hb : Heartbeat) (now : Instant)
    (message : DummyMessage) : e.Keeps (e.onRemote peer hb now message) := by
  cases message with
  | hello id => exact refl e
  | nodeMsg | pong => exact update e _ _ _ _
  | ping token =>
    rw [DummyEnd.onRemote]
    split
    · next e₁ hsend => exact (send hsend).trans (update e₁ _ _ _ _)
    · exact unregister e peer
  | shutdown => exact unregister e peer

theorem onTick (e : DummyEnd) (peer : Peer) (hb : Heartbeat) (now : Instant) :
    e.Keeps (e.onTick peer hb now) := by
  unfold DummyEnd.onTick
  split
  · exact unregister e peer
  · split
    · dsimp only
      split
      · next e₁ hsend => exact (send hsend).trans (update e₁ _ _ _ _)
      · exact unregister e peer
    · exact refl e

theorem sendOk (e : DummyEnd) (message : DummyMessage) : e.Keeps (e.sendOk message) := by
  unfold DummyEnd.sendOk
  cases hsend : e.send message with
  | none => exact refl e
  | some e₁ => exact send hsend

theorem stopLink (e : DummyEnd) (peer : Option Peer) (kind : DummyPeerStop) :
    e.Keeps (e.stopLink peer kind) := by
  have hkill : e.Keeps { e with killOpen := false } := update e _ _ _ _
  cases kind with
  | shutdown =>
    cases peer with
    | none => exact (hkill.trans (sendOk _ _)).trans (finish _)
    | some peer => exact (hkill.trans (sendOk _ _)).trans (unregister _ _)
  | silence => exact update e _ _ _ _
  | drop =>
    cases peer with
    | none => exact hkill.trans (finish _)
    | some peer => exact hkill.trans (unregister _ _)

theorem step (hstep : e.step event = some e') : e.Keeps e' := by
  unfold DummyEnd.step at hstep
  split at hstep
  · split at hstep
    · next e₁ hsend =>
      cases hstep
      exact (send hsend).trans (update e₁ _ _ _ _)
    · cases hstep
      exact finish e
  · cases hstep
    exact finish e
  · split at hstep
    · next hread =>
      cases hstep
      exact (read hread).trans (onHello _ _ _)
    · cases hstep
      exact finish e
    · cases hstep
  · cases hstep
    exact finish e
  · obtain ⟨-, hstep⟩ := Option.ite_none_right_eq_some.mp hstep
    cases hstep
    exact stopLink e _ _
  · obtain ⟨-, hstep⟩ := Option.ite_none_right_eq_some.mp hstep
    cases hstep
    exact update e _ _ _ _
  · split at hstep
    · next hread =>
      cases hstep
      exact (read hread).trans (onRemote _ _ _ _ _)
    · cases hstep
      exact unregister e _
    · cases hstep
  · cases hstep
    exact unregister e _
  · dsimp only at hstep
    split at hstep
    · next e₁ hsend =>
      cases hstep
      exact (send hsend).trans (update e₁ _ _ _ _)
    · cases hstep
      exact unregister e _
  · cases hstep
    exact unregister e _
  · obtain ⟨-, hstep⟩ := Option.ite_none_right_eq_some.mp hstep
    cases hstep
    exact onTick e _ _ _
  · obtain ⟨-, hstep⟩ := Option.ite_none_right_eq_some.mp hstep
    cases hstep
    exact stopLink e _ _
  · obtain ⟨-, hstep⟩ := Option.ite_none_right_eq_some.mp hstep
    cases hstep
    exact update e _ _ _ _
  · split at hstep
    · next hread =>
      cases hstep
      exact read hread
    · split at hstep
      · cases hstep
        exact unregister e _
      · cases hstep
        exact finish e
    · cases hstep
  · cases hstep
    exact unregister e _
  · cases hstep
    exact refl e
  · cases hstep
    exact update e _ _ _ _
  · cases hstep
    exact unregister e _
  · cases hstep

end Keeps

end DummyEnd

end Anybus
