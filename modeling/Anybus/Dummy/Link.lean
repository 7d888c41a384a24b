import Anybus.Core.Machine
import Anybus.Dummy.Session

/-!
# Two ends of a dummy link

The two ends share the two directions of one stream and take their steps in any order. The
peer that an end registers is the other end, the messages of a router come out at the other
end in order and without loss or repetition as long as that end is connected, and when one
end is over the other follows.
-/

namespace Anybus

namespace DummyEnd

/-- An end that has a peer registered. -/
def Registered (e : DummyEnd) : Prop :=
  match e.state with
  | .connected _ _ | .silent (some _) => True
  | .start | .handshake | .silent none | .ended => False

instance decidableRegistered (e : DummyEnd) : Decidable e.Registered := by
  unfold Registered
  split <;> infer_instance

variable {e : DummyEnd}

/-- The peer of a connected end. -/
def connectedPeer (e : DummyEnd) : Option Peer :=
  match e.state with
  | .connected peer _ => some peer
  | .start | .handshake | .silent _ | .ended => none

theorem connectedPeer_eq_some_iff {peer : Peer} :
    e.connectedPeer = some peer ↔ ∃ hb, e.state = .connected peer hb := by
  unfold connectedPeer
  cases e.state <;> simp

/-- An end that has written anything has said hello first. -/
theorem Inv.said (h : e.Inv) : e.Said ∨ e.sent = [] ∧ e.outgoing.written = [] := by
  unfold Inv at h
  split at h
  · exact Or.inr ⟨h.2.1, h.2.2.2⟩
  · exact Or.inl h.2.1
  · obtain ⟨got, hin⟩ := h
    exact Or.inl hin.said
  · obtain ⟨got, junk, hin⟩ := h
    exact Or.inl hin.said
  · exact Or.inl h.2
  · rcases h.story with hout | ⟨_, _, _, said, -, -⟩
    · exact hout.said
    · exact Or.inl said

theorem Inv.sent (h : e.Inv) : e.sent = nodeMsgs e.outgoing.written := by
  rcases h.said with said | ⟨hsent, hwritten⟩
  · exact said.sent
  · rw [hsent, hwritten, nodeMsgs_nil]

/-- The first frame that an end writes is its hello. -/
theorem Inv.first (h : e.Inv) {message : DummyMessage} {rest : List DummyMessage}
    (hwritten : e.outgoing.written = message :: rest) : message = .hello e.ourId := by
  rcases h.said with said | ⟨-, hnone⟩
  · obtain ⟨rest', hhello⟩ := said.hello
    exact (List.cons.inj (hwritten.symm.trans hhello)).1
  · rw [hnone] at hwritten
    exact absurd hwritten (List.cons_ne_nil _ _).symm

/-- What an end with a peer tells its router when it is over. -/
def closing (e : DummyEnd) : List PeerAction :=
  if e.Registered then [] else [.unRegisterPeer e.connectionId]

/-- What an end has told its router, and the frames this came from. -/
theorem Inv.story (h : e.Inv) : e.actions = [] ∧ ¬ e.Registered ∨ ∃ peerId got junk,
    e.incoming.taken = .hello peerId :: (got ++ junk) ∧
      e.actions = e.opening peerId got ++ e.closing := by
  unfold closing Registered
  unfold Inv at h
  split at h
  · exact Or.inl ⟨h.1, by simp [*]⟩
  · exact Or.inl ⟨h.1, by simp [*]⟩
  · obtain ⟨got, hin⟩ := h
    refine Or.inr ⟨_, got, [], hin.taken, ?_⟩
    simp [*, hin.actions]
  · obtain ⟨got, junk, hin⟩ := h
    refine Or.inr ⟨_, got, junk, hin.taken, ?_⟩
    simp [*, hin.actions]
  · exact Or.inl ⟨h.1, by simp [*]⟩
  · rcases h.story with hout | ⟨peerId, got, junk, -, htaken, hactions⟩
    · exact Or.inl ⟨hout.actions, by simp [*]⟩
    · refine Or.inr ⟨peerId, got, junk, htaken, ?_⟩
      simp [*]

end DummyEnd

/-- Two ends of which each reads what the other writes. -/
structure DummyLink where
  ends : Bool → DummyEnd
  joined : ∀ side, (ends side).outgoing = (ends !side).incoming

namespace DummyLink

/-- The other end after a step of an end: its stream has changed. -/
def follow (e other : DummyEnd) : DummyEnd :=
  { other with incoming := e.outgoing, outgoing := e.incoming }

/-- One end has become `e`. -/
def put (l : DummyLink) (side : Bool) (e : DummyEnd) : DummyLink where
  ends s := if s = side then e else follow e (l.ends s)
  joined s := by cases s <;> cases side <;> rfl

/-- An end and what it wakes up for. -/
abbrev LinkEvent := Bool × DummyEvent

def step (l : DummyLink) (event : LinkEvent) : Option DummyLink :=
  ((l.ends event.1).step event.2).map (l.put event.1)

/-- An end whose task has not started. -/
def endOf (ourId : NodeId) (connectionId : ConnectionId) (cost : Cost) (realms : RealmList) :
    DummyEnd :=
  ⟨ourId, connectionId, cost, realms, .start, true, .new, .new, [], []⟩

/-- No task has started. -/
def Fresh (l : DummyLink) : Prop := ∀ side, ∃ ourId connectionId cost realms,
  l.ends side = endOf ourId connectionId cost realms

def machine : Machine DummyLink LinkEvent where
  init := Fresh
  step l event l' := l.step event = some l'

variable {l l' : DummyLink} {side : Bool} {e : DummyEnd} {event : LinkEvent}

@[simp] theorem put_same : (l.put side e).ends side = e := if_pos rfl

theorem put_other : (l.put side e).ends (!side) = follow e (l.ends !side) := by
  cases side <;> rfl

theorem joined' (l : DummyLink) (side : Bool) : (l.ends side).incoming = (l.ends !side).outgoing := by
  rw [l.joined, Bool.not_not]

theorem step_eq_some_iff : l.step event = some l' ↔
    ∃ e, (l.ends event.1).step event.2 = some e ∧ l.put event.1 e = l' := Option.map_eq_some_iff

/-- The end that does not take the step keeps what holds of it. -/
theorem inv_follow (h : (l.ends !side).Inv) {event : DummyEvent}
    (hstep : (l.ends side).step event = some e) : (follow e (l.ends !side)).Inv := by
  have hkeeps := DummyEnd.Keeps.step hstep
  have hjoined := l.joined side
  have hjoined' := l.joined' side
  refine h.of_stream ?_ ?_ ?_ ?_
  · rw [hkeeps.taken, hjoined]
  · rw [hkeeps.readerGone, hjoined]
  · rw [hkeeps.written, hjoined']
  · rw [hkeeps.writerGone, hjoined']

/-- What holds of every end of every link. -/
theorem inv (h : machine.Reaches (fun _ _ => True) l) (side : Bool) : (l.ends side).Inv := by
  refine h.invariant (P := fun l => ∀ side, (l.ends side).Inv) ?_ ?_ side
  · intro l hfresh side
    obtain ⟨ourId, connectionId, cost, realms, hend⟩ := hfresh side
    rw [hend]
    exact ⟨rfl, rfl, rfl, rfl⟩
  · rintro l ⟨side, event⟩ l' hinv - hstep s
    obtain ⟨e, hend, rfl⟩ := step_eq_some_iff.mp hstep
    rcases Bool.eq_or_eq_not s side with rfl | rfl
    · rw [put_same]
      exact (hinv s).step hend
    · rw [put_other]
      exact inv_follow (hinv !side) hend

theorem reaches_of_run (h : machine.Reaches (fun _ _ => True) l) {events : List LinkEvent}
    (hrun : Machine.run step (fun _ _ => True) l events = some l') :
    machine.Reaches (fun _ _ => True) l' :=
  .run (fun _ _ _ hstep => hstep) h hrun

/-- The two ends of a stream between the nodes 1 and 2, before their tasks have started. -/
def twoNodes : DummyLink where
  ends side := endOf (if side then 2 else 1) 1 0 {.userspace}
  joined side := by cases side <;> rfl

theorem twoNodes_reaches (events : List LinkEvent)
    (hrun : Machine.run step (fun _ _ => True) twoNodes events = some l) :
    machine.Reaches (fun _ _ => True) l :=
  reaches_of_run (.init fun _ => ⟨_, _, _, _, rfl⟩) hrun

/-- What the frames that an end has read say about the end that wrote them. -/
theorem taken_hello (h : (l.ends !side).Inv) {peerId : NodeId} {frames : List DummyMessage}
    (htaken : (l.ends side).incoming.taken = .hello peerId :: frames) :
    peerId = (l.ends !side).ourId ∧
      (l.ends !side).sent = nodeMsgs frames ++ nodeMsgs (l.ends side).incoming.frames := by
  have hwritten : (l.ends !side).outgoing.written =
      .hello peerId :: (frames ++ (l.ends side).incoming.frames) := by
    rw [← l.joined' side, Pipe.written, htaken, List.cons_append]
  refine ⟨DummyMessage.hello.inj (h.first hwritten), ?_⟩
  rw [h.sent, hwritten, nodeMsgs_hello, nodeMsgs_append]

/-- Both say hello, node 1 acknowledges two records, and node 2 reads the first of the two. -/
def acknowledged : List LinkEvent :=
  [(false, .sendHello), (true, .sendHello), (true, .read 0), (false, .read 0),
    (false, .recv (.lsaAck ⟨2, 2⟩ 7)), (false, .recv (.lsaAck ⟨2, 2⟩ 8)), (true, .read 5)]

/-- As long as an end is connected, what it has handed to its router and what is still on the
way to it are together what the other router has sent. -/
theorem delivered_in_order (h : machine.Reaches (fun _ _ => True) l) (side : Bool) {peer : Peer}
    (hpeer : (l.ends side).connectedPeer = some peer) :
    ∃ handed, handed ++ nodeMsgs (l.ends side).incoming.frames = (l.ends !side).sent ∧
      (l.ends side).actions =
        .registerPeer (l.ends !side).ourId (l.ends side).connectionId (l.ends side).cost
            (l.ends side).realms :: handed.map (.ofNode (l.ends side).connectionId) := by
  obtain ⟨hb, hstate⟩ := DummyEnd.connectedPeer_eq_some_iff.mp hpeer
  have hinv := inv h side
  simp only [DummyEnd.Inv, hstate] at hinv
  obtain ⟨got, hin⟩ := hinv
  obtain ⟨hid, hsent⟩ := taken_hello (inv h !side) hin.taken
  rw [List.append_nil] at hsent
  refine ⟨nodeMsgs got, hsent.symm, ?_⟩
  rw [← hid]
  exact hin.actions

/-- The second is still on its way to node 2. -/
theorem delivered_of_acknowledged : ∃ l : DummyLink,
    (l.ends false).sent = [.lsaAck ⟨2, 2⟩ 7, .lsaAck ⟨2, 2⟩ 8] ∧
    nodeMsgs (l.ends true).incoming.frames = [.lsaAck ⟨2, 2⟩ 8] ∧ ∃ handed,
      handed ++ nodeMsgs (l.ends true).incoming.frames = (l.ends false).sent ∧
      (l.ends true).actions =
        .registerPeer (l.ends false).ourId (l.ends true).connectionId (l.ends true).cost
            (l.ends true).realms :: handed.map (.ofNode (l.ends true).connectionId) := by
  have hend : (Machine.run step (fun _ _ => True) twoNodes acknowledged).map (fun l =>
      ((l.ends false).sent, nodeMsgs (l.ends true).incoming.frames,
        (l.ends true).connectedPeer.isSome)) =
      some ([.lsaAck ⟨2, 2⟩ 7, .lsaAck ⟨2, 2⟩ 8], [.lsaAck ⟨2, 2⟩ 8], true) := by
    decide +kernel
  obtain ⟨l, hrun, hend⟩ := Option.map_eq_some_iff.mp hend
  simp only [Prod.mk.injEq] at hend
  obtain ⟨hsent, hframes, hpeer⟩ := hend
  obtain ⟨peer, hpeer⟩ := Option.isSome_iff_exists.mp hpeer
  exact ⟨l, hsent, hframes, delivered_in_order (twoNodes_reaches _ hrun) true hpeer⟩

end DummyLink

namespace DummyEnd

variable {e e' : DummyEnd} {event : DummyEvent}

/-- The reads after which an end is over, if the other end is. -/
def readsLeft (e : DummyEnd) : Nat := if e.state = .ended then 0 else e.incoming.frames.length + 1

/-- A read finds the end of the stream, or there is one frame less. -/
theorem read_shortens {now : Instant} (hstep : e.step (.read now) = some e') :
    e'.state = .ended ∨ e'.incoming.frames.length < e.incoming.frames.length := by
  rcases hread : e.incoming.read with _ | ⟨message | _, incoming⟩
  · cases hstate : e.state <;> simp [step, hstate, hread] at hstep
  · have hlt : incoming.frames.length < e.incoming.frames.length := by
      obtain ⟨rest, hframes, rfl⟩ := Pipe.read_eq_frame_iff.mp hread
      rw [hframes]
      exact Nat.lt_succ_self _
    refine Or.inr ?_
    cases hstate : e.state with
    | handshake =>
      simp only [step, hstate, hread] at hstep
      cases hstep
      exact (Keeps.onHello _ _ _).frames.trans_lt hlt
    | connected peer hb =>
      simp only [step, hstate, hread] at hstep
      cases hstep
      exact (Keeps.onRemote _ _ _ _ _).frames.trans_lt hlt
    | silent peer =>
      simp only [step, hstate, hread] at hstep
      cases hstep
      exact hlt
    | start | ended => simp [step, hstate] at hstep
  · refine Or.inl ?_
    cases hstate : e.state with
    | handshake | connected =>
      simp only [step, hstate, hread] at hstep
      cases hstep
      rfl
    | silent peer =>
      simp only [step, hstate, hread] at hstep
      cases peer <;> (cases hstep; rfl)
    | start | ended => simp [step, hstate] at hstep

/-- An end that finds the end of its stream behind the last frame can read until it is over. -/
theorem read_enabled (hgone : e.incoming.writerGone = true) (hstart : e.state ≠ .start)
    (hended : e.state ≠ .ended) (now : Instant) : (e.step (.read now)).isSome := by
  have hread : ∃ r, e.incoming.read = some r := by
    unfold Pipe.read
    split
    · exact ⟨_, rfl⟩
    · rw [if_pos hgone]
      exact ⟨_, rfl⟩
  obtain ⟨⟨message | _, incoming⟩, hread⟩ := hread
  · cases hstate : e.state with
    | start => exact absurd hstate hstart
    | ended => exact absurd hstate hended
    | handshake | connected | silent => simp [step, hstate, hread]
  · cases hstate : e.state with
    | start => exact absurd hstate hstart
    | ended => exact absurd hstate hended
    | handshake | connected => simp [step, hstate, hread]
    | silent peer => cases peer <;> simp [step, hstate, hread]

/-- No step makes the reads more that are left, and a read makes them fewer. -/
theorem readsLeft_step (hstep : e.step event = some e') : e'.readsLeft ≤ e.readsLeft := by
  have hended : e.state ≠ .ended := by
    intro hended
    simp [step, hended] at hstep
  have hframes := (Keeps.step hstep).frames
  unfold readsLeft
  rw [if_neg hended]
  split
  · exact Nat.zero_le _
  · exact Nat.succ_le_succ hframes

theorem readsLeft_read {now : Instant} (hstep : e.step (.read now) = some e') :
    e'.readsLeft < e.readsLeft := by
  have hended : e.state ≠ .ended := by
    intro hended
    simp [step, hended] at hstep
  unfold readsLeft
  rw [if_neg hended]
  rcases read_shortens hstep with hover | hlt
  · rw [if_pos hover]
    exact Nat.succ_pos _
  · split
    · exact Nat.succ_pos _
    · exact Nat.succ_lt_succ hlt

end DummyEnd

namespace DummyLink

variable {l l' : DummyLink} {side : Bool} {event : LinkEvent}

/-- How often an end reads. -/
def reads (events : List LinkEvent) : Nat :=
  events.countP fun event => match event.2 with
    | .read _ => true
    | _ => false

/-- An end that is over has dropped its half of the stream. -/
theorem writerGone (h : machine.Reaches (fun _ _ => True) l) (hended : (l.ends side).state = .ended) :
    (l.ends !side).incoming.writerGone = true := by
  have hinv := inv h side
  simp only [DummyEnd.Inv, hended] at hinv
  rw [← l.joined side]
  exact hinv.writer

/-- An end that is over stays so, and every read of the other brings that one nearer to it. -/
theorem readsLeft_step (hended : (l.ends side).state = .ended) (hstep : l.step event = some l') :
    (l'.ends side).state = .ended ∧
      reads [event] + (l'.ends !side).readsLeft ≤ (l.ends !side).readsLeft := by
  obtain ⟨s, event⟩ := event
  obtain ⟨e, hend, rfl⟩ := step_eq_some_iff.mp hstep
  have hs : s = !side := by
    rcases Bool.eq_or_eq_not s side with rfl | hs
    · simp [DummyEnd.step, hended] at hend
    · exact hs
  subst hs
  have hother : ((l.put (!side) e).ends side).state = .ended := by
    have hput : (l.put (!side) e).ends (!!side) = follow e (l.ends !!side) := put_other
    rw [Bool.not_not] at hput
    rw [hput]
    exact hended
  refine ⟨hother, ?_⟩
  rw [put_same]
  cases event with
  | read now =>
    have hlt : e.readsLeft < (l.ends !side).readsLeft := DummyEnd.readsLeft_read hend
    have hone : reads [(!side, .read now)] = 1 := rfl
    omega
  | _ =>
    have hle := DummyEnd.readsLeft_step hend
    simpa [reads] using hle

/-- When one end is over, the other can read until it is over too, and no way of taking turns
lets it read more often than there were frames for it, and once more. -/
theorem closing_follows (h : machine.Reaches (fun _ _ => True) l) (side : Bool)
    (hended : (l.ends side).state = .ended) {events : List LinkEvent}
    (hrun : Machine.run step (fun _ _ => True) l events = some l') :
    reads events ≤ (l.ends !side).incoming.frames.length + 1 ∧
    (reads events = (l.ends !side).incoming.frames.length + 1 → (l'.ends !side).state = .ended) ∧
    ((l'.ends !side).state ≠ .start → (l'.ends !side).state ≠ .ended →
      ∀ now, (l'.step (!side, .read now)).isSome) := by
  have hcount : (l'.ends side).state = .ended ∧
      reads events + (l'.ends !side).readsLeft ≤ (l.ends !side).readsLeft := by
    clear h
    induction events generalizing l with
    | nil =>
      cases hrun
      exact ⟨hended, Nat.le_of_eq (Nat.zero_add _)⟩
    | cons event events ih =>
      obtain ⟨mid, hmid, hrest⟩ := Option.bind_eq_some_iff.mp hrun
      obtain ⟨-, hmid⟩ := Option.ite_none_right_eq_some.mp hmid
      obtain ⟨hended', hle⟩ := readsLeft_step hended hmid
      obtain ⟨hend, hle'⟩ := ih hended' hrest
      have hreads : reads (event :: events) = reads [event] + reads events := by
        rw [reads, ← List.singleton_append, List.countP_append]
        rfl
      refine ⟨hend, ?_⟩
      omega
  have hmax : (l.ends !side).readsLeft ≤ (l.ends !side).incoming.frames.length + 1 := by
    unfold DummyEnd.readsLeft
    split
    · exact Nat.zero_le _
    · exact Nat.le_refl _
  refine ⟨by omega, ?_, ?_⟩
  · intro hall
    have hzero : (l'.ends !side).readsLeft = 0 := by omega
    by_contra hover
    rw [DummyEnd.readsLeft, if_neg hover] at hzero
    cases hzero
  · intro hstart hover now
    have hgone := writerGone (reaches_of_run h hrun) hcount.1
    rw [step, Option.isSome_map]
    exact DummyEnd.read_enabled hgone hstart hover now

/-- Node 2 drops the stream, and node 1, which has a hello to read, reads that and the end. -/
theorem closing_of_dropped : ∃ l l' : DummyLink, (l.ends true).state = .ended ∧
    (l.ends false).state = .handshake ∧
    Machine.run step (fun _ _ => True) l [(false, .read 3), (false, .read 4)] = some l' ∧
      (l'.ends false).state = .ended := by
  have hend : (Machine.run step (fun _ _ => True) twoNodes
      [(false, .sendHello), (true, .sendHello), (true, .stop .drop)]).map (fun l =>
        ((l.ends true).state, (l.ends false).state, (l.ends false).incoming.frames.length,
          (Machine.run step (fun _ _ => True) l [(false, .read 3), (false, .read 4)]).isSome)) =
      some (.ended, .handshake, 1, true) := by
    decide +kernel
  obtain ⟨l, hrun, hend⟩ := Option.map_eq_some_iff.mp hend
  simp only [Prod.mk.injEq] at hend
  obtain ⟨hended, hhandshake, hlength, hreads⟩ := hend
  obtain ⟨l', hrun'⟩ := Option.isSome_iff_exists.mp hreads
  refine ⟨l, l', hended, hhandshake, hrun', ?_⟩
  refine (closing_follows (twoNodes_reaches _ hrun) true hended hrun').2.1 ?_
  rw [Bool.not_true, hlength]
  rfl

end DummyLink

end Anybus
