import Anybus.Core.Machine
import Anybus.Peers.WsPeer

/-!
# Two sessions joined by a socket

Each end takes its steps by its own state machine, and what one writes the other reads
some time later. As long as the socket and the two drivers are not too slow for the
heartbeat, no end takes the other for dead, and every message of a router comes out at the
other end in order.
-/

namespace Anybus

/-- The message of a router in a frame. -/
def WsMessage.carries : WsMessage → Option NodeMessage
  | .nodeMsg message => some message
  | .hello _ | .closeConnection | .ping _ | .pong _ => none

/-- The message of a router that an effect writes. -/
def WsEffect.sends : WsEffect → Option NodeMessage
  | .send message => message.carries
  | .closeSocket | .handleNodeMessage _ | .unregister | .notifyPeerClosed => none

/-- The message that an effect hands to the router. -/
def WsEffect.hands : WsEffect → Option NodeMessage
  | .handleNodeMessage message => some message
  | .send _ | .closeSocket | .unregister | .notifyPeerClosed => none

namespace WsPeer

/-- A message that closes no session. -/
def Civil : WsMessage → Prop
  | .nodeMsg _ | .ping _ | .pong _ => True
  | .hello _ | .closeConnection => False

/-- An effect of a session that stays open. -/
def Harmless : WsEffect → Prop
  | .send message => Civil message
  | .handleNodeMessage _ => True
  | .closeSocket | .unregister | .notifyPeerClosed => False

/-- What an event at time `now` does to the clock of a session that stays open. -/
inductive Clocked (peer peer' : WsPeer) (now : Instant) : Prop
  /-- The other end has been heard of. -/
  | heard (hrx : peer'.hb.lastRx = now) (hping : peer'.hb.lastPing = none)
  /-- The first ping since the other end was heard of, or since the machine resumed. -/
  | asks {token : PingToken} (hping : .send (.ping token) ∈ peer'.effects)
      (hrx : peer'.hb.lastRx = now ∨
        peer'.hb.lastRx = peer.hb.lastRx ∧ peer.hb.lastPing = none)
  | stands (hrx : peer'.hb.lastRx = peer.hb.lastRx)
      (hping : peer'.hb.lastPing = none ↔ peer.hb.lastPing = none)

/-- An event at time `now` that leaves a session open. -/
structure Stays (peer peer' : WsPeer) (now : Instant) : Prop where
  opened : peer'.phase = .opened
  interval : peer'.hb.interval = peer.hb.interval
  timeout : peer'.hb.timeout = peer.hb.timeout
  harmless : ∀ effect ∈ peer'.effects, Harmless effect
  clocked : Clocked peer peer' now

variable {peer : WsPeer} {now : Instant}

theorem effectsFlushed_of_opened (h : peer.phase = .opened) : peer.effectsFlushed = peer := by
  unfold effectsFlushed
  rw [if_neg]
  rintro ⟨hclosing, -⟩
  rw [h] at hclosing
  cases hclosing

theorem step_resume_effects (now : Instant) (hopened : peer.phase = .opened)
    (heffects : peer.effects = []) :
    (peer.step now (.control .resume)).effects =
      [.send (.ping (peer.hb.noteResume now).nextToken)] := by
  simp only [step, hopened, emitPing, emit, heffects, Heartbeat.takePingToken, List.nil_append]

theorem step_fromNode_effects (now : Instant) (hopened : peer.phase = .opened)
    (heffects : peer.effects = []) (message : NodeMessage) :
    (peer.step now (.fromNode message)).effects = [.send (.nodeMsg message)] := by
  simp only [step, hopened, emit, heffects, List.nil_append]

/-- A timer that finds the other end alive asks for a ping at most. -/
theorem step_tick_effects (now : Instant) (hopened : peer.phase = .opened)
    (heffects : peer.effects = []) (halive : peer.hb.timedOut now = false) :
    (peer.step now (.tick now)).effects = [] ∨
    (peer.step now (.tick now)).effects = [.send (.ping peer.hb.nextToken)] := by
  simp only [step, hopened, onTick, halive, Bool.false_eq_true, if_false]
  split
  · refine Or.inr ?_
    simp only [emitPing, emit, heffects, Heartbeat.takePingToken, List.nil_append]
  · exact Or.inl heffects

/-- What a message asks for. -/
def replies : WsMessage → List WsEffect
  | .nodeMsg message => [.handleNodeMessage message]
  | .ping token => [.send (.pong token)]
  | .pong _ => []
  | .hello _ => CloseReason.loc.effects
  | .closeConnection => CloseReason.remote.effects

theorem step_fromWire_effects (now : Instant) (hopened : peer.phase = .opened)
    (heffects : peer.effects = []) (message : WsMessage) :
    (peer.step now (.fromWire message)).effects = replies message := by
  cases message <;>
    simp only [step, hopened, onWire, emit, close, heffects, replies, List.nil_append, ne_eq,
      not_true_eq_false, if_false]

/-- A civil message is answered by harmless effects only. -/
theorem replies_harmless {message : WsMessage} (hcivil : Civil message) {effect : WsEffect}
    (hmem : effect ∈ replies message) : Harmless effect := by
  cases message with
  | hello _ | closeConnection => exact hcivil.elim
  | nodeMsg message | ping token =>
    obtain rfl := List.mem_singleton.mp hmem
    exact trivial
  | pong token => exact absurd hmem List.not_mem_nil

/-- The message of a router is handed to the other, and no other message is made of it. -/
theorem replies_hands {message : WsMessage} (hcivil : Civil message) :
    (replies message).filterMap WsEffect.hands = message.carries.toList ∧
    (replies message).filterMap WsEffect.sends = [] := by
  cases message with
  | hello _ | closeConnection => exact hcivil.elim
  | nodeMsg _ | ping _ | pong _ => exact ⟨rfl, rfl⟩

theorem harmless_send {message : WsMessage} {effect : WsEffect}
    (hmem : effect ∈ [WsEffect.send message]) (hcivil : Civil message) : Harmless effect := by
  obtain rfl := List.mem_singleton.mp hmem
  exact hcivil

theorem stays_resume (hopened : peer.phase = .opened) (heffects : peer.effects = []) :
    peer.Stays (peer.step now (.control .resume)) now := by
  have hping := step_resume_effects now hopened heffects
  have hstep : peer.step now (.control .resume) =
      { peer with hb := peer.hb.noteResume now }.emitPing now := by
    simp only [step, hopened]
  have hstays : (peer.step now (.control .resume)).phase = .opened := by
    rw [hstep]
    exact hopened
  refine ⟨hstays, ?_, ?_, ?_, ?_⟩
  · rw [hstep]
    rfl
  · rw [hstep]
    rfl
  · rw [hping]
    exact fun _ hmem => harmless_send hmem trivial
  · refine .asks (by rw [hping]; exact List.mem_singleton_self _) (Or.inl ?_)
    rw [hstep]
    rfl

theorem stays_fromNode (hopened : peer.phase = .opened) (heffects : peer.effects = [])
    (message : NodeMessage) : peer.Stays (peer.step now (.fromNode message)) now := by
  have hsend := step_fromNode_effects now hopened heffects message
  have hstep : peer.step now (.fromNode message) = peer.emit (.send (.nodeMsg message)) := by
    simp only [step, hopened]
  rw [hstep] at hsend ⊢
  refine ⟨hopened, rfl, rfl, ?_, .stands rfl Iff.rfl⟩
  rw [hsend]
  exact fun _ hmem => harmless_send hmem trivial

/-- A timer that finds the other end alive lets the session be, or has it ask. -/
theorem stays_tick (hopened : peer.phase = .opened) (heffects : peer.effects = [])
    (halive : peer.hb.timedOut now = false) : peer.Stays (peer.step now (.tick now)) now := by
  have hstep : peer.step now (.tick now) =
      if peer.hb.pingDue now then peer.emitPing now else peer := by
    simp only [step, hopened, onTick, halive, Bool.false_eq_true, if_false]
  rw [hstep]
  split
  · have hping : (peer.emitPing now).effects = [.send (.ping peer.hb.nextToken)] := by
      simp only [emitPing, emit, heffects, Heartbeat.takePingToken, List.nil_append]
    refine ⟨hopened, rfl, rfl, ?_, ?_⟩
    · rw [hping]
      exact fun _ hmem => harmless_send hmem trivial
    · cases hlast : peer.hb.lastPing with
      | none =>
        refine .asks (by rw [hping]; exact List.mem_singleton_self _) (Or.inr ⟨rfl, hlast⟩)
      | some sent =>
        -- The ping is not the first, and the end still waits for an answer to that.
        refine .stands rfl ?_
        rw [hlast]
        exact iff_of_false (Option.some_ne_none _) (Option.some_ne_none _)
  · refine ⟨hopened, rfl, rfl, ?_, .stands rfl Iff.rfl⟩
    rw [heffects]
    exact fun _ hmem => absurd hmem List.not_mem_nil

/-- A message that closes no session counts as a sign of life. -/
theorem stays_fromWire (now : Instant) (hopened : peer.phase = .opened)
    (heffects : peer.effects = []) {message : WsMessage} (hcivil : Civil message) :
    peer.Stays (peer.step now (.fromWire message)) now ∧
    (peer.step now (.fromWire message)).hb.lastRx = now ∧
    (peer.step now (.fromWire message)).hb.lastPing = none := by
  have hreplies := step_fromWire_effects now hopened heffects message
  have hstep : peer.step now (.fromWire message) = peer.onWire now message := by
    simp only [step, hopened]
  have hkeeps : (peer.step now (.fromWire message)).phase = .opened ∧
      (peer.step now (.fromWire message)).hb = peer.hb.onRx now := by
    rw [hstep]
    cases message with
    | hello _ | closeConnection => exact hcivil.elim
    | nodeMsg _ | ping _ | pong _ => exact ⟨hopened, rfl⟩
  obtain ⟨hphase, hhb⟩ := hkeeps
  have hheard : (peer.step now (.fromWire message)).hb.lastRx = now ∧
      (peer.step now (.fromWire message)).hb.lastPing = none := by
    rw [hhb]
    exact ⟨rfl, rfl⟩
  refine ⟨⟨hphase, ?_, ?_, ?_, .heard hheard.1 hheard.2⟩, hheard⟩
  · rw [hhb]
    rfl
  · rw [hhb]
    rfl
  · rw [hreplies]
    exact fun _ hmem => replies_harmless hcivil hmem

end WsPeer

/-- The settings of the two heartbeats, by how much a driver oversleeps, and how long a
message is under way, from the event that asks for it until the other end takes it. -/
structure Timing where
  interval : Bool → Duration
  timeout : Bool → Duration
  slack : Duration
  latency : Duration
  /-- A ping that is sent late is still answered in time. -/
  fits : ∀ side, interval side + slack + 2 * latency < timeout side

/-- Both ends with the settings of every session. -/
def Timing.standard (slack latency : Duration)
    (h : WsPeer.defaultHeartbeatInterval + slack + 2 * latency < WsPeer.defaultHeartbeatTimeout) :
    Timing where
  interval _ := WsPeer.defaultHeartbeatInterval
  timeout _ := WsPeer.defaultHeartbeatTimeout
  slack := slack
  latency := latency
  fits _ := h

/-- Two sessions and the messages between them, each with the time of the event it comes
from, oldest first. -/
structure WsLink where
  now : Instant
  started : Bool → Bool
  peers : Bool → WsPeer
  /-- When an end has taken its last event. -/
  since : Bool → Instant
  /-- What is under way to an end. -/
  inbox : Bool → List (Instant × WsMessage)
  closed : Bool → Bool
  told : Bool → Bool
  /-- What the router at an end has sent. -/
  sent : Bool → List NodeMessage
  /-- What the router at an end was handed. -/
  handed : Bool → List NodeMessage

/-- What happens at the ends. -/
inductive WsLinkEvent where
  | start (side : Bool)
  /-- The driver carries out the next effect. -/
  | apply (side : Bool)
  /-- The next effect fails. -/
  | fail (side : Bool)
  | deliver (side : Bool)
  /-- The socket turns out to be dead. -/
  | lost (side : Bool)
  | control (side : Bool) (control : WsControl)
  | fromNode (side : Bool) (message : NodeMessage)
  | tick (side : Bool)
  | wait (d : Duration)
  deriving DecidableEq

namespace WsLink

open Function (update)

/-- The driver of an end waits for an event. -/
def Idle (l : WsLink) (side : Bool) : Prop :=
  l.started side = true ∧ (l.peers side).effects = [] ∧ (l.peers side).phase ≠ .closed

instance decidableIdle (l : WsLink) (side : Bool) : Decidable (l.Idle side) := by
  unfold Idle
  infer_instance

/-- The session at an end starts. -/
def start (T : Timing) (l : WsLink) (side : Bool) : WsLink :=
  { l with
    started := update l.started side true
    peers := update l.peers side
      (.newWithHeartbeat (l.peers side).peerId l.now (T.interval side) (T.timeout side)) }

/-- An end takes an event. -/
def take (l : WsLink) (side : Bool) (event : WsEvent) : WsLink :=
  { l with
    peers := update l.peers side ((l.peers side).step l.now event)
    since := update l.since side l.now }

/-- An end has carried out an effect. -/
def perform (l : WsLink) (side : Bool) : WsEffect → WsLink
  | .send message =>
    { l with inbox := update l.inbox (!side) (l.inbox (!side) ++ [(l.since side, message)]) }
  | .closeSocket => { l with closed := update l.closed side true }
  | .handleNodeMessage message =>
    { l with handed := update l.handed side (l.handed side ++ [message]) }
  | .unregister | .notifyPeerClosed => l

/-- One effect is off the queue. -/
def popped (l : WsLink) (side : Bool) (rest : List WsEffect) : WsLink :=
  { l with peers := update l.peers side { l.peers side with effects := rest }.effectsFlushed }

/-- An end whose effect has failed forgets the rest of the queue only if it is closing. -/
def failed (l : WsLink) (side : Bool) (rest : List WsEffect) : WsLink :=
  { l with peers := update l.peers side { l.peers side with effects := rest } }.take side
    .transportDead

def step (T : Timing) (l : WsLink) : WsLinkEvent → Option WsLink
  | .start side =>
    if l.started side then none
    else some (l.start T side)
  | .apply side =>
    match (l.peers side).effects with
    | [] => none
    | effect :: rest => some ((l.perform side effect).popped side rest)
  | .fail side =>
    match (l.peers side).effects with
    | .send _ :: rest | .notifyPeerClosed :: rest => some (l.failed side rest)
    | _ => none
  | .deliver side =>
    match l.inbox side with
    | [] => none
    | (_, message) :: rest =>
      if l.Idle side then
        some ({ l with inbox := update l.inbox side rest }.take side (.fromWire message))
      else none
  | .lost side => if l.Idle side then some (l.take side .transportDead) else none
  | .control side control =>
    if l.Idle side then
      some ({ l with
        told := update l.told side (l.told side || decide (control = WsControl.shutdown)) }.take
        side (.control control))
    else none
  | .fromNode side message =>
    if l.Idle side then
      some ({ l with sent := update l.sent side (l.sent side ++ [message]) }.take side
        (.fromNode message))
    else none
  | .tick side =>
    if l.Idle side ∧ ∃ wake ∈ (l.peers side).nextWake, wake ≤ l.now then
      some (l.take side (.tick l.now))
    else none
  | .wait d => some { l with now := l.now + d }

/-- No session has started. -/
def Fresh (T : Timing) (l : WsLink) : Prop := ∀ side, l.started side = false ∧
  l.inbox side = [] ∧ l.closed side = false ∧ l.told side = false ∧ l.sent side = [] ∧
  l.handed side = [] ∧ ∃ peerId now,
    l.peers side = .newWithHeartbeat peerId now (T.interval side) (T.timeout side)

/-- Time passes no further than the drivers and the messages under way let it. -/
def InTime (T : Timing) (l : WsLink) (now : Instant) : Prop := ∀ side,
  (l.started side = true → ∀ wake ∈ (l.peers side).nextWake, now ≤ wake + T.slack) ∧
  ((l.peers side).effects ≠ [] → now ≤ l.since side + T.latency) ∧
  ∀ x ∈ l.inbox side, now ≤ x.1 + T.latency

instance decidableInTime (T : Timing) (l : WsLink) (now : Instant) :
    Decidable (l.InTime T now) := by
  unfold InTime
  infer_instance

/-- Neither the drivers nor the socket are too slow, and the socket is only dead when an end
has closed it. -/
def Timely (T : Timing) (l : WsLink) : WsLinkEvent → Prop
  | .wait d => l.InTime T (l.now + d)
  | .fail _ | .lost _ => ∃ side, l.closed side = true
  | .start _ | .apply _ | .deliver _ | .control _ _ | .fromNode _ _ | .tick _ => True

instance decidableTimely (T : Timing) (l : WsLink) : ∀ event, Decidable (l.Timely T event)
  | .wait d => decidableInTime T l (l.now + d)
  | .fail _ | .lost _ => inferInstanceAs (Decidable (∃ side, l.closed side = true))
  | .start _ | .apply _ | .deliver _ | .control _ _ | .fromNode _ _ | .tick _ => .isTrue trivial

def machine (T : Timing) : Machine WsLink WsLinkEvent where
  init := Fresh T
  step l event l' := l.step T event = some l'

/-- The messages of a router that an end is still to write. -/
def sending (l : WsLink) (side : Bool) : List NodeMessage :=
  (l.peers side).effects.filterMap WsEffect.sends

/-- The messages of a router that are under way to an end. -/
def onWay (l : WsLink) (side : Bool) : List NodeMessage :=
  (l.inbox side).filterMap fun x => x.2.carries

/-- The messages that an end is still to hand to its router. -/
def handing (l : WsLink) (side : Bool) : List NodeMessage :=
  (l.peers side).effects.filterMap WsEffect.hands

/-- The latest time at which an end that has heard nothing more is sure to ask. -/
def bound (T : Timing) (l : WsLink) (side : Bool) : Instant :=
  (l.peers side).hb.lastRx + T.interval side + T.slack

/-- A ping, or something that answers it, is on its way. -/
inductive Asked (T : Timing) (l : WsLink) (side : Bool) : Prop
  | pinging {token : PingToken} (h : .send (.ping token) ∈ (l.peers side).effects)
      (hle : l.since side ≤ l.bound T side)
  | pinged {t : Instant} {token : PingToken} (h : (t, .ping token) ∈ l.inbox !side)
      (hle : t ≤ l.bound T side)
  | answering {message : WsMessage} (h : .send message ∈ (l.peers !side).effects)
      (hle : l.since (!side) ≤ l.bound T side + T.latency)
  | answered {x : Instant × WsMessage} (h : x ∈ l.inbox side)
      (hle : x.1 ≤ l.bound T side + T.latency)

/-- What holds of an end while nobody hangs up. -/
structure Alive (T : Timing) (l : WsLink) (side : Bool) : Prop where
  opened : (l.peers side).phase = .opened
  unclosed : l.closed side = false
  interval : (l.peers side).hb.interval = T.interval side
  timeout : (l.peers side).hb.timeout = T.timeout side
  harmless : ∀ effect ∈ (l.peers side).effects, WsPeer.Harmless effect
  civil : ∀ x ∈ l.inbox side, WsPeer.Civil x.2
  busy : (l.peers side).effects ≠ [] →
    l.started side = true ∧ l.now ≤ l.since side + T.latency
  prompt : ∀ x ∈ l.inbox side, l.now ≤ x.1 + T.latency
  quiet : l.started side = true → (l.peers side).hb.lastPing = none → l.now ≤ l.bound T side
  asked : l.started side = true → (l.peers side).hb.lastPing ≠ none → l.Asked T side

variable {T : Timing} {l l' : WsLink} {side : Bool} {event : WsLinkEvent}

/-- An end that is not too late hears of the other before it gives up. -/
theorem Alive.in_time (h : ∀ side, l.Alive T side) (hstarted : l.started side = true) :
    l.now ≤ l.bound T side + 2 * T.latency := by
  cases hping : (l.peers side).hb.lastPing with
  | none =>
    have hquiet := (h side).quiet hstarted hping
    grind
  | some sent =>
    have hasked := (h side).asked hstarted (by rw [hping]; exact Option.some_ne_none _)
    cases hasked with
    | pinging hmem hle =>
      have hbusy := ((h side).busy (List.ne_nil_of_mem hmem)).2
      grind
    | pinged hmem hle =>
      have hprompt := (h !side).prompt _ hmem
      grind
    | answering hmem hle =>
      have hbusy := ((h !side).busy (List.ne_nil_of_mem hmem)).2
      grind
    | answered hmem hle =>
      have hprompt := (h side).prompt _ hmem
      grind

theorem Alive.not_timedOut (h : ∀ side, l.Alive T side) (hstarted : l.started side = true) :
    (l.peers side).hb.timedOut l.now = false := by
  have htime := Alive.in_time h hstarted
  have hfits := T.fits side
  have htimeout := (h side).timeout
  simp only [Heartbeat.timedOut, decide_eq_false_iff_not, not_le]
  unfold bound at htime
  grind

/-- The end on one side has taken an event that leaves it open. -/
structure Turned (l l' : WsLink) (side : Bool) : Prop where
  now : l'.now = l.now
  started : l'.started = l.started
  closed : l'.closed = l.closed
  since : l'.since = update l.since side l.now
  peer : l'.peers (!side) = l.peers !side
  inbox : l'.inbox (!side) = l.inbox !side
  idle : l.Idle side
  stays : (l.peers side).Stays (l'.peers side) l.now
  /-- A message is only off the queue when it was taken for a sign of life, a ping is answered. -/
  taken : l'.inbox side = l.inbox side ∨
    (l'.peers side).hb.lastRx = l.now ∧ (l'.peers side).hb.lastPing = none ∧
      ∃ x, l.inbox side = x :: l'.inbox side ∧ ∀ token, x.2 = .ping token →
        ∃ message, .send message ∈ (l'.peers side).effects

theorem Turned.inbox_subset (h : Turned l l' side) : l'.inbox side ⊆ l.inbox side := by
  rcases h.taken with heq | ⟨-, -, x, hx, -⟩
  · rw [heq]
    exact List.Subset.refl _
  · rw [hx]
    exact List.subset_cons_self _ _

/-- The end that has taken no event keeps what it waits for. -/
theorem Turned.asked_other (h : Turned l l' side)
    (hprompt : ∀ x ∈ l.inbox side, l.now ≤ x.1 + T.latency) (hasked : l.Asked T !side) :
    l'.Asked T !side := by
  have hbound : l'.bound T (!side) = l.bound T !side := by
    unfold bound
    rw [h.peer]
  have hsince : l'.since (!side) = l.since !side := by
    rw [h.since]
    exact Function.update_of_ne (Bool.not_ne_self side) _ _
  cases hasked with
  | pinging hmem hle =>
    rw [← h.peer] at hmem
    exact .pinging hmem (by rw [hsince, hbound]; exact hle)
  | @pinged t token hmem hle =>
    rw [Bool.not_not] at hmem
    have hkept (hmem : (t, .ping token) ∈ l'.inbox side) : l'.Asked T !side := by
      rw [← Bool.not_not side] at hmem
      exact .pinged hmem (by rw [hbound]; exact hle)
    rcases h.taken with heq | ⟨-, -, x, hx, hanswer⟩
    · exact hkept (heq ▸ hmem)
    · have htime := hprompt _ hmem
      rw [hx] at hmem
      rcases List.mem_cons.mp hmem with rfl | hmem
      · obtain ⟨message, hmessage⟩ := hanswer token rfl
        rw [← Bool.not_not side] at hmessage
        refine .answering hmessage ?_
        rw [Bool.not_not, h.since, Function.update_self, hbound]
        exact htime.trans (Nat.add_le_add_right hle _)
      · exact hkept hmem
  | answering hmem hle =>
    rw [Bool.not_not, h.idle.2.1] at hmem
    exact absurd hmem List.not_mem_nil
  | answered hmem hle =>
    rw [← h.inbox] at hmem
    exact .answered hmem (by rw [hbound]; exact hle)

/-- Nothing that an end waits for is lost when its clock stands. -/
theorem Turned.asked_same (h : Turned l l' side)
    (hrx : (l'.peers side).hb.lastRx = (l.peers side).hb.lastRx)
    (hinbox : l'.inbox side = l.inbox side) (hasked : l.Asked T side) : l'.Asked T side := by
  have hbound : l'.bound T side = l.bound T side := by
    unfold bound
    rw [hrx]
  have hsince : l'.since (!side) = l.since !side := by
    rw [h.since]
    exact Function.update_of_ne (Bool.not_ne_self side) _ _
  cases hasked with
  | pinging hmem hle =>
    rw [h.idle.2.1] at hmem
    exact absurd hmem List.not_mem_nil
  | pinged hmem hle =>
    rw [← h.inbox] at hmem
    exact .pinged hmem (by rw [hbound]; exact hle)
  | answering hmem hle =>
    rw [← h.peer] at hmem
    exact .answering hmem (by rw [hsince, hbound]; exact hle)
  | answered hmem hle =>
    rw [← hinbox] at hmem
    exact .answered hmem (by rw [hbound]; exact hle)

theorem Turned.alive_other (h : Turned l l' side) (hl : ∀ side, l.Alive T side) :
    l'.Alive T !side := by
  have hbound : l'.bound T (!side) = l.bound T !side := by
    unfold bound
    rw [h.peer]
  have hsince : l'.since (!side) = l.since !side := by
    rw [h.since]
    exact Function.update_of_ne (Bool.not_ne_self side) _ _
  have hother := hl !side
  refine ⟨?_, ?_, ?_, ?_, ?_, ?_, ?_, ?_, ?_, ?_⟩
  · rw [h.peer]
    exact hother.opened
  · rw [h.closed]
    exact hother.unclosed
  · rw [h.peer]
    exact hother.interval
  · rw [h.peer]
    exact hother.timeout
  · rw [h.peer]
    exact hother.harmless
  · rw [h.inbox]
    exact hother.civil
  · rw [h.peer, h.started, h.now, hsince]
    exact hother.busy
  · rw [h.inbox, h.now]
    exact hother.prompt
  · rw [h.peer, h.started, h.now, hbound]
    exact hother.quiet
  · rw [h.peer, h.started]
    exact fun hstarted hping => h.asked_other (hl side).prompt (hother.asked hstarted hping)

theorem Turned.alive_same (h : Turned l l' side) (hl : ∀ side, l.Alive T side) :
    l'.Alive T side := by
  have hsame := hl side
  have hstarted := h.idle.1
  have hstays := h.stays
  have hsince : l'.since side = l.now := by
    rw [h.since]
    exact Function.update_self _ _ _
  have hheard (hrx : (l'.peers side).hb.lastRx = l.now) : l.now ≤ l'.bound T side := by
    unfold bound
    rw [hrx]
    grind
  refine ⟨hstays.opened, ?_, ?_, ?_, hstays.harmless, ?_, ?_, ?_, ?_, ?_⟩
  · rw [h.closed]
    exact hsame.unclosed
  · rw [hstays.interval]
    exact hsame.interval
  · rw [hstays.timeout]
    exact hsame.timeout
  · exact fun x hx => hsame.civil x (h.inbox_subset hx)
  · intro _
    rw [h.started, h.now, hsince]
    exact ⟨hstarted, Nat.le_add_right _ _⟩
  · rw [h.now]
    exact fun x hx => hsame.prompt x (h.inbox_subset hx)
  · intro _ hping
    rw [h.now]
    cases hstays.clocked with
    | heard hrx _ => exact hheard hrx
    | asks _ hrx =>
      rcases hrx with hrx | ⟨hrx, hlast⟩
      · exact hheard hrx
      · unfold bound
        rw [hrx]
        exact hsame.quiet hstarted hlast
    | stands hrx hiff =>
      unfold bound
      rw [hrx]
      exact hsame.quiet hstarted (hiff.mp hping)
  · intro _ hping
    cases hstays.clocked with
    | heard _ hnone => exact absurd hnone hping
    | asks hmem hrx =>
      refine .pinging hmem ?_
      rw [hsince]
      rcases hrx with hrx | ⟨hrx, hlast⟩
      · exact hheard hrx
      · unfold bound
        rw [hrx]
        exact hsame.quiet hstarted hlast
    | stands hrx hiff =>
      rcases h.taken with hinbox | ⟨-, hnone, -⟩
      · exact h.asked_same hrx hinbox (hsame.asked hstarted (mt hiff.mpr hping))
      · exact absurd hnone hping

theorem Turned.alive (h : Turned l l' side) (hl : ∀ side, l.Alive T side) (s : Bool) :
    l'.Alive T s := by
  rcases Bool.eq_or_eq_not s side with rfl | rfl
  · exact h.alive_same hl
  · exact h.alive_other hl

/-- What an effect puts on the way to the other end. -/
def writes (t : Instant) : WsEffect → List (Instant × WsMessage)
  | .send message => [(t, message)]
  | .closeSocket | .handleNodeMessage _ | .unregister | .notifyPeerClosed => []

/-- The driver on one side has carried out an effect. -/
structure Performed (l l' : WsLink) (side : Bool) (effect : WsEffect) (rest : List WsEffect) :
    Prop where
  now : l'.now = l.now
  started : l'.started = l.started
  closed : l'.closed = l.closed
  since : l'.since = l.since
  queue : (l.peers side).effects = effect :: rest
  same : l'.peers side = { l.peers side with effects := rest }
  peer : l'.peers (!side) = l.peers !side
  inbox : l'.inbox side = l.inbox side
  outbox : l'.inbox (!side) = l.inbox (!side) ++ writes (l.since side) effect

theorem performed_of_apply {effect : WsEffect} {rest : List WsEffect}
    (hopened : (l.peers side).phase = .opened) (hharmless : WsPeer.Harmless effect)
    (hqueue : (l.peers side).effects = effect :: rest) :
    Performed l ((l.perform side effect).popped side rest) side effect rest := by
  have hflush : WsPeer.effectsFlushed { l.peers side with effects := rest } =
      { l.peers side with effects := rest } := WsPeer.effectsFlushed_of_opened hopened
  have hother := Bool.not_ne_self side
  cases effect with
  | send message =>
    refine ⟨rfl, rfl, rfl, rfl, hqueue, ?_, ?_, ?_, ?_⟩
    · exact (Function.update_self _ _ _).trans hflush
    · exact Function.update_of_ne hother _ _
    · exact Function.update_of_ne hother.symm _ _
    · exact Function.update_self _ _ _
  | handleNodeMessage message =>
    refine ⟨rfl, rfl, rfl, rfl, hqueue, ?_, ?_, rfl, (List.append_nil _).symm⟩
    · exact (Function.update_self _ _ _).trans hflush
    · exact Function.update_of_ne hother _ _
  | closeSocket | unregister | notifyPeerClosed => exact hharmless.elim

section Performed

variable {effect : WsEffect} {rest : List WsEffect}

theorem Performed.bound_eq (h : Performed l l' side effect rest) (s : Bool) :
    l'.bound T s = l.bound T s := by
  unfold bound
  rcases Bool.eq_or_eq_not s side with rfl | rfl
  · rw [h.same]
  · rw [h.peer]

theorem Performed.effects_subset (h : Performed l l' side effect rest) (s : Bool) :
    (l'.peers s).effects ⊆ (l.peers s).effects := by
  rcases Bool.eq_or_eq_not s side with rfl | rfl
  · rw [h.same, h.queue]
    exact List.subset_cons_self _ _
  · rw [h.peer]
    exact List.Subset.refl _

/-- What is under way to an end was so before, or was written just now. -/
theorem Performed.mem_inbox (h : Performed l l' side effect rest) {s : Bool}
    {x : Instant × WsMessage} (hx : x ∈ l'.inbox s) :
    x ∈ l.inbox s ∨ s = !side ∧ x.1 = l.since side ∧ effect = .send x.2 := by
  rcases Bool.eq_or_eq_not s side with rfl | rfl
  · rw [h.inbox] at hx
    exact Or.inl hx
  · rw [h.outbox] at hx
    rcases List.mem_append.mp hx with hx | hx
    · exact Or.inl hx
    · cases effect with
      | send message =>
        obtain rfl := List.mem_singleton.mp hx
        exact Or.inr ⟨rfl, rfl, rfl⟩
      | _ => exact absurd hx List.not_mem_nil

theorem Performed.inbox_subset (h : Performed l l' side effect rest) (s : Bool) :
    l.inbox s ⊆ l'.inbox s := by
  rcases Bool.eq_or_eq_not s side with rfl | rfl
  · rw [h.inbox]
    exact List.Subset.refl _
  · rw [h.outbox]
    exact List.subset_append_left _ _

/-- A message that was still to be written still is, or is under way. -/
theorem Performed.written (h : Performed l l' side effect rest) {s : Bool} {message : WsMessage}
    (hmem : .send message ∈ (l.peers s).effects) :
    .send message ∈ (l'.peers s).effects ∨ (l.since s, message) ∈ l'.inbox !s := by
  rcases Bool.eq_or_eq_not s side with rfl | rfl
  · rw [h.queue] at hmem
    rcases List.mem_cons.mp hmem with rfl | hmem
    · rw [h.outbox]
      exact Or.inr (List.mem_append_right _ (List.mem_singleton_self _))
    · rw [h.same]
      exact Or.inl hmem
  · rw [h.peer]
    exact Or.inl hmem

theorem Performed.asked (h : Performed l l' side effect rest) {s : Bool}
    (hasked : l.Asked T s) : l'.Asked T s := by
  have hbound : l'.bound T s = l.bound T s := h.bound_eq s
  cases hasked with
  | pinging hmem hle =>
    rcases h.written hmem with hmem | hmem
    · exact .pinging hmem (by rw [h.since, hbound]; exact hle)
    · exact .pinged hmem (by rw [hbound]; exact hle)
  | pinged hmem hle => exact .pinged (h.inbox_subset _ hmem) (by rw [hbound]; exact hle)
  | answering hmem hle =>
    rcases h.written hmem with hmem | hmem
    · exact .answering hmem (by rw [h.since, hbound]; exact hle)
    · rw [Bool.not_not] at hmem
      exact .answered hmem (by rw [hbound]; exact hle)
  | answered hmem hle => exact .answered (h.inbox_subset _ hmem) (by rw [hbound]; exact hle)

theorem Performed.alive (h : Performed l l' side effect rest) (hl : ∀ side, l.Alive T side)
    (s : Bool) : l'.Alive T s := by
  have hs := hl s
  have hkeeps : (l'.peers s).phase = (l.peers s).phase ∧ (l'.peers s).hb = (l.peers s).hb := by
    rcases Bool.eq_or_eq_not s side with rfl | rfl
    · rw [h.same]
      exact ⟨rfl, rfl⟩
    · rw [h.peer]
      exact ⟨rfl, rfl⟩
  obtain ⟨hphase, hhb⟩ := hkeeps
  have hbusy := (hl side).busy (by rw [h.queue]; exact List.cons_ne_nil _ _)
  have hhead := (hl side).harmless effect (by rw [h.queue]; exact List.mem_cons_self)
  refine ⟨?_, ?_, ?_, ?_, ?_, ?_, ?_, ?_, ?_, ?_⟩
  · rw [hphase]
    exact hs.opened
  · rw [h.closed]
    exact hs.unclosed
  · rw [hhb]
    exact hs.interval
  · rw [hhb]
    exact hs.timeout
  · exact fun e he => hs.harmless e (h.effects_subset s he)
  · intro x hx
    rcases h.mem_inbox hx with hx | ⟨-, -, rfl⟩
    · exact hs.civil x hx
    · exact hhead
  · intro hne
    obtain ⟨e, he⟩ := List.exists_mem_of_ne_nil _ hne
    rw [h.started, h.now, h.since]
    exact hs.busy (List.ne_nil_of_mem (h.effects_subset s he))
  · intro x hx
    rw [h.now]
    rcases h.mem_inbox hx with hx | ⟨-, hsince, -⟩
    · exact hs.prompt x hx
    · rw [hsince]
      exact hbusy.2
  · rw [h.started, h.now, hhb, h.bound_eq]
    exact hs.quiet
  · rw [h.started, hhb]
    exact fun hstarted hping => h.asked (hs.asked hstarted hping)

end Performed

/-- Time passes as far as the drivers and the messages under way let it. -/
theorem alive_wait {now : Instant} (hl : ∀ side, l.Alive T side) (htime : l.InTime T now)
    (s : Bool) : Alive T { l with now := now } s := by
  have hs := hl s
  obtain ⟨hwake, hbusy, hprompt⟩ := htime s
  refine ⟨hs.opened, hs.unclosed, hs.interval, hs.timeout, hs.harmless, hs.civil, ?_, hprompt,
    ?_, ?_⟩
  · exact fun hne => ⟨(hs.busy hne).1, hbusy hne⟩
  · intro hstarted hping
    have hdeadline : (l.peers s).hb.nextDeadline ≤ (l.peers s).hb.lastRx + T.interval s := by
      unfold Heartbeat.nextDeadline
      rw [hping, hs.interval]
      exact min_le_left _ _
    have hlate := hwake hstarted (l.peers s).hb.nextDeadline (by
      unfold WsPeer.nextWake
      rw [if_pos hs.opened]
      exact Option.mem_some_self _)
    exact hlate.trans (Nat.add_le_add_right hdeadline _)
  · intro hstarted hping
    have hasked := hs.asked hstarted hping
    cases hasked with
    | pinging hmem hle => exact .pinging hmem hle
    | pinged hmem hle => exact .pinged hmem hle
    | answering hmem hle => exact .answering hmem hle
    | answered hmem hle => exact .answered hmem hle

theorem alive_start (hl : ∀ side, l.Alive T side) (hstarted : l.started side = false) (s : Bool) :
    (l.start T side).Alive T s := by
  have hidle : (l.peers side).effects = [] := by
    by_contra hne
    have hbusy := ((hl side).busy hne).1
    rw [hstarted] at hbusy
    cases hbusy
  have hs := hl s
  rcases Bool.eq_or_eq_not s side with rfl | rfl
  · have hpeer : (l.start T s).peers s =
        .newWithHeartbeat (l.peers s).peerId l.now (T.interval s) (T.timeout s) :=
      Function.update_self _ _ _
    refine ⟨?_, hs.unclosed, ?_, ?_, ?_, hs.civil, ?_, hs.prompt, ?_, ?_⟩
    · rw [hpeer]
      rfl
    · rw [hpeer]
      rfl
    · rw [hpeer]
      rfl
    · rw [hpeer]
      exact fun _ hmem => absurd hmem List.not_mem_nil
    · rw [hpeer]
      exact fun hne => absurd rfl hne
    · intro _ _
      unfold bound
      rw [hpeer]
      exact Nat.le_add_right_of_le (Nat.le_add_right _ _)
    · rw [hpeer]
      exact fun _ hne => absurd rfl hne
  · have hpeer : (l.start T side).peers (!side) = l.peers !side :=
      Function.update_of_ne (Bool.not_ne_self side) _ _
    have hother : (l.start T side).started (!side) = l.started !side :=
      Function.update_of_ne (Bool.not_ne_self side) _ _
    have hbound : (l.start T side).bound T (!side) = l.bound T !side := by
      unfold bound
      rw [hpeer]
    refine ⟨?_, hs.unclosed, ?_, ?_, ?_, hs.civil, ?_, hs.prompt, ?_, ?_⟩
    · rw [hpeer]
      exact hs.opened
    · rw [hpeer]
      exact hs.interval
    · rw [hpeer]
      exact hs.timeout
    · rw [hpeer]
      exact hs.harmless
    · rw [hpeer, hother]
      exact hs.busy
    · rw [hpeer, hother, hbound]
      exact hs.quiet
    · rw [hpeer, hother]
      intro hstarted hping
      cases hs.asked hstarted hping with
      | pinging hmem hle =>
        rw [← hpeer] at hmem
        exact .pinging hmem (by rw [hbound]; exact hle)
      | pinged hmem hle => exact .pinged hmem (by rw [hbound]; exact hle)
      | answering hmem hle =>
        rw [Bool.not_not, hidle] at hmem
        exact absurd hmem List.not_mem_nil
      | answered hmem hle => exact .answered hmem (by rw [hbound]; exact hle)

/-- An end that has taken an event that was not read from the socket. -/
theorem turned_of_take {e : WsEvent} (told : Bool → Bool) (sent : Bool → List NodeMessage)
    (hidle : l.Idle side) (hstays : (l.peers side).Stays ((l.peers side).step l.now e) l.now) :
    Turned l (take { l with told := told, sent := sent } side e) side := by
  have hpeer : (take { l with told := told, sent := sent } side e).peers side =
      (l.peers side).step l.now e := Function.update_self _ _ _
  refine ⟨rfl, rfl, rfl, rfl, ?_, rfl, hidle, ?_, Or.inl rfl⟩
  · exact Function.update_of_ne (Bool.not_ne_self side) _ _
  · rw [hpeer]
    exact hstays

/-- An end that has read a message that closes no session. -/
theorem turned_of_deliver {x : Instant × WsMessage} {rest : List (Instant × WsMessage)}
    (hinbox : l.inbox side = x :: rest) (hidle : l.Idle side)
    (hopened : (l.peers side).phase = .opened) (hcivil : WsPeer.Civil x.2) :
    Turned l (take { l with inbox := update l.inbox side rest } side (.fromWire x.2)) side := by
  have hother := Bool.not_ne_self side
  have hpeer : (take { l with inbox := update l.inbox side rest } side (.fromWire x.2)).peers side =
      (l.peers side).step l.now (.fromWire x.2) := Function.update_self _ _ _
  have hrest : (take { l with inbox := update l.inbox side rest } side (.fromWire x.2)).inbox side =
      rest := Function.update_self _ _ _
  obtain ⟨hstays, hrx, hping⟩ := WsPeer.stays_fromWire l.now hopened hidle.2.1 hcivil
  refine ⟨rfl, rfl, rfl, rfl, Function.update_of_ne hother _ _, Function.update_of_ne hother _ _,
    hidle, ?_, Or.inr ?_⟩
  · rw [hpeer]
    exact hstays
  · rw [hpeer, hrest]
    refine ⟨hrx, hping, x, hinbox, ?_⟩
    intro token htoken
    rw [htoken, WsPeer.step_fromWire_effects l.now hopened hidle.2.1]
    exact ⟨.pong token, List.mem_singleton_self _⟩

/-- What a router has sent was handed to the other, or is still on its way there, in order. -/
def Ordered (l : WsLink) : Prop := ∀ side,
  l.handed (!side) ++ l.handing (!side) ++ l.onWay (!side) ++ l.sending side = l.sent side

/-- What happens on one side reads from the front and writes at the end. -/
structure Passes (l l' : WsLink) (side : Bool) : Prop where
  reads : l'.handed side ++ l'.handing side ++ l'.onWay side =
    l.handed side ++ l.handing side ++ l.onWay side
  writes : ∃ more,
    l'.onWay (!side) ++ l'.sending side = l.onWay (!side) ++ l.sending side ++ more ∧
    l'.sent side = l.sent side ++ more
  handed : l'.handed (!side) = l.handed !side
  sent : l'.sent (!side) = l.sent !side
  peer : l'.peers (!side) = l.peers !side

theorem Passes.ordered (h : Passes l l' side) (hl : l.Ordered) : l'.Ordered := by
  have hhanding : l'.handing (!side) = l.handing !side := by
    unfold handing
    rw [h.peer]
  have hsending : l'.sending (!side) = l.sending !side := by
    unfold sending
    rw [h.peer]
  intro s
  rcases Bool.eq_or_eq_not s side with rfl | rfl
  · obtain ⟨more, hwrites, hsent⟩ := h.writes
    calc l'.handed (!s) ++ l'.handing (!s) ++ l'.onWay (!s) ++ l'.sending s
        = l.handed (!s) ++ l.handing (!s) ++ (l'.onWay (!s) ++ l'.sending s) := by
          rw [h.handed, hhanding, List.append_assoc]
      _ = l.handed (!s) ++ l.handing (!s) ++ l.onWay (!s) ++ l.sending s ++ more := by
          rw [hwrites]
          simp only [List.append_assoc]
      _ = l'.sent s := by rw [hl s, hsent]
  · have hs := hl !side
    rw [Bool.not_not] at hs ⊢
    rw [h.reads, hsending, h.sent]
    exact hs

theorem filterMap_effects (hidle : l.Idle side) : l.sending side = [] ∧ l.handing side = [] := by
  unfold sending handing
  rw [hidle.2.1]
  exact ⟨rfl, rfl⟩

/-- An event that is neither read from the socket nor sent by the router. -/
theorem Turned.passes (h : Turned l l' side) (hinbox : l'.inbox side = l.inbox side)
    (hhanded : l'.handed = l.handed) (hhanding : l'.handing side = [])
    (hsent : l'.sent (!side) = l.sent !side)
    (hwritten : l'.sent side = l.sent side ++ l'.sending side) : Passes l l' side := by
  obtain ⟨hsending, hhanding'⟩ := filterMap_effects h.idle
  have honWay : l'.onWay side = l.onWay side := by
    unfold onWay
    rw [hinbox]
  have honWay' : l'.onWay (!side) = l.onWay !side := by
    unfold onWay
    rw [h.inbox]
  refine ⟨?_, ⟨l'.sending side, ?_, hwritten⟩, ?_, hsent, h.peer⟩
  · rw [hhanded, hhanding, hhanding', honWay]
  · rw [honWay', hsending, List.append_nil]
  · rw [hhanded]

theorem Performed.passes {effect : WsEffect} {rest : List WsEffect}
    (h : Performed l l' side effect rest) (hharmless : WsPeer.Harmless effect)
    (hhanded : l'.handed side = l.handed side ++ effect.hands.toList)
    (hother : l'.handed (!side) = l.handed !side) (hsent : l'.sent = l.sent) :
    Passes l l' side := by
  have honWay : l'.onWay side = l.onWay side := by
    unfold onWay
    rw [h.inbox]
  refine ⟨?_, ⟨[], ?_, ?_⟩, hother, congrFun hsent _, h.peer⟩
  · have hhanding : l.handing side = effect.hands.toList ++ l'.handing side := by
      unfold handing
      rw [h.queue, h.same, List.filterMap_cons]
      cases effect.hands <;> rfl
    rw [hhanded, hhanding, honWay, List.append_assoc (l.handed side)]
  · have hsending : l.sending side = effect.sends.toList ++ l'.sending side := by
      unfold sending
      rw [h.queue, h.same, List.filterMap_cons]
      cases effect.sends <;> rfl
    have hwritten : l'.onWay (!side) = l.onWay (!side) ++ effect.sends.toList := by
      unfold onWay
      rw [h.outbox, List.filterMap_append]
      congr 1
      cases effect with
      | send message => cases message <;> rfl
      | handleNodeMessage message => rfl
      | closeSocket | unregister | notifyPeerClosed => exact hharmless.elim
    rw [hsending, hwritten, List.append_nil, List.append_assoc]
  · rw [hsent, List.append_nil]

/-- All is well on a link where no end was told to hang up. -/
def Well (T : Timing) (l : WsLink) : Prop := (∀ side, l.Alive T side) ∧ l.Ordered

theorem Alive.not_closed (h : ∀ side, l.Alive T side) : ¬ ∃ side, l.closed side = true := by
  rintro ⟨side, hclosed⟩
  rw [(h side).unclosed] at hclosed
  cases hclosed

theorem Well.start (h : l.Well T) (hstarted : l.started side = false) :
    (l.start T side).Well T := by
  obtain ⟨halive, hordered⟩ := h
  have hidle : (l.peers side).effects = [] := by
    by_contra hne
    have hbusy := ((halive side).busy hne).1
    rw [hstarted] at hbusy
    cases hbusy
  have hqueue (s : Bool) : ((l.start T side).peers s).effects = (l.peers s).effects := by
    rcases Bool.eq_or_eq_not s side with rfl | rfl
    · have hpeer : (l.start T s).peers s =
          .newWithHeartbeat (l.peers s).peerId l.now (T.interval s) (T.timeout s) :=
        Function.update_self _ _ _
      rw [hpeer, hidle]
      rfl
    · have hpeer : (l.start T side).peers (!side) = l.peers !side :=
        Function.update_of_ne (Bool.not_ne_self side) _ _
      rw [hpeer]
  refine ⟨alive_start halive hstarted, ?_⟩
  intro s
  have hs := hordered s
  unfold handing sending at hs ⊢
  rw [hqueue, hqueue]
  exact hs

theorem Well.apply (h : l.Well T) {effect : WsEffect} {rest : List WsEffect}
    (hqueue : (l.peers side).effects = effect :: rest) :
    ((l.perform side effect).popped side rest).Well T := by
  obtain ⟨halive, hordered⟩ := h
  have hharmless := (halive side).harmless effect (by rw [hqueue]; exact List.mem_cons_self)
  have hperformed := performed_of_apply (halive side).opened hharmless hqueue
  have hpasses : Passes l ((l.perform side effect).popped side rest) side := by
    cases effect with
    | send message =>
      have hsends : ((l.perform side (.send message)).popped side rest).handed = l.handed := rfl
      refine hperformed.passes hharmless ?_ (congrFun hsends _) rfl
      rw [hsends]
      exact (List.append_nil _).symm
    | handleNodeMessage message =>
      refine hperformed.passes hharmless ?_ ?_ rfl
      · exact Function.update_self _ _ _
      · exact Function.update_of_ne (Bool.not_ne_self side) _ _
    | closeSocket | unregister | notifyPeerClosed => exact hharmless.elim
  exact ⟨hperformed.alive halive, hpasses.ordered hordered⟩

/-- An event that is not read from the socket. -/
theorem Well.take (h : l.Well T) {e : WsEvent} (told : Bool → Bool) (more : Option NodeMessage)
    (hidle : l.Idle side) (hstays : (l.peers side).Stays ((l.peers side).step l.now e) l.now)
    (hhands : ((l.peers side).step l.now e).effects.filterMap WsEffect.hands = [])
    (hsends : ((l.peers side).step l.now e).effects.filterMap WsEffect.sends = more.toList) :
    Well T (WsLink.take { l with
      told := told
      sent := update l.sent side (l.sent side ++ more.toList) } side e) := by
  obtain ⟨halive, hordered⟩ := h
  generalize hsent : update l.sent side (l.sent side ++ more.toList) = sent
  have hturned := turned_of_take told sent hidle hstays
  have hpeer : (WsLink.take { l with told := told, sent := sent } side e).peers side =
      (l.peers side).step l.now e := Function.update_self _ _ _
  refine ⟨hturned.alive halive, Passes.ordered (hturned.passes rfl rfl ?_ ?_ ?_) hordered⟩
  · unfold handing
    rw [hpeer]
    exact hhands
  · exact (congrFun hsent.symm _).trans (Function.update_of_ne (Bool.not_ne_self side) _ _)
  · unfold sending
    rw [hpeer, hsends]
    exact (congrFun hsent.symm _).trans (Function.update_self _ _ _)

theorem Well.take' (h : l.Well T) {e : WsEvent} (told : Bool → Bool)
    (hidle : l.Idle side) (hstays : (l.peers side).Stays ((l.peers side).step l.now e) l.now)
    (hhands : ((l.peers side).step l.now e).effects.filterMap WsEffect.hands = [])
    (hsends : ((l.peers side).step l.now e).effects.filterMap WsEffect.sends = []) :
    Well T (WsLink.take { l with told := told } side e) := by
  have hsame : update l.sent side (l.sent side ++ (none : Option NodeMessage).toList) = l.sent := by
    rw [Option.toList_none, List.append_nil, Function.update_eq_self]
  have hwell := h.take told none hidle hstays hhands hsends
  rw [hsame] at hwell
  exact hwell

theorem Well.deliver (h : l.Well T) {x : Instant × WsMessage} {rest : List (Instant × WsMessage)}
    (hinbox : l.inbox side = x :: rest) (hidle : l.Idle side) :
    Well T (WsLink.take { l with inbox := update l.inbox side rest } side (.fromWire x.2)) := by
  obtain ⟨halive, hordered⟩ := h
  have hcivil := (halive side).civil x (by rw [hinbox]; exact List.mem_cons_self)
  have hopened := (halive side).opened
  have hturned := turned_of_deliver hinbox hidle hopened hcivil
  obtain ⟨hhands, hsends⟩ := WsPeer.replies_hands hcivil
  obtain ⟨hsending, hhanding⟩ := filterMap_effects hidle
  generalize hl' :
    WsLink.take { l with inbox := update l.inbox side rest } side (.fromWire x.2) = l'
    at hturned ⊢
  have hpeer : (l'.peers side).effects = WsPeer.replies x.2 := by
    rw [← WsPeer.step_fromWire_effects l.now hopened hidle.2.1, ← hl']
    exact congrArg WsPeer.effects (Function.update_self _ _ _)
  have hrest : l'.inbox side = rest := by
    rw [← hl']
    exact Function.update_self _ _ _
  have hhanded : l'.handed = l.handed := by rw [← hl', WsLink.take]
  have hsent : l'.sent = l.sent := by rw [← hl', WsLink.take]
  have hpasses : Passes l l' side := by
    refine ⟨?_, ⟨[], ?_, ?_⟩, congrFun hhanded _, congrFun hsent _, hturned.peer⟩
    · have hread : l'.handing side ++ l'.onWay side = l.onWay side := by
        unfold handing onWay
        rw [hpeer, hrest, hinbox, hhands, List.filterMap_cons]
        cases x.2.carries <;> rfl
      rw [hhanded, hhanding, List.append_assoc, hread, List.append_nil]
    · have hwritten : l'.sending side = [] := by
        unfold sending
        rw [hpeer]
        exact hsends
      have honWay : l'.onWay (!side) = l.onWay !side := by
        unfold onWay
        rw [hturned.inbox]
      rw [hwritten, hsending, honWay, List.append_nil, List.append_nil]
    · rw [hsent, List.append_nil]
  exact ⟨hturned.alive halive, hpasses.ordered hordered⟩

theorem Well.step (h : l.Well T) (hallowed : l.Timely T event) (hstep : l.step T event = some l')
    (htold : ∀ side, l'.told side = false) : l'.Well T := by
  have halive := h.1
  cases event with
  | start side =>
    obtain ⟨hstarted, hstep⟩ := Option.ite_none_left_eq_some.mp hstep
    cases hstep
    exact h.start (Bool.eq_false_iff.mpr hstarted)
  | apply side =>
    simp only [WsLink.step] at hstep
    split at hstep
    · cases hstep
    · cases hstep
      exact h.apply ‹_›
  | fail side | lost side => exact absurd hallowed (Alive.not_closed halive)
  | deliver side =>
    simp only [WsLink.step] at hstep
    split at hstep
    · cases hstep
    · obtain ⟨hidle, hstep⟩ := Option.ite_none_right_eq_some.mp hstep
      cases hstep
      exact h.deliver ‹_› hidle
  | control side control =>
    obtain ⟨hidle, hstep⟩ := Option.ite_none_right_eq_some.mp hstep
    cases hstep
    have hopened := (halive side).opened
    cases control with
    | shutdown =>
      have htold : update l.told side (l.told side || true) side = false := htold side
      rw [Function.update_self, Bool.or_true] at htold
      cases htold
    | resume =>
      have hping := WsPeer.step_resume_effects l.now hopened hidle.2.1
      refine h.take' _ hidle (WsPeer.stays_resume hopened hidle.2.1) ?_ ?_
      · rw [hping]
        rfl
      · rw [hping]
        rfl
  | fromNode side message =>
    obtain ⟨hidle, hstep⟩ := Option.ite_none_right_eq_some.mp hstep
    cases hstep
    have hsend := WsPeer.step_fromNode_effects l.now (halive side).opened hidle.2.1 message
    refine h.take l.told (some message) hidle
      (WsPeer.stays_fromNode (halive side).opened hidle.2.1 message) ?_ ?_
    · rw [hsend]
      rfl
    · rw [hsend]
      rfl
  | tick side =>
    obtain ⟨⟨hidle, -⟩, hstep⟩ := Option.ite_none_right_eq_some.mp hstep
    cases hstep
    have hopened := (halive side).opened
    have hdue := Alive.not_timedOut halive hidle.1
    refine h.take' l.told hidle (WsPeer.stays_tick hopened hidle.2.1 hdue) ?_ ?_
    · rcases WsPeer.step_tick_effects l.now hopened hidle.2.1 hdue with hnone | hping
      · rw [hnone]
        rfl
      · rw [hping]
        rfl
    · rcases WsPeer.step_tick_effects l.now hopened hidle.2.1 hdue with hnone | hping
      · rw [hnone]
        rfl
      · rw [hping]
        rfl
  | wait d =>
    cases hstep
    exact ⟨alive_wait halive hallowed, h.2⟩

theorem told_step (hstep : l.step T event = some l') {s : Bool} (htold : l.told s = true) :
    l'.told s = true := by
  cases event with
  | start side =>
    obtain ⟨-, hstep⟩ := Option.ite_none_left_eq_some.mp hstep
    cases hstep
    exact htold
  | apply side =>
    simp only [step] at hstep
    split at hstep
    · cases hstep
    · rename_i effect rest _
      cases hstep
      cases effect <;> exact htold
  | fail side =>
    simp only [step] at hstep
    split at hstep
    · cases hstep
      exact htold
    · cases hstep
      exact htold
    · cases hstep
  | deliver side =>
    simp only [step] at hstep
    split at hstep
    · cases hstep
    · obtain ⟨-, hstep⟩ := Option.ite_none_right_eq_some.mp hstep
      cases hstep
      exact htold
  | control side control =>
    obtain ⟨-, hstep⟩ := Option.ite_none_right_eq_some.mp hstep
    cases hstep
    change update l.told side (l.told side || decide (control = .shutdown)) s = true
    rcases Bool.eq_or_eq_not s side with rfl | rfl
    · rw [Function.update_self, htold, Bool.true_or]
    · rw [Function.update_of_ne (Bool.not_ne_self side)]
      exact htold
  | lost side | fromNode side message | tick side =>
    obtain ⟨-, hstep⟩ := Option.ite_none_right_eq_some.mp hstep
    cases hstep
    exact htold
  | wait d =>
    cases hstep
    exact htold

theorem well_of_fresh (h : l.Fresh T) : l.Well T := by
  refine ⟨fun side => ?_, fun side => ?_⟩
  · obtain ⟨hstarted, hinbox, hclosed, -, -, -, peerId, now, hpeer⟩ := h side
    refine ⟨?_, hclosed, ?_, ?_, ?_, ?_, ?_, ?_, ?_, ?_⟩
    · rw [hpeer]
      rfl
    · rw [hpeer]
      rfl
    · rw [hpeer]
      rfl
    · rw [hpeer]
      exact fun _ hmem => absurd hmem List.not_mem_nil
    · rw [hinbox]
      exact fun _ hmem => absurd hmem List.not_mem_nil
    · rw [hpeer]
      exact fun hne => absurd rfl hne
    · rw [hinbox]
      exact fun _ hmem => absurd hmem List.not_mem_nil
    · rw [hstarted]
      exact fun hstart => absurd hstart Bool.false_ne_true
    · rw [hstarted]
      exact fun hstart => absurd hstart Bool.false_ne_true
  · obtain ⟨-, -, -, -, hsent, -, peerId, now, hpeer⟩ := h side
    obtain ⟨-, hinbox, -, -, -, hhanded, peerId', now', hpeer'⟩ := h !side
    unfold handing onWay sending
    rw [hpeer, hpeer', hinbox, hhanded, hsent]
    rfl

/-- All is well in every timely run until an end is told to hang up. -/
theorem told_or_well (h : (machine T).Reaches (Timely T) l) :
    (∃ side, l.told side = true) ∨ l.Well T := by
  refine h.invariant (P := fun l => (∃ side, l.told side = true) ∨ l.Well T)
    (fun l hfresh => Or.inr (well_of_fresh hfresh)) ?_
  rintro l event l' (⟨side, htold⟩ | hwell) hallowed hstep
  · exact Or.inl ⟨side, told_step hstep htold⟩
  · by_cases htold : ∃ side, l'.told side = true
    · exact Or.inl htold
    · refine Or.inr (hwell.step hallowed hstep fun side => ?_)
      exact Bool.eq_false_iff.mpr fun hside => htold ⟨side, hside⟩

/-- As long as no end is told to hang up, no end takes the other for dead, however rarely the
routers talk, and what one router has sent was handed to the other, or is on its way there,
in order, none of it twice and none of it lost. -/
theorem stays_open (h : (machine T).Reaches (Timely T) l) (htold : ∀ side, l.told side = false)
    (side : Bool) : (l.peers side).phase = .opened ∧
    (l.started side = true → (l.peers side).hb.timedOut l.now = false) ∧
    l.handed (!side) ++ l.handing (!side) ++ l.onWay (!side) ++ l.sending side = l.sent side := by
  rcases told_or_well h with ⟨s, hs⟩ | ⟨halive, hordered⟩
  · rw [htold s] at hs
    cases hs
  · exact ⟨(halive side).opened, Alive.not_timedOut halive, hordered side⟩

theorem usual_fits :
    WsPeer.defaultHeartbeatInterval + 1000 + 2 * 5000 < WsPeer.defaultHeartbeatTimeout := by
  decide

/-- The settings of every session, with a second of oversleep and five on the way. -/
def usual : Timing := .standard 1000 5000 usual_fits

/-- The two ends before they start. -/
def unstarted (T : Timing) : WsLink where
  now := 0
  started _ := false
  peers side := .newWithHeartbeat (if side then 1 else 2) 0 (T.interval side) (T.timeout side)
  since _ := 0
  inbox _ := []
  closed _ := false
  told _ := false
  sent _ := []
  handed _ := []

/-- The ends ask after each other for a minute, and then each router sends a message. -/
def silentMinute : List WsLinkEvent :=
  [.start false, .wait 2000, .start true, .wait 13000,
    .tick false, .apply false, .wait 1000, .deliver true, .apply true, .wait 500, .deliver false,
    .wait 14500, .tick true, .apply true, .deliver false, .apply false, .deliver true,
    .wait 15500, .tick true, .tick false, .apply true, .apply false, .wait 500, .deliver true,
    .deliver false, .apply true, .apply false, .deliver true, .deliver false,
    .wait 13000, .fromNode false (.lsaAck ⟨2, 2⟩ 7), .apply false, .wait 300, .deliver true,
    .apply true, .fromNode true (.lsaAck ⟨1, 1⟩ 9), .apply true]

/-- The first message has arrived, and the second is on its way. -/
theorem stays_open_of_silent : ∃ l : WsLink, l.now = 60300 ∧
    l.handed true = [.lsaAck ⟨2, 2⟩ 7] ∧ l.onWay false = [.lsaAck ⟨1, 1⟩ 9] ∧
    (l.peers true).phase = .opened ∧
    (l.started true = true → (l.peers true).hb.timedOut l.now = false) ∧
    l.handed false ++ l.handing false ++ l.onWay false ++ l.sending true = l.sent true := by
  have hend : (Machine.run (step usual) (Timely usual) (unstarted usual) silentMinute).map
      (fun l => (l.now, l.handed true, l.onWay false, l.told true, l.told false)) =
      some (60300, [.lsaAck ⟨2, 2⟩ 7], [.lsaAck ⟨1, 1⟩ 9], false, false) := by
    decide +kernel
  obtain ⟨l, hrun, hend⟩ := Option.map_eq_some_iff.mp hend
  simp only [Prod.mk.injEq] at hend
  obtain ⟨hnow, hhanded, honWay, htrue, hfalse⟩ := hend
  have hreaches : (machine usual).Reaches (Timely usual) l := by
    refine .run (fun _ _ _ hstep => hstep) (.init fun side => ?_) hrun
    exact ⟨rfl, rfl, rfl, rfl, rfl, rfl, _, _, rfl⟩
  have htold (side : Bool) : l.told side = false := by
    cases side
    · exact hfalse
    · exact htrue
  exact ⟨l, hnow, hhanded, honWay, stays_open hreaches htold true⟩

end WsLink

end Anybus
