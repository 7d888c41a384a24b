import Anybus.Core.Machine
import Anybus.Peers.IpcPeer
import Anybus.Peers.WsPeer

/-!
# The clock of a session

A driver sleeps until the deadline of its heartbeat, and then closes the session or pings
the peer. It never wakes up for nothing, and it never goes back to sleep until a time that
is already over. If it wakes up in time, then a session that it closes was silent for the
whole timeout and was pinged since the peer was last heard of.
-/

namespace Anybus

namespace Heartbeat

variable {hb : Heartbeat} {now later : Instant}

/-- What a driver does when it wakes up: close the session, which is `none`, or ping. -/
def tick (hb : Heartbeat) (now : Instant) : Option Heartbeat :=
  if hb.timedOut now then none
  else if hb.pingDue now then some (hb.takePingToken now).1
  else some hb

/-- A driver that wakes up at its deadline or later finds something to do. -/
theorem due_of_nextDeadline_le (h : hb.nextDeadline ≤ now) :
    hb.timedOut now = true ∨ hb.pingDue now = true := by
  simp only [nextDeadline] at h
  rcases min_le_iff.mp h with hpoke | hdie
  · right
    simpa only [pingDue, decide_eq_true_eq] using hpoke
  · left
    simp only [timedOut, decide_eq_true_eq]
    exact Nat.le_sub_of_add_le' hdie

/-- A ping that leaves before the end of the silence moves the deadline ahead, also if the
clock has moved on since the driver woke up. -/
theorem lt_nextDeadline_takePingToken (hinterval : 0 < hb.interval)
    (hout : hb.timedOut now = false) (hlater : now ≤ later) :
    now < (hb.takePingToken later).1.nextDeadline := by
  simp only [timedOut, decide_eq_false_iff_not] at hout
  apply lt_min
  · exact Nat.lt_of_le_of_lt hlater (Nat.lt_add_of_pos_right hinterval)
  · show now < hb.lastRx + hb.timeout
    grind

/-- A tick that is due closes the session or pings. -/
theorem tick_of_nextDeadline_le (hdue : hb.nextDeadline ≤ now) :
    (hb.timedOut now = true ∧ hb.tick now = none) ∨
      (hb.timedOut now = false ∧ hb.tick now = some (hb.takePingToken now).1) := by
  cases hout : hb.timedOut now with
  | true => exact Or.inl ⟨rfl, if_pos hout⟩
  | false =>
    have hping : hb.pingDue now = true :=
      (due_of_nextDeadline_le hdue).resolve_left (by simp [hout])
    exact Or.inr ⟨rfl, (if_neg (by simp [hout])).trans (if_pos hping)⟩

/-- A session that stays open after a tick that was due sleeps until a later time. -/
theorem lt_nextDeadline_of_tick {hb' : Heartbeat} (hinterval : 0 < hb.interval)
    (hdue : hb.nextDeadline ≤ now) (htick : hb.tick now = some hb') : now < hb'.nextDeadline := by
  rcases tick_of_nextDeadline_le hdue with ⟨-, hnone⟩ | ⟨hout, hsome⟩
  · rw [hnone] at htick
    cases htick
  · obtain rfl := Option.some.inj (hsome.symm.trans htick)
    exact lt_nextDeadline_takePingToken hinterval hout le_rfl

/-- At the very deadline the silence is only over if a ping went out before. -/
theorem lastPing_ne_none_of_timedOut (hshort : hb.interval < hb.timeout)
    (hout : hb.timedOut hb.nextDeadline = true) : hb.lastPing ≠ none := by
  intro hnone
  simp only [timedOut, nextDeadline, hnone, decide_eq_true_eq] at hout
  grind

end Heartbeat

namespace WsPeer

variable {peer : WsPeer}

/-- A tick closes a session of the web transport exactly when the heartbeat does. -/
theorem onTick_eq (now : Instant) (hopen : peer.phase = .opened) :
    (peer.hb.tick now = none ∧ (peer.onTick now).phase = .closing) ∨
      ((peer.onTick now).phase = .opened ∧ peer.hb.tick now = some (peer.onTick now).hb) := by
  unfold onTick Heartbeat.tick
  cases peer.hb.timedOut now with
  | true => left; simp [close, hopen]
  | false =>
    right
    cases peer.hb.pingDue now <;> simp [emitPing, emit, hopen]

end WsPeer

/-- The heartbeat branch of a link between two buses of one process. The loop ends if the
silence was too long or the ping cannot be sent, which is `none`. -/
def dummyTick (hb : Heartbeat) (now : Instant) (sent : Bool) : Option Heartbeat :=
  if hb.timedOut now then none
  else if hb.pingDue now then if sent then some (hb.takePingToken now).1 else none
  else some hb

theorem dummyTick_eq_some {hb hb' : Heartbeat} {now : Instant} {sent : Bool}
    (h : dummyTick hb now sent = some hb') : hb.tick now = some hb' := by
  unfold dummyTick at h
  unfold Heartbeat.tick
  cases hout : hb.timedOut now with
  | true => simp [hout] at h
  | false =>
    cases hping : hb.pingDue now <;> cases sent <;> simp_all

/-- The heartbeat branch of a session between processes, which reads the clock once more
before the ping: the session closes, or goes back to its messages with a later deadline. -/
theorem IpcPeer.heartbeatTick_eq {τ : Type} {peer : IpcPeer τ} {ctx : IpcContext}
    (hstate : peer.state = .heartbeatTick) (hinterval : 0 < peer.hb.interval)
    (hdue : peer.hb.nextDeadline ≤ ctx.now) :
    (peer.hb.tick ctx.now = none ∧ peer.next ctx .proceed = some (peer.goto .closePeer, [])) ∨
      (peer.next ctx .proceed = some (peer.goto .sendPing, []) ∧
        ∀ ctx' : IpcContext, ctx.now ≤ ctx'.now → ∀ ok, ∃ peer',
          (peer.goto .sendPing).next ctx' (.wrote ok) =
            some (peer', [.send (.ping peer.hb.nextToken) ok]) ∧
          peer'.hb = (peer.hb.takePingToken ctx'.now).1 ∧ ctx.now < peer'.hb.nextDeadline) := by
  have hnext : peer.next ctx .proceed =
      if peer.hb.timedOut ctx.now then some (peer.goto .closePeer, [])
      else if peer.hb.pingDue ctx.now then some (peer.goto .sendPing, [])
      else some (peer.goto .waitForMessages, []) := by
    rw [IpcPeer.next.eq_def, hstate]
  cases hout : peer.hb.timedOut ctx.now with
  | true =>
    left
    exact ⟨if_pos hout, by rw [hnext, if_pos hout]⟩
  | false =>
    have hping : peer.hb.pingDue ctx.now = true :=
      (Heartbeat.due_of_nextDeadline_le hdue).resolve_left (by simp [hout])
    right
    refine ⟨by rw [hnext, if_neg (by simp [hout]), if_pos hping], ?_⟩
    intro ctx' hlater ok
    refine ⟨_, rfl, rfl, ?_⟩
    exact Heartbeat.lt_nextDeadline_takePingToken hinterval hout hlater

/-- What a heartbeat lets its drivers do at a time. -/
structure Heartbeat.Progress (hb : Heartbeat) (now : Instant) : Prop where
  /-- There is something to do. -/
  due : hb.timedOut now = true ∨ hb.pingDue now = true
  /-- The session is closed, or pings and sleeps until a later time. -/
  ahead : (hb.timedOut now = true ∧ hb.tick now = none) ∨
    (hb.tick now = some (hb.takePingToken now).1 ∧ now < (hb.takePingToken now).1.nextDeadline)
  /-- So does an open session of the web transport. -/
  ws : ∀ peer : WsPeer, peer.hb = hb → peer.phase = .opened →
    (peer.onTick now).phase = .closing ∨
      ∃ wake, (peer.onTick now).nextWake = some wake ∧ now < wake
  /-- So does a session between processes. -/
  ipc : ∀ {τ : Type} (peer : IpcPeer τ) (ctx : IpcContext), peer.hb = hb → ctx.now = now →
    peer.state = .heartbeatTick →
    peer.next ctx .proceed = some (peer.goto .closePeer, []) ∨
      (peer.next ctx .proceed = some (peer.goto .sendPing, []) ∧
        ∀ ctx' : IpcContext, now ≤ ctx'.now → ∀ ok, ∃ peer' effects,
          (peer.goto .sendPing).next ctx' (.wrote ok) = some (peer', effects) ∧
          now < peer'.hb.nextDeadline)
  /-- So does a link within the process. -/
  dummy : ∀ sent, dummyTick hb now sent = none ∨
    ∃ hb', dummyTick hb now sent = some hb' ∧ now < hb'.nextDeadline

theorem Heartbeat.progress {hb : Heartbeat} {now : Instant} (hinterval : 0 < hb.interval)
    (hdue : hb.nextDeadline ≤ now) : hb.Progress now := by
  refine ⟨due_of_nextDeadline_le hdue, ?_, ?_, ?_, ?_⟩
  · rcases tick_of_nextDeadline_le hdue with hclosed | ⟨-, hping⟩
    · exact Or.inl hclosed
    · exact Or.inr ⟨hping, lt_nextDeadline_of_tick hinterval hdue hping⟩
  · rintro peer rfl hopen
    rcases WsPeer.onTick_eq now hopen with ⟨-, hclosing⟩ | ⟨hstill, htick⟩
    · exact Or.inl hclosing
    · refine Or.inr ⟨_, if_pos hstill, ?_⟩
      exact lt_nextDeadline_of_tick hinterval hdue htick
  · rintro τ peer ctx rfl rfl hstate
    rcases IpcPeer.heartbeatTick_eq hstate hinterval hdue with ⟨-, hclose⟩ | ⟨hping, hsent⟩
    · exact Or.inl hclose
    · refine Or.inr ⟨hping, ?_⟩
      intro ctx' hlater ok
      obtain ⟨peer', hnext, -, hlt⟩ := hsent ctx' hlater ok
      exact ⟨peer', _, hnext, hlt⟩
  · intro sent
    cases htick : dummyTick hb now sent with
    | none => exact Or.inl rfl
    | some hb' =>
      exact Or.inr ⟨hb', rfl, lt_nextDeadline_of_tick hinterval hdue (dummyTick_eq_some htick)⟩

/-- What happens to a heartbeat. -/
inductive ClockEvent where
  | onRx
  | noteResume
  | takePingToken
  | tick
  deriving DecidableEq, Repr

/-- What a trace remembers. -/
inductive Sign where
  | heard
  | resumed
  | pinged
  deriving DecidableEq, Repr

/-- A heartbeat with the time of the last event, whether the session was closed for its
silence, and all signs so far, oldest first. -/
structure Clock where
  hb : Heartbeat
  now : Instant
  closed : Bool
  trace : List (Instant × Sign)

namespace Clock

def new (start : Instant) (interval timeout : Duration) : Clock :=
  ⟨.new start interval timeout, start, false, []⟩

/-- One event at a time. -/
def next (c : Clock) (now : Instant) : ClockEvent → Clock
  | .onRx => { c with hb := c.hb.onRx now, now := now, trace := c.trace ++ [(now, .heard)] }
  | .noteResume =>
    { c with hb := c.hb.noteResume now, now := now, trace := c.trace ++ [(now, .resumed)] }
  | .takePingToken =>
    { c with hb := (c.hb.takePingToken now).1, now := now, trace := c.trace ++ [(now, .pinged)] }
  | .tick =>
    match c.hb.tick now with
    | none => { c with now := now, closed := true }
    | some hb =>
      let pings := if c.hb.pingDue now then [(now, Sign.pinged)] else []
      { c with hb := hb, now := now, trace := c.trace ++ pings }

/-- The runs of a heartbeat that starts at some time. -/
def machine (start : Instant) (interval timeout : Duration) :
    Machine Clock (Instant × ClockEvent) where
  init c := c = new start interval timeout
  step c event c' := c' = c.next event.1 event.2

/-- The session is open and the time does not go back. -/
def Ordered (c : Clock) (event : Instant × ClockEvent) : Prop :=
  c.closed = false ∧ c.now ≤ event.1

instance (c : Clock) (event : Instant × ClockEvent) : Decidable (c.Ordered event) :=
  inferInstanceAs (Decidable (_ ∧ _))

/-- Besides, the driver wakes up at the very deadline. -/
def Punctual (c : Clock) (event : Instant × ClockEvent) : Prop :=
  c.Ordered event ∧ (event.2 = .tick → event.1 = c.hb.nextDeadline)

instance (c : Clock) (event : Instant × ClockEvent) : Decidable (c.Punctual event) :=
  inferInstanceAs (Decidable (_ ∧ (_ → _)))

variable {start : Instant} {interval timeout : Duration} {c : Clock}

/-- The heartbeat and the trace tell the same: when the peer was heard of last, and that a
ping of the heartbeat is the last thing that happened. -/
structure Tracks (start : Instant) (interval timeout : Duration) (c : Clock) : Prop where
  interval_eq : c.hb.interval = interval
  timeout_eq : c.hb.timeout = timeout
  start_le : start ≤ c.hb.lastRx
  lastRx_le : c.hb.lastRx ≤ c.now
  heard_le : ∀ t, (t, Sign.heard) ∈ c.trace → t ≤ c.hb.lastRx
  pinged : ∀ sent, c.hb.lastPing = some sent → ∃ before, c.trace = before ++ [(sent, .pinged)]

theorem tracks_new : (new start interval timeout).Tracks start interval timeout where
  interval_eq := rfl
  timeout_eq := rfl
  start_le := Nat.le_refl start
  lastRx_le := Nat.le_refl start
  heard_le := fun t ht => absurd ht List.not_mem_nil
  pinged := by
    intro sent hsent
    cases hsent

/-- A sign of life, or a resume in its place, starts the silence anew. -/
theorem Tracks.reset (h : c.Tracks start interval timeout) {now : Instant} (hle : c.now ≤ now)
    (sign : Sign) :
    Tracks start interval timeout
      { c with hb := c.hb.onRx now, now := now, trace := c.trace ++ [(now, sign)] } where
  interval_eq := h.interval_eq
  timeout_eq := h.timeout_eq
  start_le := (h.start_le.trans h.lastRx_le).trans hle
  lastRx_le := Nat.le_refl now
  heard_le := by
    intro t ht
    rcases List.mem_append.mp ht with hold | hnew
    · exact ((h.heard_le t hold).trans h.lastRx_le).trans hle
    · exact (Prod.mk.inj (List.mem_singleton.mp hnew)).1.le
  pinged := by
    intro sent hsent
    cases hsent

theorem Tracks.ping (h : c.Tracks start interval timeout) {now : Instant} (hle : c.now ≤ now) :
    Tracks start interval timeout
      { c with
        hb := (c.hb.takePingToken now).1
        now := now
        trace := c.trace ++ [(now, .pinged)] } where
  interval_eq := h.interval_eq
  timeout_eq := h.timeout_eq
  start_le := h.start_le
  lastRx_le := h.lastRx_le.trans hle
  heard_le := by
    intro t ht
    rcases List.mem_append.mp ht with hold | hnew
    · exact h.heard_le t hold
    · exact absurd (List.mem_singleton.mp hnew) (by simp)
  pinged := by
    intro sent hsent
    obtain rfl : now = sent := Option.some.inj hsent
    exact ⟨c.trace, rfl⟩

/-- Time alone changes nothing. -/
theorem Tracks.wait (h : c.Tracks start interval timeout) {now : Instant} (hle : c.now ≤ now)
    (closed : Bool) : Tracks start interval timeout { c with now := now, closed := closed } where
  interval_eq := h.interval_eq
  timeout_eq := h.timeout_eq
  start_le := h.start_le
  lastRx_le := h.lastRx_le.trans hle
  heard_le := h.heard_le
  pinged := h.pinged

theorem Tracks.next (h : c.Tracks start interval timeout) {now : Instant} (hle : c.now ≤ now)
    (event : ClockEvent) : (c.next now event).Tracks start interval timeout := by
  cases event with
  | onRx => exact h.reset hle .heard
  | noteResume => exact h.reset hle .resumed
  | takePingToken => exact h.ping hle
  | tick =>
    unfold Clock.next Heartbeat.tick
    cases hout : c.hb.timedOut now with
    | true => exact h.wait hle true
    | false =>
      cases hping : c.hb.pingDue now with
      | true => exact h.ping hle
      | false => simpa [hping] using h.wait hle c.closed

theorem tracks_of_reaches (h : (machine start interval timeout).Reaches Ordered c) :
    c.Tracks start interval timeout := by
  refine h.invariant ?_ ?_
  · rintro c rfl
    exact tracks_new
  · rintro c event c' hc ⟨-, hle⟩ rfl
    exact hc.next hle event.2

/-- The end of a session that was closed for its silence. -/
structure ClosedFairly (start : Instant) (timeout : Duration) (c : Clock) : Prop where
  /-- Nothing was received for the whole timeout. -/
  silent : start + timeout ≤ c.now ∧ ∀ t, (t, Sign.heard) ∈ c.trace → t + timeout ≤ c.now
  /-- There is a ping after which there are only pings. -/
  pinged : ∃ before sent after, c.trace = before ++ (sent, Sign.pinged) :: after ∧
    ∀ sign ∈ after, sign.2 = .pinged

/-- What is true of the heartbeat when the session is closed. -/
def Expired (c : Clock) : Prop :=
  c.closed = true → c.hb.timedOut c.now = true ∧ c.hb.lastPing ≠ none

theorem expired_next (hshort : c.hb.interval < c.hb.timeout) {event : Instant × ClockEvent}
    (hallowed : c.Punctual event) : (c.next event.1 event.2).Expired := by
  obtain ⟨now, event⟩ := event
  obtain ⟨⟨hopen, -⟩, hdeadline⟩ := hallowed
  intro hclosed
  cases event with
  | onRx | noteResume | takePingToken => exact absurd hclosed (by simp [next, hopen])
  | tick =>
    obtain rfl : now = c.hb.nextDeadline := hdeadline rfl
    rcases Heartbeat.tick_of_nextDeadline_le (le_refl c.hb.nextDeadline) with
      ⟨hout, htick⟩ | ⟨-, htick⟩
    · simp only [next, htick]
      exact ⟨hout, Heartbeat.lastPing_ne_none_of_timedOut hshort hout⟩
    · simp [next, htick, hopen] at hclosed

theorem expired_of_reaches (hshort : interval < timeout)
    (h : (machine start interval timeout).Reaches Punctual c) : c.Expired := by
  cases h with
  | init hinit =>
    cases hinit
    intro hclosed
    cases hclosed
  | step event hprev hallowed hstep =>
    have htracks := tracks_of_reaches (hprev.mono fun _ _ hp => hp.1)
    cases hstep
    apply expired_next _ hallowed
    rw [htracks.interval_eq, htracks.timeout_eq]
    exact hshort

/-- A heartbeat that timed out is as long behind as its timeout says. -/
theorem Tracks.closedFairly (h : c.Tracks start interval timeout) (hpos : 0 < timeout)
    (hout : c.hb.timedOut c.now = true) (hping : c.hb.lastPing ≠ none) :
    c.ClosedFairly start timeout := by
  have hle : c.hb.lastRx + timeout ≤ c.now := by
    simp only [Heartbeat.timedOut, h.timeout_eq, decide_eq_true_eq] at hout
    grind
  refine ⟨⟨?_, ?_⟩, ?_⟩
  · exact (Nat.add_le_add_right h.start_le timeout).trans hle
  · intro t ht
    exact (Nat.add_le_add_right (h.heard_le t ht) timeout).trans hle
  · obtain ⟨sent, hsent⟩ := Option.ne_none_iff_exists'.mp hping
    obtain ⟨before, htrace⟩ := h.pinged sent hsent
    exact ⟨before, sent, [], htrace, fun sign hsign => absurd hsign List.not_mem_nil⟩

/-- The clock makes progress at every deadline, and if the driver is in time and the
interval is shorter than the timeout, no session is closed that was not silent and pinged. -/
theorem progresses_and_closes_fairly (start : Instant) (interval timeout : Duration)
    (hinterval : 0 < interval) :
    (∀ c, (machine start interval timeout).Reaches Ordered c →
      ∀ now, c.hb.nextDeadline ≤ now → c.hb.Progress now) ∧
    (interval < timeout → ∀ c, (machine start interval timeout).Reaches Punctual c →
      c.closed = true → c.ClosedFairly start timeout) := by
  constructor
  · intro c hc now hdue
    apply Heartbeat.progress _ hdue
    rw [(tracks_of_reaches hc).interval_eq]
    exact hinterval
  · intro hshort c hc hclosed
    obtain ⟨hout, hping⟩ := expired_of_reaches hshort hc hclosed
    have htracks := tracks_of_reaches (hc.mono fun _ _ hp => hp.1)
    exact htracks.closedFairly (hinterval.trans hshort) hout hping

/-- A session with the intervals of the web transport that hears of its peer once, at 7000,
and wakes up three times after that. -/
def heardOnce : Clock :=
  (((new 0 WsPeer.defaultHeartbeatInterval WsPeer.defaultHeartbeatTimeout).next 7000
    .onRx).next 22000 .tick).next 37000 .tick |>.next 52000 .tick

theorem reaches_heardOnce :
    (machine 0 WsPeer.defaultHeartbeatInterval WsPeer.defaultHeartbeatTimeout).Reaches
      Punctual heardOnce := by
  refine .step (52000, .tick) (.step (37000, .tick) (.step (22000, .tick) (.step (7000, .onRx)
    (.init rfl) ?_ rfl) ?_ rfl) ?_ rfl) ?_ rfl
  all_goals decide

theorem heardOnce_closes_fairly :
    (machine 0 WsPeer.defaultHeartbeatInterval WsPeer.defaultHeartbeatTimeout).Reaches
        Punctual heardOnce ∧
      heardOnce.closed = true ∧ heardOnce.ClosedFairly 0 WsPeer.defaultHeartbeatTimeout := by
  have hclosed : heardOnce.closed = true := by decide
  refine ⟨reaches_heardOnce, hclosed, ?_⟩
  exact (progresses_and_closes_fairly 0 _ _ (by decide)).2 (by decide) _ reaches_heardOnce hclosed

end Clock

end Anybus
