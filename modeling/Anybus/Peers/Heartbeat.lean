import Anybus.Routing.Basic

/-!
# The heartbeat of a session

A session pings its peer after an interval of silence and gives up after a longer
timeout. Anything that comes in counts as a sign of life.
-/

namespace Anybus

/-- The number that pairs a ping with its pong, 64 bits wide. -/
abbrev PingToken := UInt64

/-- The clock of one session. -/
structure Heartbeat where
  interval : Duration
  timeout : Duration
  lastRx : Instant
  lastPing : Option Instant
  outstanding : Option PingToken
  nextToken : PingToken
  deriving DecidableEq, Repr

namespace Heartbeat

def new (now : Instant) (interval timeout : Duration) : Heartbeat where
  interval := interval
  timeout := timeout
  lastRx := now
  lastPing := none
  outstanding := none
  nextToken := 1

/-- The peer has been heard of. -/
def onRx (hb : Heartbeat) (now : Instant) : Heartbeat :=
  { hb with lastRx := now, lastPing := none, outstanding := none }

/-- The local clock has jumped; the gap is not the peer's silence. -/
def noteResume (hb : Heartbeat) (now : Instant) : Heartbeat := hb.onRx now

/-- When the driver wakes up next: for the next ping, or at the end of the silence. -/
def nextDeadline (hb : Heartbeat) : Instant :=
  let pokeAt := match hb.lastPing with
    | some sent => sent + hb.interval
    | none => hb.lastRx + hb.interval
  let dieAt := hb.lastRx + hb.timeout
  min pokeAt dieAt

/-- The silence has lasted for the whole timeout. -/
def timedOut (hb : Heartbeat) (now : Instant) : Bool := decide (hb.timeout ≤ now - hb.lastRx)

/-- The interval since the last ping, or the last sign of life, is over. -/
def pingDue (hb : Heartbeat) (now : Instant) : Bool :=
  let due := match hb.lastPing with
    | some sent => sent + hb.interval
    | none => hb.lastRx + hb.interval
  decide (due ≤ now)

/-- Take the next token for a ping; the counter wraps around. -/
def takePingToken (hb : Heartbeat) (now : Instant) : Heartbeat × PingToken :=
  ({ hb with
    nextToken := hb.nextToken + 1
    lastPing := some now
    outstanding := some hb.nextToken }, hb.nextToken)

end Heartbeat

end Anybus
