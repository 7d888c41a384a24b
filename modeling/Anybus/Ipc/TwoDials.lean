import Anybus.Peers.IpcManager
import Mathlib.Logic.Function.Basic

/-!
# Two nodes that dial each other

Two managers, a stream opened by each of them, and a session at each of the four ends.
Commands, controls and the messages of a stream arrive in the order they were sent, and
nothing else is ordered. No clock runs: neither the handshake nor the heartbeat times out.
A peer dialled in the meantime is recorded, the stream to it is not followed.
-/

namespace Anybus

/-- One end of a stream: the side it belongs to and the side that opened the stream. -/
abbrev End := Bool × Bool

/-- The other end of the stream. -/
def End.far (e : End) : End := (!e.1, e.2)

/-- The control channels: those of the two sessions with the other node, and those of the
sessions with further nodes. -/
abbrev Control (σ : Type) := Bool ⊕ σ

/-- The two nodes and everything on its way between their parts. -/
structure Dials (σ : Type) where
  manager : Bool → IpcManager (Control σ)
  /-- What a manager has still to answer. -/
  commands : Bool → List (IpcCommand (Control σ))
  counter : Bool → ConnectionId
  session : End → IpcPeer (Control σ)
  /-- What an end has still to read. -/
  wire : End → List IpcMessage
  /-- Whether an end has been closed by its session. -/
  closed : End → Bool
  control : End → List IpcControl
  /-- The sessions a manager was told are ready, in the order it answered. -/
  readied : Bool → List Bool
  /-- The peers a manager has dialled since. -/
  dialled : Bool → List NodeId

namespace Dials

variable {σ : Type}

/-- The id of a node. -/
def id (s : Dials σ) (x : Bool) : NodeId := (s.manager x).ourNodeid

/-- Both nodes have dialled, and no session has said anything yet. -/
def start (manager : Bool → IpcManager (Control σ)) (counter : Bool → ConnectionId) (now : Instant)
    (interval timeout : Duration) : Dials σ where
  manager := fun x => { manager x with pending := insert (manager !x).ourNodeid (manager x).pending }
  commands := fun _ => []
  counter := counter
  session := fun e => .new (.inl e.2) (if e.2 = e.1 then some (manager !e.1).ourNodeid else none)
    (manager e.1).ourNodeid now interval timeout
  wire := fun _ => []
  closed := fun _ => false
  control := fun _ => []
  readied := fun _ => []
  dialled := fun _ => []

/-- Take what a session waits for from where it comes from, if it is there. A write can fail
once the far end is closed, and only then the stream comes to an end. -/
def take (s : Dials σ) (e : End) : IpcInput → Option (Dials σ)
  | .wrote ok => if ok || s.closed e.far then some s else none
  | .told ok => if ok then some s else none
  | .read (some (some message)) =>
    match s.wire e with
    | m :: rest =>
      if m = message then some { s with wire := Function.update s.wire e rest } else none
    | [] => none
  | .read (some none) | .read none =>
    if (s.wire e).isEmpty && s.closed e.far then some s else none
  | .control (some message) =>
    match s.control e with
    | c :: rest =>
      if c = message then some { s with control := Function.update s.control e rest } else none
    | [] => none
  | .node (some _) | .proceed => some s
  | .control none | .node none | .elapsed => none

/-- What an effect changes outside its session. -/
def perform (e : End) (s : Dials σ) : IpcEffect (Control σ) → Dials σ
  | .send message true =>
    { s with wire := Function.update s.wire e.far (s.wire e.far ++ [message]) }
  | .close => { s with closed := Function.update s.closed e true }
  | .command command true =>
    { s with commands := Function.update s.commands e.1 (s.commands e.1 ++ [command]) }
  | .registerPeer _ _ _ _ => { s with counter := Function.update s.counter e.1 (s.counter e.1 + 1) }
  | .send _ false | .command _ false | .unregister _ | .handleNodeMessage _ => s

/-- What the session at an end reads of its node. -/
def context (s : Dials σ) (e : End) (now : Instant) : IpcContext where
  now := now
  connectionId := s.counter e.1
  neighbors := (s.manager e.1).peers.map IpcEntry.nodeId

/-- A session takes a step. -/
def stepSession (s : Dials σ) (e : End) (now : Instant) (input : IpcInput) : Option (Dials σ) :=
  (s.take e input).bind fun s' =>
    ((s.session e).next (s.context e now) input).map fun r =>
      r.2.foldl (perform e) { s' with session := Function.update s'.session e r.1 }

/-- The stream whose session has reported that it is ready. -/
def readyOf : IpcCommand (Control σ) → Option Bool
  | .sessionReady _ (.inl k) _ => some k
  | _ => none

/-- The controls among those sent that go to one end. -/
def addressed (x : Bool) (controls : List (Control σ × IpcControl)) (e : End) : List IpcControl :=
  controls.filterMap fun c =>
    match c.1 with
    | .inl k => if (x, k) = e then some c.2 else none
    | .inr _ => none

/-- A manager answers a command. -/
def stepManager (s : Dials σ) (x : Bool) (connects : NodeId → Bool) : Option (Dials σ) :=
  match s.commands x with
  | [] => none
  | command :: rest =>
    let r := (s.manager x).handleIpcCommand connects command
    some { s with
      manager := Function.update s.manager x r.1
      commands := Function.update s.commands x rest
      control := fun e => s.control e ++ addressed x r.2.1 e
      readied := Function.update s.readied x (s.readied x ++ (readyOf command).toList)
      dialled := Function.update s.dialled x (s.dialled x ++ r.2.2) }

/-- What can happen next. -/
inductive Event where
  | session (e : End) (now : Instant) (input : IpcInput)
  | manager (x : Bool) (connects : NodeId → Bool)

def step (s : Dials σ) : Event → Option (Dials σ)
  | .session e now input => s.stepSession e now input
  | .manager x connects => s.stepManager x connects

/-- Some events, one after the other. -/
def run (s : Dials σ) (events : List Event) : Option (Dials σ) := events.foldlM step s

/-- Everything is processed: nothing can happen unless a router sends something. -/
def Quiet (s : Dials σ) : Prop :=
  ∀ event : Event, (∀ e now m, event ≠ .session e now (.node m)) → s.step event = none

/-- Each manager lists the other node once, with the session at its end of one and the same
stream, and both ends of that stream are open. -/
def Settled (s : Dials σ) : Prop :=
  ∃ k : Bool, ∀ x : Bool, ∃ connectionId : ConnectionId,
    (s.manager x).sessions (s.id !x) = [⟨s.id !x, .inl k, connectionId⟩] ∧
      (s.session (x, k)).peer = some ⟨s.id !x, connectionId⟩ ∧
      (s.session (x, k)).state = .waitForMessages ∧ s.closed (x, k) = false

end Dials

end Anybus
