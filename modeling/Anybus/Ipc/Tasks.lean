import Anybus.Core.Machine
import Anybus.Peers.IpcManager
import Mathlib.Logic.Function.Basic

/-!
# A manager and its sessions

One manager with any number of sessions, each a task of its own. The manager answers
commands one at a time, and while it sends the controls that an answer takes, or dials,
the tasks go on. Streams, clocks and the connection counter are not followed: a task may
read anything, any write may fail, and any wait may time out.
-/

namespace Anybus

/-- The states of a task that has not announced its session. -/
def IpcState.Unannounced : IpcState → Prop
  | .hello | .helloSent | .helloReceived _ _ | .abortHandshake | .handshakeAborted | .ended => True
  | _ => False

/-- The states of a task whose session was accepted. -/
def IpcState.Running : IpcState → Prop
  | .sendPeers | .waitForMessages | .heartbeatTick | .sendPing | .handleError
  | .nodeMessageReceived _ | .ipcControlReceived _ | .ipcMessageReceived _ | .closePeer
  | .streamClosed | .shutdown => True
  | _ => False

/-- The command that reaches the manager. -/
def IpcEffect.told {τ : Type} : IpcEffect τ → Option (IpcCommand τ)
  | .command c true => some c
  | _ => none

namespace IpcPeer

variable {τ : Type} {peer : IpcPeer τ} {ctx : IpcContext} {input : IpcInput}
  {r : IpcPeer τ × List (IpcEffect τ)}

/-- Before a session is announced the manager hears at most that it has failed. -/
theorem next_unannounced (h : peer.next ctx input = some r) (hst : peer.state.Unannounced)
    (hnot : ∀ id c, peer.state ≠ .helloReceived id c) :
    r.1.control = peer.control ∧ r.1.state.Unannounced ∧
      (∀ id c, r.1.state = .helloReceived id c → r.1.peer = some ⟨id, c⟩) ∧
      ∀ command ∈ r.2.filterMap IpcEffect.told, command = .handshakeFailed peer.expected := by
  cases hs : peer.state with
  | hello =>
    rw [next.eq_def, hs] at h
    cases input with
    | wrote ok =>
      cases h
      cases ok <;> simp [goto, IpcState.Unannounced, IpcEffect.told]
    | elapsed =>
      cases h
      simp [goto, IpcState.Unannounced]
    | _ => cases h
  | helloSent =>
    rw [next.eq_def, hs] at h
    cases input with
    | read message =>
      cases message with
      | none =>
        cases h
        simp [goto, IpcState.Unannounced]
      | some message =>
        cases message with
        | none =>
          cases h
          simp [goto, IpcState.Unannounced]
        | some message =>
          cases message with
          | hello id =>
            cases h
            unfold onHello
            split <;> simp [goto, IpcState.Unannounced, IpcEffect.told]
          | _ =>
            cases h
            simp [goto, IpcState.Unannounced]
    | elapsed =>
      cases h
      simp [goto, IpcState.Unannounced]
    | _ => cases h
  | abortHandshake =>
    rw [next.eq_def, hs] at h
    cases input with
    | wrote ok =>
      cases h
      cases peer.peer <;> simp [goto, IpcState.Unannounced, IpcEffect.told]
    | _ => cases h
  | handshakeAborted =>
    rw [next.eq_def, hs] at h
    cases input with
    | told ok =>
      cases h
      cases ok <;> simp [goto, IpcState.Unannounced, IpcEffect.told]
    | _ => cases h
  | ended =>
    rw [next.eq_def, hs] at h
    cases h
  | helloReceived id c => exact absurd hs (hnot id c)
  | _ =>
    rw [hs] at hst
    cases hst

/-- A session is announced under the number that the peer was registered with. -/
theorem next_helloReceived {id : NodeId} {c : ConnectionId} (h : peer.next ctx input = some r)
    (hst : peer.state = .helloReceived id c) : ∃ ok, input = .told ok ∧
      r = (peer.goto (if ok then .awaitAccepted else .abortHandshake),
        [.command (.sessionReady id peer.control c) ok]) := by
  rw [next.eq_def, hst] at h
  cases input with
  | told ok =>
    cases h
    exact ⟨ok, rfl, rfl⟩
  | _ => cases h

/-- A task waits for the answer of the manager until its time is up. -/
theorem next_awaitAccepted (h : peer.next ctx input = some r) (hst : peer.state = .awaitAccepted) :
    (input = .control (some .accepted) ∧
      r = ({ peer with state := .sendPeers, established := true }, [])) ∨
    (input ≠ .control (some .accepted) ∧ ((∃ message, input = .control message) ∨ input = .elapsed) ∧
      r = (peer.goto .abortHandshake, [])) := by
  rw [next.eq_def, hst] at h
  cases input with
  | control message =>
    by_cases hacc : message = some .accepted
    · subst hacc
      cases h
      exact .inl ⟨rfl, rfl⟩
    · have hr : r = (peer.goto .abortHandshake, []) := by
        cases message with
        | none => exact (Option.some.inj h).symm
        | some message =>
          cases message with
          | accepted => exact absurd rfl hacc
          | shutdown => exact (Option.some.inj h).symm
          | resume => exact (Option.some.inj h).symm
      exact .inr ⟨fun heq => hacc (by injection heq), .inl ⟨message, rfl⟩, hr⟩
  | elapsed =>
    cases h
    exact .inr ⟨by simp, .inr rfl, rfl⟩
  | _ => cases h

/-- An accepted session after a step that does not end it. The manager hears at most of
further peers. -/
structure Continues (peer : IpcPeer τ) (r : IpcPeer τ × List (IpcEffect τ)) : Prop where
  control : r.1.control = peer.control
  registered : r.1.peer = peer.peer
  established : r.1.established = peer.established
  running : r.1.state.Running
  told : ∀ command ∈ r.2.filterMap IpcEffect.told, ∃ ids, command = .learnedPeers ids

theorem Continues.quiet {st : IpcState} {hb : Heartbeat} {effects : List (IpcEffect τ)}
    (hst : st.Running) (htold : effects.filterMap IpcEffect.told = []) :
    peer.Continues ({ peer with state := st, hb := hb }, effects) := by
  refine ⟨rfl, rfl, rfl, hst, ?_⟩
  intro command hmem
  rw [htold] at hmem
  cases hmem

theorem Continues.afterWrite (hb : Heartbeat) (message : IpcMessage) (ok : Bool) :
    peer.Continues ({ peer with hb := hb }.afterWrite message ok) := by
  cases ok
  · exact .quiet trivial rfl
  · exact .quiet trivial rfl

/-- An accepted session goes on until it reports that it is closed and ends. -/
theorem next_running {p : RegisteredPeer} (h : peer.next ctx input = some r)
    (hst : peer.state.Running) (hest : peer.established = true) (hp : peer.peer = some p) :
    peer.Continues r ∨
      ∃ ok, input = .told ok ∧ r = (peer.goto .ended,
        [.command (.peerClosed p.peerId p.connectionId) ok, .unregister p.connectionId]) := by
  have hid : peer.peerId = some p.peerId := by rw [peerId, hp, Option.map_some, Option.some_or]
  cases hs : peer.state with
  | sendPeers =>
    rw [next.eq_def, hs] at h
    simp only [hid] at h
    cases input with
    | wrote ok =>
      cases h
      exact .inl (.afterWrite peer.hb _ ok)
    | _ => cases h
  | waitForMessages =>
    rw [next.eq_def, hs] at h
    dsimp only at h
    rw [if_neg (Option.ne_none_iff_exists'.mpr ⟨p, hp⟩)] at h
    left
    cases input with
    | read message =>
      cases message with
      | none =>
        cases h
        exact .quiet trivial rfl
      | some message =>
        cases message <;> cases h <;> exact .quiet trivial rfl
    | control message | node message =>
      cases message <;> cases h <;> exact .quiet trivial rfl
    | elapsed =>
      cases h
      exact .quiet trivial rfl
    | _ => cases h
  | heartbeatTick =>
    rw [next.eq_def, hs] at h
    left
    cases input with
    | proceed =>
      dsimp only at h
      split at h
      · cases h
        exact .quiet trivial rfl
      · split at h <;> cases h <;> exact .quiet trivial rfl
    | _ => cases h
  | sendPing =>
    rw [next.eq_def, hs] at h
    cases input with
    | wrote ok =>
      cases h
      exact .inl (.afterWrite _ _ ok)
    | _ => cases h
  | handleError =>
    rw [next.eq_def, hs] at h
    cases input with
    | proceed =>
      simp only [hest, if_true] at h
      cases h
      exact .inl (.quiet trivial rfl)
    | _ => cases h
  | nodeMessageReceived message =>
    rw [next.eq_def, hs] at h
    cases input with
    | wrote ok =>
      cases h
      exact .inl (.afterWrite peer.hb _ ok)
    | _ => cases h
  | ipcControlReceived message =>
    rw [next.eq_def, hs] at h
    cases input with
    | proceed =>
      left
      cases message <;> cases h <;> exact .quiet trivial rfl
    | _ => cases h
  | ipcMessageReceived message =>
    rw [next.eq_def, hs] at h
    left
    cases message with
    | knownPeers ids =>
      cases input with
      | told ok =>
        cases h
        refine ⟨rfl, rfl, rfl, trivial, ?_⟩
        intro command hmem
        cases ok <;> simp [IpcEffect.told] at hmem
        exact ⟨ids, hmem⟩
      | _ => cases h
    | ping token =>
      cases input with
      | wrote ok =>
        cases h
        exact .afterWrite peer.hb _ ok
      | _ => cases h
    | nodeMsg message =>
      cases input with
      | proceed =>
        cases h
        simp only [hp, Option.map_some, Option.toList_some]
        exact .quiet trivial rfl
      | _ => cases h
    | _ =>
      cases input with
      | proceed =>
        cases h
        exact .quiet trivial rfl
      | _ => cases h
  | closePeer =>
    rw [next.eq_def, hs] at h
    cases input with
    | wrote ok =>
      cases h
      exact .inl (.quiet trivial rfl)
    | _ => cases h
  | streamClosed =>
    rw [next.eq_def, hs] at h
    cases input with
    | told ok =>
      simp only [hest, if_true, reportClosed, hid, hp] at h
      cases h
      exact .inr ⟨ok, rfl, rfl⟩
    | _ => cases h
  | shutdown =>
    rw [next.eq_def, hs] at h
    cases input with
    | wrote ok =>
      cases h
      exact .inl (.quiet trivial rfl)
    | _ => cases h
  | _ =>
    rw [hs] at hst
    cases hst

end IpcPeer
/-- One manager with its tasks, which are numbered; the number of a task stands for the
sending half of its control channel. -/
structure IpcNode where
  manager : IpcManager Nat
  running : Bool
  commands : List (IpcCommand Nat)
  /-- The controls that the manager has to send before it goes on. -/
  outbox : List (Nat × IpcControl)
  /-- The peers that the manager starts a session with before it goes on. -/
  dialling : List NodeId
  tasks : List (IpcPeer Nat)
  controls : Nat → List IpcControl

/-- What can happen next. -/
inductive NodeEvent where
  /-- A task takes a step. -/
  | task (t : Nat) (ctx : IpcContext) (input : IpcInput)
  /-- The manager answers the first command in its queue. -/
  | command (connects : NodeId → Bool)
  /-- The manager sends the next control. -/
  | send
  /-- The manager starts a session with the next peer that it has dialled. -/
  | dial (now : Instant) (interval timeout : Duration)
  /-- A peer has dialled. -/
  | accept (now : Instant) (interval timeout : Duration)
  /-- The manager dials the peers named by a directory. -/
  | directory (ids : List NodeId) (connects : NodeId → Bool)
  /-- The bus resumes; a control channel that is full misses the news. -/
  | resume (full : Nat → Bool)
  | softShutdown
  | shutdown

namespace IpcNode

/-- A manager that was just started. -/
def new (ourNodeid : NodeId) : IpcNode :=
  ⟨⟨ourNodeid, [], ∅, false⟩, true, [], [], [], [], fun _ => []⟩

/-- The manager waits for something to happen. -/
def Listening (node : IpcNode) : Prop :=
  node.running = true ∧ node.outbox = [] ∧ node.dialling = []

instance (node : IpcNode) : Decidable node.Listening := inferInstanceAs (Decidable (_ ∧ _))

/-- Start a session. -/
def spawnPeer (node : IpcNode) (expected : Option NodeId) (now : Instant)
    (interval timeout : Duration) : IpcNode :=
  { node with
    tasks := node.tasks ++
      [.new node.tasks.length expected node.manager.ourNodeid now interval timeout] }

/-- Take what a task waits for from where it comes from, if it is there. A command is
handed over as long as the manager has not returned. A task holds a sending half of its
own control channel, which therefore never comes to an end. -/
def take (node : IpcNode) (t : Nat) : IpcInput → Option IpcNode
  | .told ok => if ok = (node.running || !node.outbox.isEmpty) then some node else none
  | .control (some message) =>
    match node.controls t with
    | c :: rest =>
      if c = message then some { node with controls := Function.update node.controls t rest }
      else none
    | [] => none
  | .control none => none
  | .wrote _ | .read _ | .node _ | .elapsed | .proceed => some node

/-- The node after a step of a task. -/
def stepTask (node : IpcNode) (t : Nat) (ctx : IpcContext) (input : IpcInput) : Option IpcNode :=
  match node.tasks[t]?, node.take t input with
  | some task, some node' =>
    (task.next ctx input).map fun r =>
      { node' with
        tasks := node.tasks.set t r.1
        commands := node.commands ++ r.2.filterMap IpcEffect.told }
  | _, _ => none

/-- One event; `none` if it cannot happen now. -/
def step (node : IpcNode) : NodeEvent → Option IpcNode
  | .task t ctx input => node.stepTask t ctx input
  | .command connects =>
    match node.commands with
    | command :: rest =>
      if node.Listening then
        let r := node.manager.handleIpcCommand connects command
        some { node with manager := r.1, commands := rest, outbox := r.2.1, dialling := r.2.2 }
      else none
    | [] => none
  | .send =>
    match node.outbox with
    | (t, c) :: rest =>
      some { node with
        controls := Function.update node.controls t (node.controls t ++ [c])
        outbox := rest }
    | [] => none
  | .dial now interval timeout =>
    match node.dialling with
    | id :: rest => some { node.spawnPeer (some id) now interval timeout with dialling := rest }
    | [] => none
  | .accept now interval timeout =>
    if node.Listening ∧ node.manager.shuttingDown = false then
      some (node.spawnPeer none now interval timeout)
    else none
  | .directory ids connects =>
    if node.Listening then
      let r := node.manager.dialPeers ids true connects
      some { node with manager := r.1, dialling := r.2 }
    else none
  | .resume full =>
    if node.Listening then
      some { node with
        controls := fun t => node.controls t ++ node.manager.peers.filterMap fun e =>
          if e.control = t ∧ full t = false then some .resume else none }
    else none
  | .softShutdown =>
    if node.Listening then
      some { node with manager := { node.manager with shuttingDown := true } }
    else none
  | .shutdown =>
    if node.Listening then
      some { node with
        manager := { node.manager with peers := [] }
        running := false
        outbox := node.manager.peers.map fun e => (e.control, .shutdown) }
    else none

/-- A manager and its tasks as a machine. -/
def machine : Machine IpcNode NodeEvent where
  init node := ∃ ourNodeid, node = .new ourNodeid
  step node event node' := node.step event = some node'

theorem reaches_of_run {allowed : IpcNode → NodeEvent → Prop}
    [∀ node event, Decidable (allowed node event)] {ourNodeid : NodeId} {events : List NodeEvent}
    {node : IpcNode} (h : Machine.run step allowed (.new ourNodeid) events = some node) :
    machine.Reaches allowed node :=
  .run (fun _ _ _ hstep => hstep) (.init ⟨ourNodeid, rfl⟩) h

/-- The entry belongs to a task that has not ended. -/
def Backed (node : IpcNode) (e : IpcEntry Nat) : Prop :=
  ∃ task, node.tasks[e.control]? = some task ∧ task.peer = some ⟨e.nodeId, e.connectionId⟩ ∧
    task.state ≠ .ended ∧ task.state ≠ .panicked

/-- No task gives up waiting to be accepted while the manager runs. -/
def Patient (node : IpcNode) : NodeEvent → Prop
  | .task t _ input => input = .elapsed → node.running = true →
      (node.tasks[t]?).map IpcPeer.state ≠ some .awaitAccepted
  | _ => True

instance (node : IpcNode) (event : NodeEvent) : Decidable (node.Patient event) :=
  match event with
  | .task _ _ _ => inferInstanceAs (Decidable (_ → _ → _))
  | .command _ | .send | .dial _ _ _ | .accept _ _ _ | .directory _ _ | .resume _ | .softShutdown
  | .shutdown => .isTrue trivial

end IpcNode

end Anybus
