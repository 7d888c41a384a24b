import Anybus.Core.Trace
import Anybus.Router.Crash

/-!
# Messages on their way to the router

`Handle::send_broker` spawns a task for every message, and the task puts the message
into the router's channel when the scheduler lets it. Tasks run in any order, so two
messages of one sender may change places on their way. The log of a bus keeps what was
called, handled, confirmed and closed, in the order in which it happened.
-/

namespace Anybus

/-- Something that happened on a bus. -/
inductive BusNote where
  /-- A message was given to a task. -/
  | called (msg : RouterMsg)
  /-- The router took up a message. -/
  | handled (msg : RouterMsg)
  /-- The router confirmed a registration. -/
  | confirmed (request : RegistrationRequest)
  /-- The receiving half of a listener's channel was closed. -/
  | closed (sender : Sender)
  deriving DecidableEq

/-- A router with the messages on their way to it. -/
structure Bus where
  /-- What happened so far, oldest first. -/
  log : List BusNote
  /-- The messages whose task has not sent them yet. -/
  tasks : List RouterMsg
  /-- The router's channel. -/
  queue : List RouterMsg
  /-- The state of the router's loop, `none` after its end. -/
  state : Option RouterState
  router : Router

/-- What can happen next on a bus. -/
inductive BusEvent where
  /-- Someone calls `send_broker`. -/
  | call (msg : RouterMsg)
  /-- The task with this number gets its message into the channel. -/
  | send (task : Nat)
  /-- A listener closes its channel. -/
  | close (sender : Sender)
  /-- The router's loop makes a turn with what it finds in the channels. -/
  | turn (node : Tx → Chan NodeMessage) (client : Sender → Chan ClientMessage) (now : Instant)
      (wake : Wake)

/-- A turn of the router with open and empty channels. -/
def BusEvent.quietTurn (wake : Wake) : BusEvent := .turn (fun _ => .channel 32) (fun _ => .channel 32) 0 wake

/-- What the router's loop tells by leaving a state. -/
def RouterState.notes : RouterState → List BusNote
  | .handleBrokerMsg msg => [.handled msg]
  | .routeChange (some request) => [.confirmed request]
  | _ => []

/-- The message the router's loop has in hand. -/
def RouterState.inHand : RouterState → List RouterMsg
  | .handleBrokerMsg msg => [msg]
  | _ => []

/-- The message that ends a wait. -/
def RouterState.pickedUp (wake : Wake) : RouterState → List RouterMsg
  | .listen =>
    match wake with
    | .message msg => [msg]
    | _ => []
  | _ => []

namespace Bus

/-- A router that was just started. -/
def new (nodeId : NodeId) (now : Instant) : Bus := ⟨[], [], [], some .start, .new nodeId now⟩

/-- What is left in the channel when the router leaves a state. A wait ends with the first
message, with the timer, or when the channel is empty and no task holds its sending half. -/
def takes (bus : Bus) (wake : Wake) : RouterState → Option (List RouterMsg)
  | .listen =>
    match wake with
    | .message msg =>
      match bus.queue with
      | first :: rest => if first = msg then some rest else none
      | [] => none
    | .channelClosed => if bus.queue = [] ∧ bus.tasks = [] then some [] else none
    | .timer => some bus.queue
  | _ => some bus.queue

/-- The channels as the router finds them: closed ones stay closed. -/
def wires (bus : Bus) (node : Tx → Chan NodeMessage) (client : Sender → Chan ClientMessage) : Wires :=
  ⟨node, fun s => { client s with closed := decide (.closed s ∈ bus.log) }, []⟩

/-- One event; `none` if it cannot happen or the router panics. -/
def step (bus : Bus) : BusEvent → Option Bus
  | .call msg => some { bus with log := bus.log ++ [.called msg], tasks := bus.tasks ++ [msg] }
  | .send task =>
    -- After the end of the router the channel takes nothing any more.
    (bus.tasks[task]?).map fun msg =>
      { bus with
        tasks := bus.tasks.eraseIdx task
        queue := if bus.state = none then bus.queue else bus.queue ++ [msg] }
  | .close sender => some { bus with log := bus.log ++ [.closed sender] }
  | .turn node client now wake =>
    bus.state.bind fun st => (bus.takes wake st).bind fun queue =>
      (bus.router.next (bus.wires node client) now wake st).map fun r =>
        { bus with log := bus.log ++ st.notes, queue := queue, state := r.1, router := r.2.1 }

/-- The states of a bus, when every event obeys a rule. Maps may be rehashed at any
time. -/
inductive Reaches (allowed : Bus → BusEvent → Prop) (nodeId : NodeId) : Bus → Prop where
  | new (now : Instant) : Reaches allowed nodeId (.new nodeId now)
  | rehash {bus : Bus} {lsdb : LsDb} : Reaches allowed nodeId bus →
      LsDb.Rehash bus.router.lsdb lsdb →
      Reaches allowed nodeId { bus with router := { bus.router with lsdb := lsdb } }
  | step {bus bus' : Bus} (event : BusEvent) : Reaches allowed nodeId bus →
      allowed bus event → bus.step event = some bus' → Reaches allowed nodeId bus'

/-- Several events in turn. -/
def run (bus : Bus) (events : List BusEvent) : Option Bus := events.foldlM step bus

/-- Events that are allowed in any state reach their result. -/
theorem Reaches.run {allowed : Bus → BusEvent → Prop} {nodeId : NodeId} {bus bus' : Bus}
    {events : List BusEvent} (h : Reaches allowed nodeId bus)
    (hall : ∀ e ∈ events, ∀ b, allowed b e) (hrun : bus.run events = some bus') :
    Reaches allowed nodeId bus' := by
  induction events generalizing bus with
  | nil =>
    obtain rfl := Option.some.inj hrun
    exact h
  | cons e events ih =>
    obtain ⟨next, hnext, hrest⟩ := Option.bind_eq_some_iff.mp hrun
    exact ih (h.step e (hall e List.mem_cons_self bus) hnext)
      (fun e' he' => hall e' (List.mem_cons_of_mem _ he')) hrest

/-- Everything an event can do. -/
inductive Stepped (bus : Bus) : BusEvent → Bus → Prop where
  | call (msg : RouterMsg) :
      Stepped bus (.call msg)
        { bus with log := bus.log ++ [.called msg], tasks := bus.tasks ++ [msg] }
  | send {task : Nat} {msg : RouterMsg} (h : bus.tasks[task]? = some msg) :
      Stepped bus (.send task)
        { bus with
          tasks := bus.tasks.eraseIdx task
          queue := if bus.state = none then bus.queue else bus.queue ++ [msg] }
  | close (sender : Sender) :
      Stepped bus (.close sender) { bus with log := bus.log ++ [.closed sender] }
  | turn {node : Tx → Chan NodeMessage} {client : Sender → Chan ClientMessage} {now : Instant}
      {wake : Wake} {st : RouterState} {queue : List RouterMsg} {st' : Option RouterState}
      {router' : Router} {w' : Wires} (hst : bus.state = some st)
      (hq : bus.takes wake st = some queue)
      (hn : bus.router.next (bus.wires node client) now wake st = some (st', router', w')) :
      Stepped bus (.turn node client now wake)
        { bus with log := bus.log ++ st.notes, queue := queue, state := st', router := router' }

theorem stepped {bus bus' : Bus} {event : BusEvent} (h : bus.step event = some bus') :
    Stepped bus event bus' := by
  cases event with
  | call msg =>
    obtain rfl := Option.some.inj h
    exact .call msg
  | send task =>
    obtain ⟨msg, hmsg, rfl⟩ := Option.map_eq_some_iff.mp h
    exact .send hmsg
  | close sender =>
    obtain rfl := Option.some.inj h
    exact .close sender
  | turn node client now wake =>
    obtain ⟨st, hst, h⟩ := Option.bind_eq_some_iff.mp h
    obtain ⟨queue, hq, h⟩ := Option.bind_eq_some_iff.mp h
    obtain ⟨⟨st', router', w'⟩, hn, rfl⟩ := Option.map_eq_some_iff.mp h
    exact .turn hst hq hn

/-- The messages the router will take up, in this order: the one in hand and the channel. -/
def line (bus : Bus) : List RouterMsg := bus.state.elim [] RouterState.inHand ++ bus.queue

/-- The messages of a kind that are still on their way. -/
def pending (bus : Bus) (p : RouterMsg → Bool) : Nat := bus.tasks.countP p + bus.line.countP p

end Bus

/-- A message comes into hand by a wait only. -/
theorem Router.next_inHand {router router' : Router} {w w' : Wires} {now : Instant} {wake : Wake}
    {st : RouterState} {st' : Option RouterState}
    (h : router.next w now wake st = some (st', router', w')) :
    st'.elim [] RouterState.inHand = st.pickedUp wake := by
  cases st with
  | listen =>
    cases wake with
    | message | channelClosed | timer =>
      simp only [Router.next, Option.some.injEq, Prod.mk.injEq] at h
      rw [← h.1]
      rfl
  | start | shutdown =>
    simp only [Router.next, Option.some.injEq, Prod.mk.injEq] at h
    rw [← h.1]
    rfl
  | handleBrokerMsg msg =>
    simp only [Router.next, Option.map_eq_some_iff, Prod.mk.injEq] at h
    obtain ⟨⟨st₁, _, _⟩, hm, rfl, _⟩ := h
    rcases Router.handleBrokerMsg_state hm with rfl | ⟨request, _, rfl, _⟩ | rfl | rfl <;> rfl
  | registerEndpoint request =>
    simp only [Router.next] at h
    split at h
    · simp only [Option.some.injEq, Prod.mk.injEq] at h
      rw [← h.1]
      rfl
    · simp only [Option.some.injEq, Prod.mk.injEq] at h
      rw [← h.1]
      rfl
  | routeChange notify =>
    simp only [Router.next, Option.map_eq_some_iff, Prod.mk.injEq] at h
    obtain ⟨_, _, hst, _⟩ := h
    rw [← hst]
    rfl
  | tick =>
    simp only [Router.next, Option.map_eq_some_iff, Prod.mk.injEq] at h
    obtain ⟨⟨_, _, rebuild⟩, _, hst, _⟩ := h
    rw [← hst]
    cases rebuild <;> rfl

namespace Bus

section Line

variable {bus : Bus} {node : Tx → Chan NodeMessage} {client : Sender → Chan ClientMessage}
  {now : Instant} {wake : Wake} {st : RouterState} {st' : Option RouterState}
  {queue : List RouterMsg} {router' : Router} {w' : Wires}

/-- A turn takes the message in hand out of the line and leaves the rest. -/
theorem line_turn (hst : bus.state = some st) (hq : bus.takes wake st = some queue)
    (hn : bus.router.next (bus.wires node client) now wake st = some (st', router', w')) :
    bus.line = st.inHand ++ (st'.elim [] RouterState.inHand ++ queue) := by
  have hhand := Router.next_inHand hn
  unfold line
  rw [hst, hhand]
  cases st with
  | listen =>
    cases wake with
    | message msg =>
      simp only [takes] at hq
      split at hq
      · next first rest hqueue =>
        split at hq
        · next hfirst =>
          obtain rfl := Option.some.inj hq
          rw [hqueue, hfirst]
          rfl
        · cases hq
      · cases hq
    | channelClosed =>
      simp only [takes] at hq
      split at hq
      · next hempty =>
        obtain rfl := Option.some.inj hq
        rw [hempty.1]
        rfl
      · cases hq
    | timer =>
      obtain rfl := Option.some.inj hq
      rfl
  | start | shutdown | handleBrokerMsg | registerEndpoint | routeChange | tick =>
    obtain rfl := Option.some.inj hq
    rfl

end Line

end Bus

/-- The note is a call of a message of a kind. -/
def BusNote.calls (p : RouterMsg → Bool) : BusNote → Bool
  | .called msg => p msg
  | _ => false

/-- The note is the handling of a message of a kind. -/
def BusNote.handles (p : RouterMsg → Bool) : BusNote → Bool
  | .handled msg => p msg
  | _ => false

/-- A turn adds to the order of the log only by handling a message. -/
theorem precedes_notes {p : BusNote → Prop} {msg : RouterMsg} {log : List BusNote} {st : RouterState}
    (h : Precedes p (fun n => n = .handled msg) (log ++ st.notes)) :
    Precedes p (fun n => n = .handled msg) log ∨ st = .handleBrokerMsg msg ∧ ∃ n ∈ log, p n := by
  cases st with
  | handleBrokerMsg msg' =>
    rcases (precedes_concat _ _ _ _).mp h with hlog | ⟨hfirst, heq⟩
    · exact Or.inl hlog
    · cases heq
      exact Or.inr ⟨rfl, hfirst⟩
  | routeChange notify =>
    cases notify with
    | none =>
      left
      simpa [RouterState.notes] using h
    | some request =>
      rcases (precedes_concat _ _ _ _).mp h with hlog | ⟨_, heq⟩
      · exact Or.inl hlog
      · cases heq
  | start | listen | registerEndpoint | tick | shutdown =>
    left
    simpa [RouterState.notes] using h

theorem RouterState.countP_notes (st : RouterState) (p : RouterMsg → Bool) :
    st.notes.countP (BusNote.handles p) = st.inHand.countP p ∧
      st.notes.countP (BusNote.calls p) = 0 := by
  cases st with
  | handleBrokerMsg msg => cases hp : p msg <;> simp [notes, inHand, BusNote.handles, BusNote.calls, hp]
  | routeChange notify => cases notify <;> exact ⟨rfl, rfl⟩
  | start | listen | registerEndpoint | tick | shutdown => exact ⟨rfl, rfl⟩

namespace Bus

/-- A message that leaves its task is one message less with the tasks. -/
theorem countP_eraseIdx {tasks : List RouterMsg} {task : Nat} {msg : RouterMsg}
    (p : RouterMsg → Bool) (h : tasks[task]? = some msg) :
    tasks.countP p = [msg].countP p + (tasks.eraseIdx task).countP p := by
  obtain ⟨hlt, rfl⟩ := List.getElem?_eq_some_iff.mp h
  rw [← List.countP_append]
  exact ((List.getElem_cons_eraseIdx_perm hlt).countP_eq p).symm

/-- What was handled or is on its way was called. -/
theorem Stepped.pending_le {bus bus' : Bus} {event : BusEvent} (h : Stepped bus event bus')
    (p : RouterMsg → Bool)
    (hle : bus.log.countP (BusNote.handles p) + bus.pending p ≤ bus.log.countP (BusNote.calls p)) :
    bus'.log.countP (BusNote.handles p) + bus'.pending p ≤ bus'.log.countP (BusNote.calls p) := by
  unfold pending at hle ⊢
  cases h with
  | call msg =>
    have hcalls : [BusNote.called msg].countP (BusNote.calls p) = [msg].countP p := rfl
    have hhandles : [BusNote.called msg].countP (BusNote.handles p) = 0 := rfl
    simp only [line, List.countP_append] at hle ⊢
    omega
  | @send task msg hmsg =>
    have htasks := countP_eraseIdx p hmsg
    simp only [line] at hle ⊢
    split
    · omega
    · simp only [List.countP_append] at hle htasks ⊢
      omega
  | close sender =>
    have hcalls : [BusNote.closed sender].countP (BusNote.calls p) = 0 := rfl
    have hhandles : [BusNote.closed sender].countP (BusNote.handles p) = 0 := rfl
    simp only [line, List.countP_append] at hle ⊢
    omega
  | @turn _ _ _ _ st queue st' router' w' hst hq hn =>
    rw [line_turn hst hq hn] at hle
    obtain ⟨hhandled, hcalled⟩ := st.countP_notes p
    simp only [line, List.countP_append] at hle ⊢
    omega

/-- In every run, what was handled or is on its way was called. -/
theorem Reaches.pending_le {allowed : Bus → BusEvent → Prop} {nodeId : NodeId} {bus : Bus}
    (h : Reaches allowed nodeId bus) (p : RouterMsg → Bool) :
    bus.log.countP (BusNote.handles p) + bus.pending p ≤ bus.log.countP (BusNote.calls p) := by
  induction h with
  | new now => exact Nat.le_refl 0
  | rehash _ _ ih => exact ih
  | step event _ _ hstep ih => exact (stepped hstep).pending_le p ih

end Bus

end Anybus
