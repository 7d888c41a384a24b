import Anybus.Core.Machine
import Anybus.Receivers.Receiver

/-!
# Services

A bus stop and a depot are run by a task of the bus, which registers their endpoint and then
receives messages in two nested loops. The inner one ends with an error, and the outer one
starts it again, so that no error ends the task: neither a payload that cannot be read, nor a
request that cannot be answered, nor the end of the bus, after which the loops go on without
ever waiting. What ends it is a panic.
-/

namespace Anybus

/-- What a service does: it takes a packet as a message of its own, where `none` is a panic,
and handles it, which changes the service and sends packets. -/
structure Service (σ β : Type) where
  take : Packet → Option (Except ReceiveError β)
  handle : β → σ → List Packet × σ

/-- What the task of a service has done. -/
structure Served (σ : Type) where
  state : σ
  /-- The packets handed to the forwarding table, oldest first. -/
  sent : List Packet
  panicked : Bool
  deriving DecidableEq

/-- Where the task of a service is. -/
structure ServiceTask (σ : Type) where
  rx : Rx ClientMessage
  served : Served σ
  deriving DecidableEq

namespace Service

variable {σ β : Type} (service : Service σ β)

/-- Wait for the next message. -/
def recv (rx : Rx ClientMessage) : Option (Poll (Except ReceiveError β)) × Rx ClientMessage :=
  match PacketReceiver.recv rx with
  | (.ready (.ok packet), rx) => ((service.take packet).map .ready, rx)
  | (.ready (.error e), rx) => (some (.ready (.error e)), rx)
  | (.pending, rx) => (some .pending, rx)

/-- Handle a message. -/
def handled (served : Served σ) (msg : β) : Served σ :=
  let r := service.handle msg served.state
  { served with state := r.2, sent := served.sent ++ r.1 }

/-- One round of the loops. A task that waits is where it was, with the words about its
registration passed over. -/
def turn (task : ServiceTask σ) : ServiceTask σ :=
  if task.served.panicked then task
  else
    match service.recv task.rx with
    | (some (.ready (.ok msg)), rx) => ⟨rx, service.handled task.served msg⟩
    | (some (.ready (.error _)), rx) => ⟨rx, task.served⟩
    | (some .pending, rx) => ⟨rx, task.served⟩
    | (none, rx) => ⟨rx, { task.served with panicked := true }⟩

/-- Whether the next round waits for a message. -/
def waits (task : ServiceTask σ) : Bool :=
  match (service.recv task.rx).1 with
  | some .pending => !task.served.panicked
  | _ => false

/-- Handle one message. -/
def serveOne (served : Served σ) (m : ClientMessage) : Served σ :=
  if served.panicked then served
  else
    match m with
    | .message packet =>
      match service.take packet with
      | some (.ok msg) => service.handled served msg
      | some (.error _) => served
      | none => { served with panicked := true }
    | .failedRegistration _ _ | .successfulRegistration _ | .shutdown => served

/-- Handle messages in turn, each once, up to the first that panics. -/
def serve (served : Served σ) (l : List ClientMessage) : Served σ := l.foldl service.serveOne served

/-- The messages that can be read, up to the first that panics. -/
def messages : List ClientMessage → List β
  | [] => []
  | .message packet :: rest =>
    match service.take packet with
    | some (.ok msg) => msg :: messages rest
    | some (.error _) => messages rest
    | none => []
  | _ :: rest => messages rest

/-- Whether a message panics. -/
def panics (l : List ClientMessage) : Bool :=
  l.any fun
    | .message packet => (service.take packet).isNone
    | _ => false

/-- What handling messages in turn sends, and the state it leaves. -/
def handleAll : List β → σ → List Packet × σ
  | [], state => ([], state)
  | msg :: rest, state =>
    let r := service.handle msg state
    let later := handleAll rest r.2
    (r.1 ++ later.1, later.2)

/-- Rounds of the loops. -/
def turns (n : Nat) (task : ServiceTask σ) : ServiceTask σ := service.turn^[n] task

variable {service}

theorem serveOne_panicked {served : Served σ} (h : served.panicked) (m : ClientMessage) :
    service.serveOne served m = served := if_pos h

theorem serve_panicked {served : Served σ} (h : served.panicked) (l : List ClientMessage) :
    service.serve served l = served := by
  induction l with
  | nil => rfl
  | cons m l ih =>
    rw [serve, List.foldl_cons, serveOne_panicked h]
    exact ih

theorem serve_append (served : Served σ) (l l' : List ClientMessage) :
    service.serve served (l ++ l') = service.serve (service.serve served l) l' := List.foldl_append

/-- The messages that can be read are handled in turn, each once, and nothing else is done. -/
theorem serve_eq (l : List ClientMessage) (state : σ) (sent : List Packet) :
    service.serve ⟨state, sent, false⟩ l =
      ⟨(service.handleAll (service.messages l) state).2,
        sent ++ (service.handleAll (service.messages l) state).1, service.panics l⟩ := by
  induction l generalizing state sent with
  | nil => simp [serve, messages, handleAll, panics]
  | cons m l ih =>
    rw [serve, List.foldl_cons, ← serve]
    cases m with
    | message packet =>
      cases htake : service.take packet with
      | none =>
        rw [serveOne, if_neg Bool.false_ne_true]
        simp only [htake]
        rw [serve_panicked rfl]
        simp [messages, handleAll, panics, htake]
      | some r =>
        cases r with
        | ok msg =>
          simp only [serveOne, Bool.false_eq_true, if_false, htake, handled]
          rw [ih]
          simp [messages, handleAll, panics, htake]
        | error e =>
          simp only [serveOne, Bool.false_eq_true, if_false, htake]
          rw [ih]
          simp [messages, panics, htake]
    | shutdown | failedRegistration | successfulRegistration =>
      simp only [serveOne, Bool.false_eq_true, if_false]
      rw [ih]
      simp [messages, panics]

variable (service) in
/-- A round deals with the messages at the front of the queue, and with one at least. -/
theorem turn_eq (rx : Rx ClientMessage) {served : Served σ} (h : served.panicked = false) :
    ∃ front rest, rx.queue = front ++ rest ∧ (rx.queue ≠ [] → front ≠ []) ∧
      service.turn ⟨rx, served⟩ = ⟨{ rx with queue := rest }, service.serve served front⟩ := by
  obtain ⟨queue, disconnected⟩ := rx
  induction queue with
  | nil =>
    refine ⟨[], [], rfl, fun hne => absurd rfl hne, ?_⟩
    cases disconnected <;> simp [turn, h, recv, PacketReceiver.recv, PacketReceiver.recvFrom, serve]
  | cons m queue ih =>
    obtain ⟨front, rest, hqueue, -, hturn⟩ := ih
    -- A word about the registration is passed over on the way to the next message.
    have hword : service.turn ⟨⟨m :: queue, disconnected⟩, served⟩ =
        service.turn ⟨⟨queue, disconnected⟩, served⟩ → service.serveOne served m = served →
        ∃ front rest, m :: queue = front ++ rest ∧ (m :: queue ≠ [] → front ≠ []) ∧
          service.turn ⟨⟨m :: queue, disconnected⟩, served⟩ =
            ⟨⟨rest, disconnected⟩, service.serve served front⟩ := by
      intro hsame hone
      refine ⟨m :: front, rest, congrArg (m :: ·) hqueue, fun _ => List.cons_ne_nil _ _, ?_⟩
      rw [hsame, hturn, serve, serve, List.foldl_cons, hone]
    cases m with
    | message packet =>
      refine ⟨[.message packet], queue, rfl, fun _ => List.cons_ne_nil _ _, ?_⟩
      cases htake : service.take packet with
      | none => simp [turn, h, recv, PacketReceiver.recv, PacketReceiver.recvFrom, serve, serveOne, htake]
      | some r =>
        cases r <;>
          simp [turn, h, recv, PacketReceiver.recv, PacketReceiver.recvFrom, serve, serveOne, htake]
    | shutdown =>
      refine ⟨[.shutdown], queue, rfl, fun _ => List.cons_ne_nil _ _, ?_⟩
      simp [turn, h, recv, PacketReceiver.recv, PacketReceiver.recvFrom, serve, serveOne]
    | failedRegistration | successfulRegistration =>
      refine hword ?_ (by simp [serveOne])
      simp [turn, h, recv, PacketReceiver.recv, PacketReceiver.recvFrom]

theorem turn_panicked {task : ServiceTask σ} (h : task.served.panicked) : service.turn task = task :=
  if_pos h

theorem turns_panicked {task : ServiceTask σ} (h : task.served.panicked) (n : Nat) :
    service.turns n task = task := Function.iterate_fixed (turn_panicked h) n

variable (service) in
/-- A round leaves the senders alone. -/
theorem turns_disconnected (n : Nat) (task : ServiceTask σ) :
    (service.turns n task).rx.disconnected = task.rx.disconnected := by
  induction n generalizing task with
  | zero => rfl
  | succ n ih =>
    rw [turns, Function.iterate_succ_apply, ← turns, ih]
    cases hpanicked : task.served.panicked with
    | true => rw [turn_panicked hpanicked]
    | false =>
      obtain ⟨front, rest, -, -, hturn⟩ := turn_eq service task.rx hpanicked
      rw [show service.turn task = _ from hturn]

/-- As many rounds as there are messages deal with all of them. -/
theorem turns_eq {n : Nat} (task : ServiceTask σ) (hn : task.rx.queue.length ≤ n) :
    (service.turns n task).served = service.serve task.served task.rx.queue ∧
      ((service.turns n task).served.panicked = false → (service.turns n task).rx.queue = []) := by
  induction n generalizing task with
  | zero =>
    have hnil : task.rx.queue = [] := List.length_eq_zero_iff.mp (Nat.le_zero.mp hn)
    rw [hnil]
    exact ⟨rfl, fun _ => hnil⟩
  | succ n ih =>
    cases hpanicked : task.served.panicked with
    | true =>
      rw [turns_panicked hpanicked, serve_panicked hpanicked, hpanicked]
      exact ⟨rfl, fun h => absurd h Bool.true_eq_false.mp⟩
    | false =>
      obtain ⟨front, rest, hqueue, hfront, hturn⟩ := turn_eq service task.rx hpanicked
      have hlen : rest.length ≤ n := by
        by_cases hnil : task.rx.queue = []
        · rw [hnil] at hqueue
          rw [(List.append_eq_nil_iff.mp hqueue.symm).2]
          exact Nat.zero_le n
        · have hpos := List.length_pos_iff.mpr (hfront hnil)
          rw [hqueue, List.length_append] at hn
          omega
      have hnext := ih ⟨{ task.rx with queue := rest }, service.serve task.served front⟩ hlen
      rw [turns, Function.iterate_succ_apply, ← turns, show service.turn task = _ from hturn, hqueue,
        serve_append]
      exact hnext

/-- A task with nothing queued stays where it is. It waits if there is still a sender, and
goes round and round otherwise. -/
theorem turn_of_nil {task : ServiceTask σ} (hnil : task.rx.queue = [])
    (h : task.served.panicked = false) :
    service.turn task = task ∧ service.waits task = !task.rx.disconnected := by
  obtain ⟨⟨queue, disconnected⟩, served⟩ := task
  simp only at hnil
  subst hnil
  cases disconnected <;>
    simp_all [turn, waits, recv, PacketReceiver.recv, PacketReceiver.recvFrom]

end Service

/-- The task of a service and the messages it has been sent. -/
structure Serving (σ : Type) where
  arrived : List ClientMessage
  task : ServiceTask σ
  deriving DecidableEq

inductive ServingEvent where
  /-- The bus queues a message for the service. -/
  | arrive (m : ClientMessage)
  /-- The bus drops its sending half. -/
  | disconnect
  /-- The task runs once round its loops. -/
  | turn
  deriving DecidableEq

namespace Serving

variable {σ β : Type}

/-- A service that has just been registered. -/
def new (state : σ) : Serving σ := ⟨[], ⟨[], false⟩, state, [], false⟩

def step (service : Service σ β) (s : Serving σ) : ServingEvent → Option (Serving σ)
  | .arrive m =>
    if s.task.rx.disconnected then none
    else some ⟨s.arrived ++ [m], { s.task with rx := { s.task.rx with queue := s.task.rx.queue ++ [m] } }⟩
  | .disconnect => some { s with task := { s.task with rx := { s.task.rx with disconnected := true } } }
  | .turn => some { s with task := service.turn s.task }

def machine (service : Service σ β) (state : σ) : Machine (Serving σ) ServingEvent where
  init s := s = .new state
  step s event s' := s.step service event = some s'

/-- What has been sent to the service was dealt with in order, or is still queued. -/
def Inv (service : Service σ β) (state : σ) (s : Serving σ) : Prop :=
  ∃ taken, s.arrived = taken ++ s.task.rx.queue ∧
    s.task.served = service.serve ⟨state, [], false⟩ taken

variable {service : Service σ β} {state : σ} {s s' : Serving σ} {event : ServingEvent}

theorem Inv.step (h : Inv service state s) (hstep : s.step service event = some s') :
    Inv service state s' := by
  obtain ⟨taken, harrived, hserved⟩ := h
  cases event with
  | arrive m =>
    obtain ⟨-, hs'⟩ := Option.ite_none_left_eq_some.mp hstep
    cases hs'
    exact ⟨taken, by rw [harrived, List.append_assoc], hserved⟩
  | disconnect =>
    cases hstep
    exact ⟨taken, harrived, hserved⟩
  | turn =>
    cases hstep
    cases hpanicked : s.task.served.panicked with
    | true =>
      rw [Service.turn_panicked hpanicked]
      exact ⟨taken, harrived, hserved⟩
    | false =>
      obtain ⟨front, rest, hqueue, -, hturn⟩ := Service.turn_eq service s.task.rx hpanicked
      have hturn : service.turn s.task =
        ⟨{ s.task.rx with queue := rest }, service.serve s.task.served front⟩ := hturn
      refine ⟨taken ++ front, ?_, ?_⟩
      · rw [hturn, harrived, hqueue, List.append_assoc]
      · rw [hturn, hserved, Service.serve_append]

theorem reaches_of_run (service : Service σ β) (events : List ServingEvent)
    (h : Machine.run (Serving.step service) (fun _ _ => True) (.new state) events = some s) :
    (machine service state).Reaches (fun _ _ => True) s :=
  .run (fun _ _ _ hstep => hstep) (.init rfl) h

theorem Inv.of_reaches (h : (machine service state).Reaches (fun _ _ => True) s) :
    Inv service state s :=
  h.invariant (fun _ hs => ⟨[], by rw [hs]; rfl, by rw [hs]; rfl⟩)
    fun _ _ _ hinv _ hstep => hinv.step hstep

/-- Whatever arrives when, the task has handled the readable ones of the messages it has
taken, in order and each once, and after as many rounds as there are messages in its queue it
has handled those of all that have arrived. -/
theorem Inv.handled (h : Inv service state s) :
    (∃ taken, s.arrived = taken ++ s.task.rx.queue ∧
      s.task.served.panicked = service.panics taken ∧
      (s.task.served.sent, s.task.served.state) =
        service.handleAll (service.messages taken) state) ∧
    ∀ n, s.task.rx.queue.length ≤ n →
      (service.turns n s.task).served.panicked = service.panics s.arrived ∧
      ((service.turns n s.task).served.sent, (service.turns n s.task).served.state) =
        service.handleAll (service.messages s.arrived) state := by
  obtain ⟨taken, harrived, hserved⟩ := h
  refine ⟨⟨taken, harrived, ?_⟩, ?_⟩
  · rw [hserved, Service.serve_eq, List.nil_append]
    exact ⟨rfl, rfl⟩
  · intro n hn
    rw [(Service.turns_eq s.task hn).1, hserved, ← Service.serve_append, ← harrived,
      Service.serve_eq, List.nil_append]
    exact ⟨rfl, rfl⟩

end Serving

/-- A service for requests, run by `add_bus_depot_with_endpoint`. -/
structure BusDepot (σ : Type) where
  decode : Nat → List UInt8 → Option (List UInt8)
  requestType : Nat
  ourId : NodeId
  onRequest : Option (List UInt8) → σ → Payload × σ

namespace BusDepot

variable {σ : Type} (depot : BusDepot σ)

/-- The reply to a request, and the depot after it. -/
def answer (request : RpcRequest) (state : σ) : Packet × σ :=
  let r := depot.onRequest (some request.payload) state
  (⟨request.responseEndpointId, none, depot.ourId, r.1⟩, r.2)

def service : Service σ RpcRequest where
  take := recvRpc depot.decode depot.requestType
  handle request state := ([(depot.answer request state).1], (depot.answer request state).2)

variable {depot}

variable (depot) in
/-- There is one reply to each request, at the address that came with it. -/
theorem handleAll_addresses (requests : List RpcRequest) (state : σ) :
    (depot.service.handleAll requests state).1.map Packet.toAddress =
      requests.map RpcRequest.responseEndpointId := by
  induction requests generalizing state with
  | nil => rfl
  | cons request requests ih =>
    rw [Service.handleAll, List.map_append, ih, List.map_cons]
    rfl

theorem handleAll_state (requests : List RpcRequest) (state : σ) :
    (depot.service.handleAll requests state).2 = requests.foldl
      (fun state request => (depot.onRequest (some request.payload) state).2) state := by
  induction requests generalizing state with
  | nil => rfl
  | cons request requests ih => exact ih _

/-- A depot that echoes requests and counts them. -/
def echo : BusDepot Nat where
  decode _ b := some b
  requestType := 1
  ourId := 7
  onRequest request count := (.bytes (request.getD []), count + 1)

/-- A request, one that says not where to reply, the end of the bus, and another request. -/
def echoEvents : List ServingEvent :=
  [.arrive (.message ⟨.endpoint 5, some (.endpoint 8), 7, .bytes [1]⟩),
    .arrive (.message ⟨.endpoint 5, none, 7, .bytes [2]⟩), .turn, .arrive .shutdown,
    .arrive (.message ⟨.endpoint 5, some (.endpoint 9), 7, .busRider 1 [3]⟩), .disconnect]

end BusDepot

/-- A message and the endpoint it is for. -/
structure BusTicket where
  rider : Payload
  dest : EndpointId
  deriving DecidableEq

/-- A service for messages, run by `bus_stop_service`. -/
structure BusStop where
  receiver : Receiver
  ourId : NodeId
  onMessage : List UInt8 → List BusTicket

namespace BusStop

variable (stop : BusStop)

/-- The packet of a ticket. -/
def packet (ticket : BusTicket) : Packet := ⟨.endpoint ticket.dest, none, stop.ourId, ticket.rider⟩

def take (packet : Packet) : Option (Except ReceiveError (List UInt8)) :=
  (stop.receiver.reveal packet.payload).map fun
    | .ok msg => .ok msg
    | .error p => .error (.deserializationError p)

def service : Service Unit (List UInt8) where
  take := stop.take
  handle msg _ := ((stop.onMessage msg).map stop.packet, ())

variable {stop}

/-- The task of a bus stop receives as a receiver does. -/
theorem recv_eq (rx : Rx ClientMessage) : stop.service.recv rx = stop.receiver.recv rx := by
  unfold Service.recv Receiver.recv
  rcases PacketReceiver.recv rx with ⟨(e | packet) | _, rx'⟩
  · rfl
  · cases hreveal : stop.receiver.reveal packet.payload with
    | none => simp [service, take, hreveal]
    | some r => cases r <;> simp [service, take, hreveal]
  · rfl

theorem handleAll_sent (msgs : List (List UInt8)) :
    (stop.service.handleAll msgs ()).1 = msgs.flatMap fun msg => (stop.onMessage msg).map stop.packet := by
  induction msgs with
  | nil => rfl
  | cons msg msgs ih =>
    rw [Service.handleAll, List.flatMap_cons, ← ih]
    rfl

/-- A bus stop that passes every message on to one endpoint, twice. -/
def twice : BusStop where
  receiver := ⟨fun _ b => if b = [] then none else some b, 1⟩
  ourId := 7
  onMessage msg := [⟨.bytes msg, 8⟩, ⟨.bytes msg, 8⟩]

/-- A message that cannot be read, the end of the bus, and a message that can be read. -/
def twiceEvents : List ServingEvent :=
  [.arrive (.message ⟨.endpoint 5, none, 7, .bytes []⟩), .turn, .arrive .shutdown,
    .arrive (.message ⟨.endpoint 5, none, 7, .bytes [3]⟩), .disconnect]

end BusStop

end Anybus
