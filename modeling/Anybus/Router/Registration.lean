import Anybus.Router.DropListener
import Anybus.Router.Fib

/-!
# Confirming a registration

A route change publishes the new table and then confirms the registration that asked for
it. From the first step on, packets of other threads reach the new listener, whose
channel still waits for the confirmation. In the model the two steps are apart, threads
send through any table that was ever published, and clients receive when they like.
-/

namespace Anybus

/-- What a client makes of the first message in its channel, and what it tells the router
then; `none` is the end of the channel. -/
def waitForRegistration (endpointId : EndpointId) :
    Option ClientMessage → Except ReceiveError Unit × List RouterMsg
  | none => (.error .shutdown, [])
  | some (.message _) => (.error (.registrationFailed "Bad response from Bus"), [.deadLink endpointId])
  | some (.failedRegistration _ reason) => (.error (.registrationFailed reason), [])
  | some .shutdown => (.error .shutdown, [])
  | some (.successfulRegistration _) => (.ok (), [])

/-- Where the router's loop stands, between two turns or between the publication of a
table and the confirmation of the registration that asked for it. -/
inductive LoopState where
  | turn (st : RouterState)
  | confirm (request : RegistrationRequest)
  | ended
  deriving DecidableEq

/-- A router and the listeners of its clients. -/
structure Reception where
  /-- The channels that came with a registration so far. -/
  opened : List Sender
  /-- The registrations that were accepted so far. -/
  accepted : List RegistrationRequest
  /-- All tables that were published; a thread may still hold an old one. -/
  tables : List ForwardingTable
  /-- What clients took out of their channels. -/
  received : Sender → List ClientMessage
  wires : Wires
  state : LoopState
  router : Router

/-- What can happen next. -/
inductive ReceptionEvent where
  /-- The router's loop goes on. -/
  | turn (node : Tx → Chan NodeMessage) (now : Instant) (wake : Wake)
  /-- A client sends a packet through a published table. -/
  | send (table : Nat) (packet : Packet)
  /-- A peer session forwards a packet through a published table. -/
  | forward (table : Nat) (packet : WirePacket) (connectionId : ConnectionId)
  /-- A client takes the first message out of its channel. -/
  | receive (sender : Sender)
  /-- A client gives up its channel. -/
  | close (sender : Sender)

/-- The channel that a wait brings to the router. -/
def RouterState.opens (wake : Wake) : RouterState → List Sender
  | .listen =>
    match wake with
    | .message (.registerEndpoint request) => [request.sender]
    | _ => []
  | _ => []

namespace Reception

/-- A router that was just started. -/
def new (nodeId : NodeId) (now : Instant) : Reception :=
  ⟨[], [], [.new nodeId], fun _ => [], .idle 32, .turn .start, .new nodeId now⟩

/-- Put the channels of the listeners in place of the old ones. -/
def withClients (reception : Reception) (w : Wires) : Reception :=
  { reception with wires := { reception.wires with client := w.client } }

/-- One event; `none` if it cannot happen or the router panics. -/
def step (reception : Reception) : ReceptionEvent → Option Reception
  | .turn node now wake =>
    match reception.state with
    | .turn (.routeChange notify) =>
      reception.router.lsdb.buildFib.map fun r =>
        { reception with
          tables := reception.tables ++ [r.2]
          state := notify.elim (.turn .listen) .confirm
          router := { reception.router with lsdb := r.1, fib := r.2 } }
    | .turn st =>
      (reception.router.next { reception.wires with node := node } now wake st).map fun r =>
        { reception with
          opened := reception.opened ++ st.opens wake
          accepted := reception.accepted ++ r.1.elim [] RouterState.accepted
          wires := { reception.wires with client := r.2.2.client }
          state := r.1.elim .ended .turn
          router := r.2.1 }
    | .confirm request =>
      some { reception with
        wires := reception.wires.offerClient request.sender
          (.successfulRegistration request.endpointId)
        state := .turn .listen }
    | .ended => none
  | .send table packet =>
    (reception.tables[table]?).map fun fib =>
      match fib.send reception.wires packet with
      | .ok w => reception.withClients w
      | .error _ => reception
  | .forward table packet connectionId =>
    (reception.tables[table]?).map fun fib =>
      reception.withClients (fib.forward reception.wires packet connectionId)
  | .receive sender =>
    match (reception.wires.client sender).queue with
    | [] => none
    | m :: rest =>
      some { reception with
        received := Function.update reception.received sender (reception.received sender ++ [m])
        wires := { reception.wires with
          client := Function.update reception.wires.client sender
            { reception.wires.client sender with queue := rest } } }
  | .close sender =>
    some { reception with
      wires := { reception.wires with
        client := Function.update reception.wires.client sender
          { reception.wires.client sender with closed := true } } }

/-- Several events in turn. -/
def run (reception : Reception) (events : List ReceptionEvent) : Option Reception :=
  events.foldlM step reception

/-- The states of a reception, when every event obeys a rule. Maps may be rehashed at any
time. -/
inductive Reaches (allowed : Reception → ReceptionEvent → Prop) (nodeId : NodeId) :
    Reception → Prop where
  | new (now : Instant) : Reaches allowed nodeId (.new nodeId now)
  | rehash {reception : Reception} {lsdb : LsDb} : Reaches allowed nodeId reception →
      LsDb.Rehash reception.router.lsdb lsdb →
      Reaches allowed nodeId { reception with router := { reception.router with lsdb := lsdb } }
  | step {reception reception' : Reception} (event : ReceptionEvent) :
      Reaches allowed nodeId reception → allowed reception event →
      reception.step event = some reception' → Reaches allowed nodeId reception'

/-- Events that are allowed in any state reach their result. -/
theorem Reaches.run {allowed : Reception → ReceptionEvent → Prop} {nodeId : NodeId}
    {reception reception' : Reception} {events : List ReceptionEvent}
    (h : Reaches allowed nodeId reception) (hall : ∀ e ∈ events, ∀ r, allowed r e)
    (hrun : reception.run events = some reception') : Reaches allowed nodeId reception' := by
  induction events generalizing reception with
  | nil =>
    obtain rfl := Option.some.inj hrun
    exact h
  | cons e events ih =>
    obtain ⟨next, hnext, hrest⟩ := Option.bind_eq_some_iff.mp hrun
    exact ih (h.step e (hall e List.mem_cons_self reception) hnext)
      (fun e' he' => hall e' (List.mem_cons_of_mem _ he')) hrest

/-- Everything that was ever put into a channel, oldest first. -/
def history (reception : Reception) (s : Sender) : List ClientMessage :=
  reception.received s ++ (reception.wires.client s).queue

/-- Every registration comes with a channel of its own. -/
def Fresh (reception : Reception) : ReceptionEvent → Prop
  | .turn _ _ wake => ∀ st, reception.state = .turn st → ∀ s ∈ st.opens wake, s ∉ reception.opened
  | _ => True

end Reception

/-- The listeners that a table knows for an address. -/
def ForwardingTable.listenersOf (fib : ForwardingTable) (address : Address) : List Sender :=
  (fib.table.get (address.getEndpoint fib.ourId)).elim [] FibEntry.locals

section Listeners

variable {fib : ForwardingTable} {w w' : Wires} {s : Sender}

/-- A packet of a client reaches no listener but those the table knows for its address. -/
theorem ForwardingTable.send_listeners {packet : Packet} (h : fib.send w packet = .ok w')
    (s : Sender) : ∃ l, w'.client s = (w.client s).offerAll l ∧
      (s ∉ fib.listenersOf packet.toAddress → l = []) := by
  obtain ⟨entry, hentry, _, hclient⟩ := send_copies h
  refine ⟨_, hclient s, fun hs => ?_⟩
  unfold listenersOf at hs
  rw [hentry] at hs
  have hcount : entry.locals.count s = 0 := List.count_eq_zero.mpr hs
  rw [hcount, List.replicate_zero]

/-- Nor does a packet of a neighbour, which has to pass the checks too. -/
theorem ForwardingTable.forward_listeners (fib : ForwardingTable) (w : Wires) (packet : WirePacket)
    (c : ConnectionId) (s : Sender) :
    ∃ l, (fib.forward w packet c).client s = (w.client s).offerAll l ∧
      ((fib.accepts packet c = true → s ∉ fib.listenersOf packet.toAddress) → l = []) := by
  cases ha : fib.accepts packet c with
  | false =>
    rw [forward_drops (Or.inl ha)]
    exact ⟨[], (Chan.offerAll_nil _).symm, fun _ => rfl⟩
  | true =>
    cases hentry : fib.table.get (packet.toAddress.getEndpoint fib.ourId) with
    | none =>
      rw [forward_drops (Or.inr hentry)]
      exact ⟨[], (Chan.offerAll_nil _).symm, fun _ => rfl⟩
    | some entry =>
      refine ⟨_, (forward_copies ha hentry w).2 s, fun hs => ?_⟩
      have hnot := hs rfl
      unfold listenersOf at hnot
      rw [hentry] at hnot
      have hcount : entry.locals.count s = 0 := List.count_eq_zero.mpr hnot
      rw [hcount, List.replicate_zero]

/-- A built table knows only channels that are served. -/
theorem LsDb.serves_of_listener {db db' : LsDb} (hb : db.buildFib = some (db', fib))
    {address : Address} (hs : s ∈ fib.listenersOf address) : ∃ e, db.routes.Serves e s := by
  unfold ForwardingTable.listenersOf at hs
  rw [table_of_built hb] at hs
  cases hre : db.routes.table.get (address.getEndpoint fib.ourId) with
  | none =>
    rw [hre] at hs
    cases hs
  | some re =>
    rw [hre, Option.bind_some] at hs
    cases hf : db'.fibEntry re with
    | none =>
      rw [hf] at hs
      cases hs
    | some choice =>
      cases choice with
      | none =>
        rw [hf] at hs
        cases hs
      | some entry =>
        rw [hf] at hs
        have hcount := List.count_pos_iff.mpr (show s ∈ entry.locals from hs)
        have hlisten := List.count_pos_iff.mp (Nat.lt_of_lt_of_le hcount (count_locals_le hf s))
        exact ⟨_, serves_of_listens hre hlisten⟩

theorem LsDb.buildFib_routes {db db' : LsDb} (hb : db.buildFib = some (db', fib)) :
    db'.routes = db.routes := by
  obtain ⟨_, _, rfl, _⟩ := buildFib_eq_some_iff.mp hb
  rfl

end Listeners

section Turns

variable {router router' : Router} {w w' : Wires} {now : Instant} {wake : Wake} {st : RouterState}
  {st' : Option RouterState}

/-- Apart from a route change, a turn writes only to a channel whose registration it
refuses, and to channels that are served. -/
theorem Router.next_client (h : router.next w now wake st = some (st', router', w'))
    (hst : ∀ notify, st ≠ .routeChange notify) (s : Sender) :
    ∃ l, w'.client s = (w.client s).offerAll l ∧
      ((∀ request, st = .registerEndpoint request → request.sender = s →
          st' = some (.routeChange (some request))) →
        (∀ e, ¬ router.lsdb.routes.Serves e s) → l = []) := by
  obtain ⟨v, hop, hw⟩ := Router.next_op h
  have hv := hw hst
  subst hv
  have hsame : w'.client = w.client → ∃ l, w'.client s = (w.client s).offerAll l ∧
      ((∀ request, st = .registerEndpoint request → request.sender = s →
          st' = some (.routeChange (some request))) →
        (∀ e, ¬ router.lsdb.routes.Serves e s) → l = []) := by
    intro hclient
    exact ⟨[], by rw [hclient, Chan.offerAll_nil], fun _ _ => rfl⟩
  cases st with
  | start | listen => exact hsame (by rw [hop.2])
  | handleBrokerMsg msg =>
    cases msg with
    | registerEndpoint | shutdown => exact hsame (by rw [hop.2])
    | deadLink | registerPeer | unRegisterPeer | lsaInbound | lsaAckInbound | setAnycastCost =>
      exact hsame (LsDb.step_client hop (by simp) (by simp))
  | tick => exact hsame (LsDb.step_client hop (by simp) (by simp))
  | routeChange notify => exact absurd rfl (hst notify)
  | registerEndpoint request =>
    have hclient := router.lsdb.addEndpoint_client w request now
    have hwires : w' = (router.lsdb.addEndpoint w request now).2.1 :=
      (congrArg Prod.snd (Option.some.inj hop)).symm
    rw [← hwires] at hclient
    cases hok : (router.lsdb.addEndpoint w request now).2.2 with
    | true =>
      rw [hok] at hclient
      exact hsame hclient
    | false =>
      rw [hok] at hclient
      by_cases hs : request.sender = s
      · subst hs
        refine ⟨[.failedRegistration request.endpointId ""], ?_, fun hnot => ?_⟩
        · rw [hclient, ← Chan.offer_eq_offerAll]
          simp [Wires.offerClient]
        · -- The turn refused the registration, so it does not go on to confirm it.
          have hst' := hnot request rfl rfl
          simp [Router.next, hok, hst'] at h
      · refine ⟨[], ?_, fun _ _ => rfl⟩
        rw [hclient, Chan.offerAll_nil]
        simp [Wires.offerClient, Function.update_of_ne (Ne.symm hs)]
  | shutdown =>
    obtain ⟨senders, hserved, hclient⟩ := router.lsdb.shutdown_client w now
    have hwires : w' = (router.lsdb.shutdown w now).2 :=
      (congrArg Prod.snd (Option.some.inj hop)).symm
    refine ⟨_, by rw [hwires]; exact hclient s, fun _ hnot => ?_⟩
    have hmem : s ∉ senders := by
      intro hs
      obtain ⟨e, he⟩ := hserved s hs
      exact hnot e he
    rw [List.count_eq_zero.mpr hmem, List.replicate_zero]

/-- A message comes into hand by a wait. -/
theorem Router.next_waits {msg : RouterMsg}
    (h : router.next w now wake st = some (some (.handleBrokerMsg msg), router', w')) :
    st = .listen ∧ wake = .message msg := by
  have hhand := Router.next_inHand h
  cases st with
  | listen =>
    cases wake with
    | message msg' =>
      cases hhand
      exact ⟨rfl, rfl⟩
    | channelClosed | timer => cases hhand
  | start | handleBrokerMsg | registerEndpoint | routeChange | tick | shutdown => cases hhand

/-- A registration is performed after its message was taken up. -/
theorem Router.next_registers {request : RegistrationRequest}
    (h : router.next w now wake st = some (some (.registerEndpoint request), router', w')) :
    st = .handleBrokerMsg (.registerEndpoint request) := by
  cases st with
  | start | shutdown => simp [Router.next] at h
  | listen => cases wake <;> simp [Router.next] at h
  | handleBrokerMsg msg =>
    simp only [Router.next, Option.map_eq_some_iff, Prod.mk.injEq, Option.some.injEq] at h
    obtain ⟨⟨_, _, _⟩, hm, rfl, _⟩ := h
    rcases Router.handleBrokerMsg_state hm with hst | ⟨request', rfl, hst, _⟩ | hst | hst
    · cases hst
    · cases hst
      rfl
    · cases hst
    · cases hst
  | registerEndpoint request' =>
    simp only [Router.next] at h
    split at h <;> simp at h
  | routeChange notify =>
    simp only [Router.next, Option.map_eq_some_iff, Prod.mk.injEq, Option.some.injEq] at h
    obtain ⟨_, _, hst, _⟩ := h
    cases hst
  | tick =>
    simp only [Router.next, Option.map_eq_some_iff, Prod.mk.injEq, Option.some.injEq] at h
    obtain ⟨⟨_, _, rebuild⟩, _, hst, _⟩ := h
    cases rebuild <;> cases hst

end Turns

namespace Reception

/-- No packet is put into the channel of a registration between the publication of its
table and its confirmation. -/
def Waits (reception : Reception) : ReceptionEvent → Prop
  | .send table packet => ∀ request fib, reception.state = .confirm request →
      reception.tables[table]? = some fib → request.sender ∉ fib.listenersOf packet.toAddress
  | .forward table packet connectionId => ∀ request fib, reception.state = .confirm request →
      reception.tables[table]? = some fib → fib.accepts packet connectionId = true →
      request.sender ∉ fib.listenersOf packet.toAddress
  | _ => True

/-- An accepted registration is settled: its confirmation came first, or the client gave up
before anything came. -/
def Settled (reception : Reception) (request : RegistrationRequest) : Prop :=
  (reception.history request.sender).head? = some (.successfulRegistration request.endpointId) ∨
    ((reception.wires.client request.sender).closed = true ∧ reception.history request.sender = [])

/-- Nothing was put into a channel, and there is room for a message. -/
def Untouched (reception : Reception) (s : Sender) : Prop :=
  reception.history s = [] ∧ 0 < (reception.wires.client s).capacity

/-- No table knows of a channel. -/
def Unlisted (reception : Reception) (s : Sender) : Prop :=
  ∀ fib ∈ reception.tables, ∀ address, s ∉ fib.listenersOf address

/-- A channel that no part of the router knows of. -/
structure Unknown (reception : Reception) (s : Sender) : Prop where
  untouched : reception.Untouched s
  unlisted : reception.Unlisted s
  unserved : ∀ e, ¬ reception.router.lsdb.routes.Serves e s

/-- What holds in every state, by the stage of a registration. -/
structure Inv (reception : Reception) : Prop where
  unopened : ∀ s, s ∉ reception.opened → reception.Unknown s
  asked : ∀ request, reception.state = .turn (.handleBrokerMsg (.registerEndpoint request)) ∨
    reception.state = .turn (.registerEndpoint request) →
    request.sender ∈ reception.opened ∧ reception.Unknown request.sender
  accepted : ∀ request, reception.state = .turn (.routeChange (some request)) →
    request.sender ∈ reception.opened ∧ reception.Untouched request.sender ∧
      reception.Unlisted request.sender
  published : ∀ request, reception.state = .confirm request →
    request.sender ∈ reception.opened ∧ reception.Untouched request.sender
  settled : ∀ request ∈ reception.accepted, reception.state ≠ .turn (.routeChange (some request)) →
    reception.state ≠ .confirm request → reception.Settled request

section Channels

variable {reception reception' : Reception} {s : Sender}

/-- What is offered to a channel comes last. -/
theorem history_offerAll {l : List ClientMessage}
    (hclient : reception'.wires.client s = (reception.wires.client s).offerAll l)
    (hreceived : reception'.received s = reception.received s) :
    ∃ l', reception'.history s = reception.history s ++ l' ∧
      ((reception.wires.client s).closed = true → l' = []) := by
  unfold history
  rw [hclient, hreceived, Chan.offerAll_queue]
  split
  · exact ⟨[], (List.append_nil _).symm, fun _ => rfl⟩
  · next hopen => exact ⟨_, (List.append_assoc _ _ _).symm, fun hc => absurd hc hopen⟩

theorem Settled.offerAll {request : RegistrationRequest} (h : reception.Settled request)
    {l : List ClientMessage} (hclient : reception'.wires.client request.sender =
      (reception.wires.client request.sender).offerAll l)
    (hreceived : reception'.received request.sender = reception.received request.sender) :
    reception'.Settled request := by
  obtain ⟨l', hhistory, hclosed⟩ := history_offerAll hclient hreceived
  unfold Settled
  rw [hhistory]
  rcases h with hhead | ⟨hc, hempty⟩
  · left
    rw [List.head?_append, hhead, Option.some_or]
  · right
    rw [hclosed hc, hempty, hclient, Chan.offerAll_closed]
    exact ⟨hc, rfl⟩

theorem Untouched.offerNone (h : reception.Untouched s)
    (hclient : reception'.wires.client s = reception.wires.client s)
    (hreceived : reception'.received s = reception.received s) : reception'.Untouched s := by
  unfold Untouched history
  rw [hclient, hreceived]
  exact h

/-- Events outside the router keep the invariant, if they leave the channels alone that no
table knows of or that wait for their confirmation. -/
theorem Inv.channels (h : reception.Inv) (w : Wires) (received : Sender → List ClientMessage)
    (huntouched : ∀ s, reception.Untouched s →
      (reception.Unlisted s ∨ ∃ request, reception.state = .confirm request ∧ request.sender = s) →
      ({ reception with wires := w, received := received } : Reception).Untouched s)
    (hsettled : ∀ request, reception.Settled request →
      ({ reception with wires := w, received := received } : Reception).Settled request) :
    ({ reception with wires := w, received := received } : Reception).Inv := by
  have hunknown : ∀ s, reception.Unknown s →
      ({ reception with wires := w, received := received } : Reception).Unknown s := by
    intro s hs
    exact ⟨huntouched s hs.untouched (Or.inl hs.unlisted), hs.unlisted, hs.unserved⟩
  refine ⟨fun s hs => hunknown s (h.unopened s hs), fun request hst => ?_, fun request hst => ?_,
    fun request hst => ?_, fun request hmem hchange hconfirm => ?_⟩
  · obtain ⟨hopened, hs⟩ := h.asked request hst
    exact ⟨hopened, hunknown _ hs⟩
  · obtain ⟨hopened, hs, hlisted⟩ := h.accepted request hst
    exact ⟨hopened, huntouched _ hs (Or.inl hlisted), hlisted⟩
  · obtain ⟨hopened, hs⟩ := h.published request hst
    exact ⟨hopened, huntouched _ hs (Or.inr ⟨request, hst, rfl⟩)⟩
  · exact hsettled request (h.settled request hmem hchange hconfirm)

/-- A packet keeps the invariant if it passes by the channel that waits for its
confirmation. -/
theorem Inv.withClients (h : reception.Inv) {w : Wires} (fib : ForwardingTable)
    (hfib : fib ∈ reception.tables) (address : Address)
    (hclient : ∀ s, ∃ l, w.client s = (reception.wires.client s).offerAll l ∧
      ((s ∉ fib.listenersOf address ∨
        ∃ request, reception.state = .confirm request ∧ request.sender = s) → l = [])) :
    (reception.withClients w).Inv := by
  refine h.channels _ reception.received (fun s hs hcase => ?_) fun request hs => ?_
  · obtain ⟨l, hl, hnone⟩ := hclient s
    have hempty : l = [] := by
      rcases hcase with hlisted | hconfirm
      · exact hnone (Or.inl (hlisted fib hfib address))
      · exact hnone (Or.inr hconfirm)
    refine hs.offerNone ?_ rfl
    rw [hempty, Chan.offerAll_nil] at hl
    exact hl
  · obtain ⟨l, hl, _⟩ := hclient request.sender
    exact hs.offerAll hl rfl

theorem Inv.send {table : Nat} {packet : Packet} (h : reception.Inv)
    (hwaits : reception.Waits (.send table packet))
    (hstep : reception.step (.send table packet) = some reception') : reception'.Inv := by
  obtain ⟨fib, hfib, rfl⟩ := Option.map_eq_some_iff.mp hstep
  split
  · next w hw =>
    refine h.withClients fib (List.mem_of_getElem? hfib) packet.toAddress fun s => ?_
    obtain ⟨l, hl, hnone⟩ := ForwardingTable.send_listeners hw s
    refine ⟨l, hl, ?_⟩
    rintro (hs | ⟨request, hst, rfl⟩)
    · exact hnone hs
    · exact hnone (hwaits request fib hst hfib)
  · exact h

theorem Inv.forward {table : Nat} {packet : WirePacket} {c : ConnectionId} (h : reception.Inv)
    (hwaits : reception.Waits (.forward table packet c))
    (hstep : reception.step (.forward table packet c) = some reception') : reception'.Inv := by
  obtain ⟨fib, hfib, rfl⟩ := Option.map_eq_some_iff.mp hstep
  refine h.withClients fib (List.mem_of_getElem? hfib) packet.toAddress fun s => ?_
  obtain ⟨l, hl, hnone⟩ := fib.forward_listeners reception.wires packet c s
  refine ⟨l, hl, ?_⟩
  rintro (hs | ⟨request, hst, rfl⟩)
  · exact hnone fun _ => hs
  · exact hnone fun haccepts => hwaits request fib hst hfib haccepts

theorem Inv.receive (h : reception.Inv) (hstep : reception.step (.receive s) = some reception') :
    reception'.Inv := by
  simp only [step] at hstep
  split at hstep
  · cases hstep
  · next m rest hqueue =>
    obtain rfl := Option.some.inj hstep
    -- The message moves from the channel to what was received.
    have hhistory : ∀ s', ({ reception with
        received := Function.update reception.received s (reception.received s ++ [m])
        wires := { reception.wires with
          client := Function.update reception.wires.client s
            { reception.wires.client s with queue := rest } } } : Reception).history s' =
          reception.history s' := by
      intro s'
      unfold history
      by_cases hs : s' = s
      · subst hs
        simp [hqueue]
      · simp [Function.update_of_ne hs]
    refine h.channels _ _ (fun s' hs' _ => ?_) fun request hset => ?_
    · refine ⟨(hhistory s').trans hs'.1, ?_⟩
      have hne : s' ≠ s := by
        rintro rfl
        have hempty := hs'.1
        unfold history at hempty
        rw [hqueue] at hempty
        simp at hempty
      simp only [Function.update_of_ne hne]
      exact hs'.2
    · rcases hset with hhead | ⟨hclosed, hempty⟩
      · exact Or.inl (by rw [hhistory]; exact hhead)
      · refine Or.inr ⟨?_, (hhistory _).trans hempty⟩
        by_cases hs : request.sender = s
        · simpa [hs] using hclosed
        · simpa [Function.update_of_ne hs] using hclosed

theorem Inv.close (h : reception.Inv) (hstep : reception.step (.close s) = some reception') :
    reception'.Inv := by
  obtain rfl := Option.some.inj hstep
  have hhistory : ∀ s', ({ reception with
      wires := { reception.wires with
        client := Function.update reception.wires.client s
          { reception.wires.client s with closed := true } } } : Reception).history s' =
        reception.history s' := by
    intro s'
    unfold history
    by_cases hs : s' = s
    · subst hs
      simp
    · simp [Function.update_of_ne hs]
  refine h.channels _ reception.received (fun s' hs' _ => ⟨(hhistory s').trans hs'.1, ?_⟩)
    fun request hset => ?_
  · by_cases hs : s' = s
    · subst hs
      simpa using hs'.2
    · simpa [Function.update_of_ne hs] using hs'.2
  · rcases hset with hhead | ⟨hclosed, hempty⟩
    · exact Or.inl (by rw [hhistory]; exact hhead)
    · refine Or.inr ⟨?_, (hhistory _).trans hempty⟩
      by_cases hs : request.sender = s
      · simp [hs]
      · simpa [Function.update_of_ne hs] using hclosed

end Channels

section Loop

variable {reception reception' : Reception}

/-- The new table knows only channels that are served. -/
theorem Inv.publish {notify : Option RegistrationRequest} {lsdb : LsDb} {fib : ForwardingTable}
    (h : reception.Inv) (hst : reception.state = .turn (.routeChange notify))
    (hb : reception.router.lsdb.buildFib = some (lsdb, fib)) :
    ({ reception with
      tables := reception.tables ++ [fib]
      state := notify.elim (.turn .listen) .confirm
      router := { reception.router with lsdb := lsdb, fib := fib } } : Reception).Inv := by
  have hroutes := LsDb.buildFib_routes hb
  refine ⟨fun s hs => ?_, fun request hreq => ?_, fun request hreq => ?_, fun request hreq => ?_,
    fun request hmem _ hconfirm => ?_⟩
  · obtain ⟨huntouched, hunlisted, hunserved⟩ := h.unopened s hs
    refine ⟨huntouched, fun fib' hfib' address hlisten => ?_, fun e he => ?_⟩
    · rcases List.mem_append.mp hfib' with hold | hnew
      · exact hunlisted fib' hold address hlisten
      · rw [List.mem_singleton.mp hnew] at hlisten
        obtain ⟨e, he⟩ := LsDb.serves_of_listener hb hlisten
        exact hunserved e he
    · simp only [hroutes] at he
      exact hunserved e he
  · cases notify <;> simp at hreq
  · cases notify <;> simp at hreq
  · cases notify with
    | none => simp at hreq
    | some asked =>
      obtain rfl : asked = request := by simpa using hreq
      obtain ⟨hopened, huntouched, _⟩ := h.accepted asked hst
      exact ⟨hopened, huntouched⟩
  · refine h.settled request hmem (fun hchange => hconfirm ?_) (by simp [hst])
    rw [hst] at hchange
    obtain rfl : notify = some request := by simpa using hchange
    rfl

/-- The confirmation is the first message of its channel. -/
theorem Inv.confirm {request : RegistrationRequest} (h : reception.Inv)
    (hst : reception.state = .confirm request) :
    ({ reception with
      wires := reception.wires.offerClient request.sender (.successfulRegistration request.endpointId)
      state := .turn .listen } : Reception).Inv := by
  obtain ⟨hopened, huntouched, hroom⟩ := h.published request hst
  have hother : ∀ s, s ≠ request.sender →
      (reception.wires.offerClient request.sender
        (.successfulRegistration request.endpointId)).client s = reception.wires.client s := by
    intro s hs
    simp [Wires.offerClient, Function.update_of_ne hs]
  have hown : (reception.wires.offerClient request.sender
      (.successfulRegistration request.endpointId)).client request.sender =
        (reception.wires.client request.sender).offerAll
          [.successfulRegistration request.endpointId] := by
    simp [Wires.offerClient, Chan.offer_eq_offerAll]
  refine ⟨fun s hs => ?_, ?_, ?_, ?_, fun request' hmem _ _ => ?_⟩
  · have hne : s ≠ request.sender := by
      rintro rfl
      exact hs hopened
    obtain ⟨huntouched', hunlisted, hunserved⟩ := h.unopened s hs
    exact ⟨huntouched'.offerNone (hother s hne) rfl, hunlisted, hunserved⟩
  · simp
  · simp
  · simp
  · by_cases heq : request' = request
    · subst heq
      have hqueue : (reception.wires.client request'.sender).queue = [] :=
        (List.append_eq_nil_iff.mp huntouched).2
      have hreceived : reception.received request'.sender = [] :=
        (List.append_eq_nil_iff.mp huntouched).1
      unfold Settled history
      simp only [hown, hreceived, List.nil_append, Chan.offerAll_closed]
      cases hclosed : (reception.wires.client request'.sender).closed with
      | true =>
        right
        rw [Chan.offerAll_queue, hclosed, if_pos rfl, hqueue]
        exact ⟨rfl, rfl⟩
      | false =>
        left
        have hone : [ClientMessage.successfulRegistration request'.endpointId].length ≤ 1 := by simp
        rw [Chan.offerAll_queue_of_room hqueue ⟨hclosed, hroom⟩ hone]
        rfl
    · have hset := h.settled request' hmem (by simp [hst]) (by
        rw [hst]
        exact fun hc => heq (LoopState.confirm.inj hc).symm)
      by_cases hs : request'.sender = request.sender
      · exact hset.offerAll (l := [.successfulRegistration request.endpointId]) (by rw [hs]; exact hown) rfl
      · exact hset.offerAll (l := []) (by rw [hother _ hs, Chan.offerAll_nil]) rfl

theorem of_elim_turn {st : RouterState} {st' : Option RouterState}
    (h : st'.elim LoopState.ended LoopState.turn = .turn st) : st' = some st := by
  cases st' with
  | none => cases h
  | some st₁ => rw [LoopState.turn.inj h]

/-- Any other turn of the router keeps the invariant. -/
theorem Inv.next {st : RouterState} {st' : Option RouterState} {router' : Router} {w' : Wires}
    {node : Tx → Chan NodeMessage} {now : Instant} {wake : Wake} (h : reception.Inv)
    (hst : reception.state = .turn st) (hchange : ∀ notify, st ≠ .routeChange notify)
    (hfresh : ∀ s ∈ st.opens wake, s ∉ reception.opened)
    (hn : reception.router.next { reception.wires with node := node } now wake st =
      some (st', router', w')) :
    ({ reception with
      opened := reception.opened ++ st.opens wake
      accepted := reception.accepted ++ st'.elim [] RouterState.accepted
      wires := { reception.wires with client := w'.client }
      state := st'.elim .ended .turn
      router := router' } : Reception).Inv := by
  have hclient := fun s => Router.next_client hn hchange s
  have hserves := fun e s => Router.next_serves hn e s
  have hasked : ∀ request, st = .registerEndpoint request →
      request.sender ∈ reception.opened ∧ reception.Unknown request.sender := by
    rintro request rfl
    exact h.asked request (Or.inr hst)
  have hunknown : ∀ s, reception.Unknown s →
      (∀ request, st = .registerEndpoint request → request.sender ≠ s) →
      ({ reception with
        opened := reception.opened ++ st.opens wake
        accepted := reception.accepted ++ st'.elim [] RouterState.accepted
        wires := { reception.wires with client := w'.client }
        state := st'.elim .ended .turn
        router := router' } : Reception).Unknown s := by
    intro s hs hother
    obtain ⟨l, hl, hnone⟩ := hclient s
    have hempty : l = [] := hnone (fun request hreq heq => absurd heq (hother request hreq)) hs.unserved
    rw [hempty, Chan.offerAll_nil] at hl
    refine ⟨hs.untouched.offerNone hl rfl, hs.unlisted, fun e he => ?_⟩
    rcases ((hserves e s).mp he).cases with hold | ⟨request, hreq, _, _, heq⟩
    · exact hs.unserved e hold
    · exact hother request hreq heq
  refine ⟨fun s hs => ?_, fun request hreq => ?_, fun request hreq => ?_, fun request hreq => ?_,
    fun request hmem hnot _ => ?_⟩
  · have hold : s ∉ reception.opened := fun hmem => hs (List.mem_append_left _ hmem)
    refine hunknown s (h.unopened s hold) ?_
    rintro request hreq rfl
    exact hold (hasked request hreq).1
  · rcases hreq with hreq | hreq
    · obtain rfl := of_elim_turn hreq
      obtain ⟨rfl, rfl⟩ := Router.next_waits hn
      have hnew : request.sender ∈ RouterState.opens (.message (.registerEndpoint request)) .listen :=
        List.mem_singleton_self _
      exact ⟨List.mem_append_right _ hnew, hunknown _ (h.unopened _ (hfresh _ hnew)) (by simp)⟩
    · obtain rfl := of_elim_turn hreq
      obtain rfl := Router.next_registers hn
      obtain ⟨hopened, hs⟩ := h.asked request (Or.inl hst)
      exact ⟨List.mem_append_left _ hopened, hunknown _ hs (by simp)⟩
  · obtain rfl := of_elim_turn hreq
    obtain rfl := Router.next_accepted hn
    obtain ⟨hopened, hs⟩ := hasked request rfl
    obtain ⟨l, hl, hnone⟩ := hclient request.sender
    have hempty : l = [] := by
      refine hnone ?_ hs.unserved
      intro request' hreq' _
      rw [RouterState.registerEndpoint.inj hreq']
    rw [hempty, Chan.offerAll_nil] at hl
    exact ⟨List.mem_append_left _ hopened, hs.untouched.offerNone hl rfl, hs.unlisted⟩
  · cases st' <;> cases hreq
  · rcases List.mem_append.mp hmem with hold | hnew
    · have hset := h.settled request hold
        (by rw [hst]; exact fun hc => hchange _ (LoopState.turn.inj hc)) (by simp [hst])
      obtain ⟨l, hl, _⟩ := hclient request.sender
      exact hset.offerAll hl rfl
    · have hst' := RouterState.of_mem_accepted hnew
      exact absurd (by rw [hst']; rfl) hnot

theorem Inv.turn {node : Tx → Chan NodeMessage} {now : Instant} {wake : Wake} (h : reception.Inv)
    (hfresh : reception.Fresh (.turn node now wake))
    (hstep : reception.step (.turn node now wake) = some reception') : reception'.Inv := by
  simp only [step] at hstep
  split at hstep
  · next notify hst =>
    obtain ⟨⟨lsdb, fib⟩, hb, rfl⟩ := Option.map_eq_some_iff.mp hstep
    exact h.publish hst hb
  · next st hchange hst =>
    obtain ⟨⟨st', router', w'⟩, hn, rfl⟩ := Option.map_eq_some_iff.mp hstep
    exact h.next hst hchange (hfresh st hst) hn
  · next request hst =>
    obtain rfl := Option.some.inj hstep
    exact h.confirm hst
  · cases hstep

theorem Inv.step {event : ReceptionEvent} (h : reception.Inv)
    (hrule : reception.Fresh event ∧ reception.Waits event)
    (hstep : reception.step event = some reception') : reception'.Inv := by
  cases event with
  | turn node now wake => exact h.turn hrule.1 hstep
  | send table packet => exact h.send hrule.2 hstep
  | forward table packet c => exact h.forward hrule.2 hstep
  | receive s => exact h.receive hstep
  | close s => exact h.close hstep

theorem Inv.of_reaches {nodeId : NodeId}
    (h : Reaches (fun r e => r.Fresh e ∧ r.Waits e) nodeId reception) : reception.Inv := by
  induction h with
  | new now =>
    refine ⟨fun s _ => ⟨⟨rfl, Nat.succ_pos 31⟩, fun fib hfib address hs => ?_, fun e he => ?_⟩,
      ?_, ?_, ?_, ?_⟩
    · rw [List.mem_singleton.mp hfib] at hs
      cases hs
    · cases he
    · rintro request (hst | hst) <;> cases hst
    · intro request hst
      cases hst
    · intro request hst
      cases hst
    · intro request hmem
      cases hmem
  | @rehash reception lsdb _ hre ih =>
    have hunknown : ∀ s, reception.Unknown s →
        ({ reception with router := { reception.router with lsdb := lsdb } } : Reception).Unknown s := by
      intro s hs
      refine ⟨hs.untouched, hs.unlisted, fun e he => hs.unserved e ?_⟩
      unfold RouteTable.Serves RouteTable.routesOf at he ⊢
      rw [hre.get_route] at he
      exact he
    refine ⟨fun s hs => hunknown s (ih.unopened s hs), fun request hst => ?_, ih.accepted, ih.published,
      ih.settled⟩
    obtain ⟨hopened, hs⟩ := ih.asked request hst
    exact ⟨hopened, hunknown _ hs⟩
  | step event _ hrule hstep ih => exact ih.step hrule hstep

end Loop

/-- The publication and the confirmation together are the turn of the router's loop. -/
theorem publish_then_confirm (reception : Reception) (request : RegistrationRequest)
    (node : Tx → Chan NodeMessage) (now : Instant) (wake : Wake)
    (hst : reception.state = .turn (.routeChange (some request))) :
    (reception.step (.turn node now wake)).bind (fun r => r.step (.turn node now wake)) =
      (reception.router.next reception.wires now wake (.routeChange (some request))).map fun r =>
        { reception with
          tables := reception.tables ++ [r.2.1.fib]
          wires := r.2.2
          state := r.1.elim .ended .turn
          router := r.2.1 } := by
  simp only [step, hst, Router.next]
  cases reception.router.lsdb.buildFib with
  | none => rfl
  | some r => rfl

/-- In every run in which no packet is put into the channel of a registration between the
publication of its table and its confirmation, an accepted registration succeeds: the
confirmation is the first message of its channel, and a client that waits for it gets its
receiver. -/
theorem accepted_registration_succeeds (nodeId : NodeId) (reception : Reception)
    (h : Reaches (fun r e => r.Fresh e ∧ r.Waits e) nodeId reception) (request : RegistrationRequest)
    (hmem : request ∈ reception.accepted)
    (hchange : reception.state ≠ .turn (.routeChange (some request)))
    (hconfirm : reception.state ≠ .confirm request) :
    (∀ m, (reception.history request.sender).head? = some m →
      m = .successfulRegistration request.endpointId) ∧
    ((reception.wires.client request.sender).closed = false →
      waitForRegistration request.endpointId (reception.history request.sender).head? =
        (.ok (), [])) := by
  rcases (Inv.of_reaches h).settled request hmem hchange hconfirm with hhead | ⟨hclosed, hempty⟩
  · rw [hhead]
    exact ⟨fun m hm => (Option.some.inj hm).symm, fun _ => rfl⟩
  · rw [hempty]
    constructor
    · intro m hm
      cases hm
    · intro hopen
      rw [hclosed] at hopen
      cases hopen

end Reception

/-- The router's loop goes on with empty peer channels. -/
def loopTurn (wake : Wake) : ReceptionEvent := .turn (fun _ => .channel 32) 0 wake

/-- A packet to the endpoint that is being registered. -/
def earlyPacket : Packet := ⟨.endpoint 5, none, 1, .bytes []⟩

/-- The router has taken up the request of a client. -/
def requestTaken : Reception :=
  ⟨[7], [], [.new 1], fun _ => [], .idle 32, .turn (.handleBrokerMsg (.registerEndpoint unicastRequest)),
    .new 1 0⟩

theorem requestTaken_reached (allowed : Reception → ReceptionEvent → Prop)
    (h : ∀ r wake, r.Fresh (loopTurn wake) → allowed r (loopTurn wake)) :
    Reception.Reaches allowed 1 requestTaken := by
  have hnew : Reception.Reaches allowed 1 (.new 1 0) := .new 0
  have hlisten := hnew.step (loopTurn .timer) (h _ _ fun st _ => by cases st <;> simp [RouterState.opens]) rfl
  exact hlisten.step (loopTurn (.message (.registerEndpoint unicastRequest)))
    (h _ _ fun st _ s _ => List.not_mem_nil) rfl

/-- The loop goes on without a new request. -/
theorem fresh_timer (r : Reception) : r.Fresh (loopTurn .timer) := by
  intro st _
  cases st <;> simp [RouterState.opens]

/-- A packet between the publication and the confirmation comes first, and the client gives
up an accepted registration. -/
theorem early_packet_spoils_registration :
    ¬ ∀ (nodeId : NodeId) (reception : Reception), Reception.Reaches Reception.Fresh nodeId reception →
      ∀ request ∈ reception.accepted, reception.state ≠ .turn (.routeChange (some request)) →
      reception.state ≠ .confirm request →
      (∀ m, (reception.history request.sender).head? = some m →
        m = .successfulRegistration request.endpointId) ∧
      ((reception.wires.client request.sender).closed = false →
        waitForRegistration request.endpointId (reception.history request.sender).head? =
          (.ok (), [])) := by
  intro h
  have hrun : (requestTaken.run [loopTurn .timer, loopTurn .timer, loopTurn .timer, .send 1 earlyPacket,
      loopTurn .timer]).map (fun r => (r.accepted, r.state, r.history 7)) =
        some ([unicastRequest], .turn .listen, [.message earlyPacket, .successfulRegistration 5]) := by
    decide +kernel
  obtain ⟨reception, hreception, heq⟩ := Option.map_eq_some_iff.mp hrun
  simp only [Prod.mk.injEq] at heq
  obtain ⟨haccepted, hstate, hhistory⟩ := heq
  have hreach := (requestTaken_reached Reception.Fresh fun _ _ hf => hf).run (by
    intro e he r
    simp only [List.mem_cons, List.not_mem_nil, or_false] at he
    rcases he with rfl | rfl | rfl | rfl | rfl
    · exact fresh_timer r
    · exact fresh_timer r
    · exact fresh_timer r
    · trivial
    · exact fresh_timer r) hreception
  obtain ⟨hfirst, _⟩ := h 1 reception hreach unicastRequest (by simp [haccepted]) (by simp [hstate])
    (by simp [hstate])
  have hspoiled := hfirst (.message earlyPacket) (by
    change (reception.history 7).head? = _
    rw [hhistory]
    rfl)
  cases hspoiled

/-- Without such a packet the client gets its receiver. -/
theorem quiet_registration_succeeds :
    ∃ reception, requestTaken.run [loopTurn .timer, loopTurn .timer, loopTurn .timer, loopTurn .timer] =
        some reception ∧ unicastRequest ∈ reception.accepted ∧
      waitForRegistration 5 (reception.history 7).head? = (.ok (), []) := by
  have hrun : (requestTaken.run [loopTurn .timer, loopTurn .timer, loopTurn .timer, loopTurn .timer]).map
      (fun r => (r.accepted, r.state, (r.wires.client 7).closed)) =
        some ([unicastRequest], .turn .listen, false) := by
    decide +kernel
  obtain ⟨reception, hreception, heq⟩ := Option.map_eq_some_iff.mp hrun
  simp only [Prod.mk.injEq] at heq
  obtain ⟨haccepted, hstate, hopen⟩ := heq
  have hreach := (requestTaken_reached (fun r e => r.Fresh e ∧ r.Waits e)
    fun _ _ hf => ⟨hf, trivial⟩).run (by
      intro e he r
      simp only [List.mem_cons, List.not_mem_nil, or_false, or_self] at he
      subst he
      exact ⟨fresh_timer r, trivial⟩) hreception
  have hmem : unicastRequest ∈ reception.accepted := by simp [haccepted]
  refine ⟨reception, hreception, hmem, ?_⟩
  exact (Reception.accepted_registration_succeeds 1 reception hreach unicastRequest hmem (by simp [hstate])
    (by simp [hstate])).2 hopen

end Anybus
