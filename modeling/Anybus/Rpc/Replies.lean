import Anybus.Core.Machine
import Anybus.Rpc.Request

/-!
# Which call a reply answers

The calls of a helper take turns, but a call may be dropped while it waits, and servers
reply when they like. A reply that comes for a call that is over stays in the channel,
where the next call takes it for its own. Every call gets its own reply as long as no
reply is left behind: whenever a call ends without a packet, none is in the channel or
comes later.
-/

namespace Anybus

/-- A call that waits. -/
structure Call where
  number : Nat
  responseType : Nat
  deriving DecidableEq, Repr

/-- A request that no server has replied to, with the number of its call. -/
structure OpenRequest where
  call : Nat
  packet : Packet
  deriving DecidableEq, Repr

/-- A message in the channel of the helper. The number of the call whose request it
answers is not part of the message, and the helper does not see it. -/
structure Incoming where
  message : ClientMessage
  answers : Option Nat
  deriving DecidableEq, Repr

/-- The result of a call, `none` for a panic, and the call whose request was answered by
the message that the result was made of. -/
structure Return where
  call : Nat
  answers : Option Nat
  result : Option (Except AnyBusHandleError (List UInt8))
  deriving DecidableEq

/-- A helper and the servers that it talks to. -/
structure Rpc where
  nodeId : NodeId
  helper : RequestHelper
  rx : Chan Incoming
  /-- Whether the bus still holds the sending half of the channel. -/
  connected : Bool
  /-- How many calls were made so far. -/
  calls : Nat
  waiting : Option Call
  requests : List OpenRequest
  returned : List Return

/-- What can happen next. -/
inductive RpcEvent where
  /-- The client calls the endpoint of a type. -/
  | request (fib : ForwardingTable) (w : Wires) (anybusUuid : EndpointId) (payload : Payload)
      (responseType : Nat)
  /-- The client calls an endpoint that it names. -/
  | requestToUuid (fib : ForwardingTable) (w : Wires) (payload : Payload) (endpointId : EndpointId)
      (responseType : Nat)
  /-- The client drops the call that waits. -/
  | abandon
  /-- The call that waits takes a message. -/
  | receive
  /-- A server, here or across links, receives one of the open requests and replies. -/
  | reply (request : Nat) (requestType : Nat) (fib : ForwardingTable) (response : Payload)
      (crosses : Bool)
  /-- The bus tells its listeners to stop. -/
  | shutdown
  /-- The bus drops its listeners. -/
  | disconnect

/-- A packet at its destination. -/
def Packet.arrived (p : Packet) (crosses : Bool) : Packet :=
  if crosses then p.toWire.toPacket else p

namespace Rpc

variable {decode : Nat → List UInt8 → Option (List UInt8)}

/-- A helper that was just made. -/
def new (nodeId : NodeId) (responseEndpointId : EndpointId) : Rpc :=
  ⟨nodeId, ⟨responseEndpointId⟩, .channel 32, true, 0, none, [], []⟩

/-- Queue a message for the helper, if there is still a sender. -/
def arrive (rpc : Rpc) (a : Incoming) : Rpc :=
  if rpc.connected then { rpc with rx := rpc.rx.offer a } else rpc

/-- A call that has tried to send its packet. -/
def called (rpc : Rpc) (packet : Packet) (responseType : Nat) :
    Except AnyBusHandleError Wires → Rpc
  | .ok _ =>
    { rpc with
      calls := rpc.calls + 1
      waiting := some ⟨rpc.calls, responseType⟩
      requests := rpc.requests ++ [⟨rpc.calls, packet⟩] }
  | .error e =>
    { rpc with
      calls := rpc.calls + 1
      returned := rpc.returned ++ [⟨rpc.calls, none, some (.error e)⟩] }

/-- A call that has taken a message, or found the channel at its end. -/
def done (decode : Nat → List UInt8 → Option (List UInt8)) (rpc : Rpc) (call : Call)
    (a : Option Incoming) : Rpc :=
  { rpc with
    waiting := none
    returned := rpc.returned ++ [⟨call.number, a.bind Incoming.answers,
      RequestHelper.answer decode call.responseType (a.map Incoming.message)⟩] }

/-- A server has taken a request and replied to it, unless it could not read it. The
reply comes to the helper if it is addressed to its endpoint. -/
def replied (decode : Nat → List UInt8 → Option (List UInt8)) (rpc : Rpc) (o : OpenRequest)
    (requestType : Nat) (fib : ForwardingTable) (response : Payload) (crosses : Bool) : Rpc :=
  match recvRpc decode requestType (o.packet.arrived crosses) with
  | some (.ok request) =>
    let packet := (request.reply fib response).arrived crosses
    if packet.toAddress.getEndpoint rpc.nodeId = rpc.helper.responseEndpointId then
      rpc.arrive ⟨.message packet, some o.call⟩
    else rpc
  | _ => rpc

/-- One event; `none` if it cannot happen now. -/
def step (decode : Nat → List UInt8 → Option (List UInt8)) (rpc : Rpc) : RpcEvent → Option Rpc
  | .request fib w anybusUuid payload responseType =>
    if rpc.waiting = none ∧ fib.ourId = rpc.nodeId then
      some (rpc.called (rpc.helper.packet fib anybusUuid payload) responseType
        (rpc.helper.request fib w anybusUuid payload))
    else none
  | .requestToUuid fib w payload endpointId responseType =>
    if rpc.waiting = none ∧ fib.ourId = rpc.nodeId then
      some (rpc.called (rpc.helper.packet fib endpointId payload) responseType
        (rpc.helper.requestToUuid fib w payload endpointId))
    else none
  | .abandon => rpc.waiting.map fun _ => { rpc with waiting := none }
  | .receive =>
    match rpc.waiting, rpc.rx.queue with
    | some call, a :: rest =>
      some ({ rpc with rx := { rpc.rx with queue := rest } }.done decode call (some a))
    | some call, [] => if rpc.connected then none else some (rpc.done decode call none)
    | none, _ => none
  | .reply i requestType fib response crosses =>
    (rpc.requests[i]?).map fun o =>
      { rpc with requests := rpc.requests.eraseIdx i }.replied decode o requestType fib response
        crosses
  | .shutdown => some (rpc.arrive ⟨.shutdown, none⟩)
  | .disconnect => some { rpc with connected := false }

/-- A helper and its servers as a machine. -/
def machine (decode : Nat → List UInt8 → Option (List UInt8)) : Machine Rpc RpcEvent where
  init rpc := ∃ nodeId responseEndpointId, rpc = .new nodeId responseEndpointId
  step rpc event rpc' := rpc.step decode event = some rpc'

theorem reaches_of_run {allowed : Rpc → RpcEvent → Prop}
    [∀ rpc event, Decidable (allowed rpc event)] {nodeId : NodeId} {responseEndpointId : EndpointId}
    {events : List RpcEvent} {rpc : Rpc}
    (h : Machine.run (step decode) allowed (.new nodeId responseEndpointId) events = some rpc) :
    (machine decode).Reaches allowed rpc :=
  .run (fun _ _ _ hstep => hstep) (.init ⟨nodeId, responseEndpointId, rfl⟩) h

/-- The calls whose requests are answered by the messages in the channel. -/
def replies (rpc : Rpc) : List Nat := rpc.rx.queue.filterMap Incoming.answers

/-- A reply comes only while its call waits, and a call that is dropped, or that the bus
stops, leaves no reply behind. -/
def InTime (rpc : Rpc) : RpcEvent → Prop
  | .reply i _ _ _ _ => (rpc.requests[i]?).map OpenRequest.call = rpc.waiting.map Call.number
  | .abandon => rpc.replies = []
  | .receive => rpc.rx.queue.head?.map Incoming.message = some .shutdown → rpc.replies = []
  | _ => True

instance (rpc : Rpc) (event : RpcEvent) : Decidable (rpc.InTime event) :=
  match event with
  | .reply _ _ _ _ _ => inferInstanceAs (Decidable (_ = _))
  | .abandon => inferInstanceAs (Decidable (_ = _))
  | .receive => inferInstanceAs (Decidable (_ → _))
  | .request _ _ _ _ _ => .isTrue trivial
  | .requestToUuid _ _ _ _ _ => .isTrue trivial
  | .shutdown => .isTrue trivial
  | .disconnect => .isTrue trivial

/-- Every call that succeeded took the reply to its own request. -/
def OwnReplies (rpc : Rpc) : Prop :=
  ∀ r ∈ rpc.returned, ∀ response, r.result = some (.ok response) → r.answers = some r.call

/-- The only reply in the channel is the one to the request of the call that waits, which
then is no longer open. -/
structure Inv (rpc : Rpc) : Prop where
  reply : rpc.replies = [] ∨ ∃ call, rpc.waiting = some call ∧ rpc.replies = [call.number] ∧
    call.number ∉ rpc.requests.map OpenRequest.call
  untagged : ∀ a ∈ rpc.rx.queue, a.answers = none → a.message = .shutdown
  nodup : (rpc.requests.map OpenRequest.call).Nodup
  numbered : ∀ o ∈ rpc.requests, o.call < rpc.calls
  own : rpc.OwnReplies

theorem Inv.new (nodeId : NodeId) (responseEndpointId : EndpointId) :
    (Rpc.new nodeId responseEndpointId).Inv := by
  refine ⟨.inl rfl, ?_, List.nodup_nil, ?_, ?_⟩
  · intro a ha
    cases ha
  · intro o ho
    cases ho
  · intro r hr
    cases hr

variable {rpc rpc' : Rpc}

/-- Without a call that waits, the channel holds no reply. -/
theorem Inv.replies_of_idle (h : rpc.Inv) (hidle : rpc.waiting = none) : rpc.replies = [] := by
  obtain hnil | ⟨call, hcall, -⟩ := h.reply
  · exact hnil
  · rw [hidle] at hcall
    cases hcall

theorem OwnReplies.concat (h : rpc.OwnReplies) {r : Return}
    (hr : ∀ response, r.result = some (.ok response) → r.answers = some r.call) :
    ∀ r' ∈ rpc.returned ++ [r], ∀ response, r'.result = some (.ok response) →
      r'.answers = some r'.call := by
  intro r' hr'
  rw [List.mem_append, List.mem_singleton] at hr'
  obtain hr' | rfl := hr'
  · exact h r' hr'
  · exact hr

theorem Inv.called (h : rpc.Inv) (hidle : rpc.waiting = none) (packet : Packet) (responseType : Nat)
    (sent : Except AnyBusHandleError Wires) : (rpc.called packet responseType sent).Inv := by
  have hnil := h.replies_of_idle hidle
  cases sent with
  | ok =>
    refine ⟨.inl hnil, h.untagged, ?_, ?_, h.own⟩
    · simp only [Rpc.called, List.map_append, List.map_cons, List.map_nil]
      refine List.nodup_append.mpr ⟨h.nodup, List.nodup_singleton _, ?_⟩
      intro k hk k' hk'
      obtain ⟨o, ho, rfl⟩ := List.mem_map.mp hk
      rw [List.mem_singleton] at hk'
      have hlt := h.numbered o ho
      omega
    · intro o ho
      rw [Rpc.called, List.mem_append, List.mem_singleton] at ho
      obtain ho | rfl := ho
      · have hlt := h.numbered o ho
        exact Nat.lt_succ_of_lt hlt
      · exact Nat.lt_succ_self rpc.calls
  | error e =>
    refine ⟨.inl hnil, h.untagged, h.nodup, ?_, h.own.concat ?_⟩
    · intro o ho
      exact Nat.lt_succ_of_lt (h.numbered o ho)
    · intro response hok
      cases hok

/-- A call that finds the channel at its end leaves nothing behind. -/
theorem Inv.done_end (h : rpc.Inv) {call : Call} (hq : rpc.rx.queue = []) :
    (rpc.done decode call none).Inv := by
  have hnil : rpc.replies = [] := by rw [replies, hq, List.filterMap_nil]
  refine ⟨.inl hnil, h.untagged, h.nodup, h.numbered, h.own.concat ?_⟩
  intro response hok
  cases hok

/-- A call takes its own reply, if it takes one, and leaves no other behind. -/
theorem Inv.done (h : rpc.Inv) {call : Call} (hwait : rpc.waiting = some call) {a : Incoming}
    {rest : List Incoming} (hq : rpc.rx.queue = a :: rest)
    (hstop : a.message = .shutdown → rpc.replies = []) :
    ({ rpc with rx := { rpc.rx with queue := rest } }.done decode call (some a)).Inv := by
  have hreplies : rpc.replies = a.answers.toList ++ rest.filterMap Incoming.answers := by
    rw [replies, hq, List.filterMap_cons]
    cases a.answers <;> rfl
  cases htag : a.answers with
  | none =>
    -- an untagged message is the end of the bus, and no reply was in the channel with it
    have hmsg := h.untagged a (by rw [hq]; exact List.mem_cons_self) htag
    have hrest : rest.filterMap Incoming.answers = [] := by
      rw [hstop hmsg, htag] at hreplies
      exact hreplies.symm
    refine ⟨.inl hrest, ?_, h.nodup, h.numbered, h.own.concat ?_⟩
    · intro b hb
      exact h.untagged b (by rw [hq]; exact List.mem_cons_of_mem a hb)
    · intro response hok
      obtain ⟨packet, hpacket, -⟩ := RequestHelper.answer_eq_ok hok
      rw [Option.map_some, hmsg] at hpacket
      cases hpacket
  | some k =>
    rw [htag] at hreplies
    obtain hnil | ⟨call', hcall', hone, -⟩ := h.reply
    · rw [hnil] at hreplies
      cases hreplies
    rw [hwait, Option.some.injEq] at hcall'
    subst hcall'
    rw [hone] at hreplies
    obtain ⟨hk, hrest⟩ := List.cons.inj hreplies
    refine ⟨.inl hrest.symm, ?_, h.nodup, h.numbered, h.own.concat ?_⟩
    · intro b hb
      exact h.untagged b (by rw [hq]; exact List.mem_cons_of_mem a hb)
    · intro response _
      exact htag.trans (congrArg some hk.symm)

/-- A message is queued last or not at all. -/
theorem arrive_eq (rpc : Rpc) (a : Incoming) : ∃ rx, rpc.arrive a = { rpc with rx := rx } ∧
    (rx.queue = rpc.rx.queue ∨ rx.queue = rpc.rx.queue ++ [a]) := by
  unfold arrive
  split
  · refine ⟨_, rfl, ?_⟩
    unfold Chan.offer
    cases hsent : rpc.rx.trySend a with
    | error => exact .inl rfl
    | ok c =>
      obtain ⟨-, -, rfl⟩ := Chan.trySend_eq_ok_iff.mp hsent
      exact .inr rfl
  · exact ⟨rpc.rx, rfl, .inl rfl⟩

/-- A reply may come if its call waits and there is no other. -/
theorem Inv.arrive (h : rpc.Inv) {a : Incoming} (hmsg : a.answers = none → a.message = .shutdown)
    (htag : ∀ k, a.answers = some k → rpc.replies = [] ∧ rpc.waiting.map Call.number = some k ∧
      k ∉ rpc.requests.map OpenRequest.call) : (rpc.arrive a).Inv := by
  obtain ⟨rx, heq, hq⟩ := rpc.arrive_eq a
  rw [heq]
  obtain hq | hq := hq
  · refine ⟨?_, ?_, h.nodup, h.numbered, h.own⟩
    · simp only [replies, hq]
      exact h.reply
    · rw [hq]
      exact h.untagged
  · refine ⟨?_, ?_, h.nodup, h.numbered, h.own⟩
    · have hreplies : rx.queue.filterMap Incoming.answers = rpc.replies ++ a.answers.toList := by
        rw [hq, List.filterMap_append]
        rfl
      simp only [replies, hreplies]
      cases ha : a.answers with
      | none =>
        rw [Option.toList_none, List.append_nil]
        exact h.reply
      | some k =>
        obtain ⟨hnil, hwait, hopen⟩ := htag k ha
        obtain ⟨call, hcall, rfl⟩ := Option.map_eq_some_iff.mp hwait
        right
        refine ⟨call, hcall, ?_, hopen⟩
        change rpc.replies ++ [call.number] = [call.number]
        rw [hnil, List.nil_append]
    · intro b hb
      rw [hq, List.mem_append, List.mem_singleton] at hb
      obtain hb | rfl := hb
      · exact h.untagged b hb
      · exact hmsg

/-- A request that a server takes is no longer open. -/
theorem Inv.eraseRequest (h : rpc.Inv) (i : Nat) :
    { rpc with requests := rpc.requests.eraseIdx i }.Inv := by
  have hsub : (rpc.requests.eraseIdx i).Sublist rpc.requests := List.eraseIdx_sublist _ _
  refine ⟨?_, h.untagged, h.nodup.sublist (hsub.map _), fun o ho => h.numbered o (hsub.subset ho),
    h.own⟩
  refine h.reply.imp_right ?_
  rintro ⟨call, hcall, hone, hopen⟩
  exact ⟨call, hcall, hone, fun hmem => hopen ((hsub.map _).subset hmem)⟩

/-- No two open requests are of one call. -/
theorem Inv.notMem_eraseIdx (h : rpc.Inv) {i : Nat} {o : OpenRequest}
    (ho : rpc.requests[i]? = some o) :
    o.call ∉ (rpc.requests.eraseIdx i).map OpenRequest.call := by
  intro hmem
  obtain ⟨hi, hget⟩ := List.getElem?_eq_some_iff.mp ho
  obtain ⟨o', ho', hcall⟩ := List.mem_map.mp hmem
  obtain ⟨j, hj, hne, rfl⟩ := List.mem_eraseIdx_iff_getElem.mp ho'
  apply hne
  have hj' : j < (rpc.requests.map OpenRequest.call).length := by rwa [List.length_map]
  have hi' : i < (rpc.requests.map OpenRequest.call).length := by rwa [List.length_map]
  have heq : (rpc.requests.map OpenRequest.call)[j] = (rpc.requests.map OpenRequest.call)[i] := by
    rw [List.getElem_map, List.getElem_map, hcall, hget]
  exact h.nodup.getElem_inj_iff.mp heq

/-- A server replies while the call waits. -/
theorem Inv.replied (h : rpc.Inv) {i : Nat} {o : OpenRequest} (ho : rpc.requests[i]? = some o)
    (hwait : rpc.waiting.map Call.number = some o.call) (requestType : Nat) (fib : ForwardingTable)
    (response : Payload) (crosses : Bool) :
    ({ rpc with requests := rpc.requests.eraseIdx i }.replied decode o requestType fib response
      crosses).Inv := by
  have herase := h.eraseRequest i
  -- the request was open until now, so the reply in the channel was not its
  have hnil : rpc.replies = [] := by
    obtain hnil | ⟨call, hcall, -, hopen⟩ := h.reply
    · exact hnil
    · rw [hcall, Option.map_some, Option.some.injEq] at hwait
      refine absurd ?_ hopen
      rw [hwait]
      exact List.mem_map_of_mem (List.mem_of_getElem? ho)
  unfold Rpc.replied
  split
  · dsimp only
    split
    · apply herase.arrive
      · intro hnone
        cases hnone
      · intro k hk
        rw [← Option.some.inj hk]
        exact ⟨hnil, hwait, h.notMem_eraseIdx ho⟩
    · exact herase
  · exact herase

theorem Inv.step (h : rpc.Inv) {event : RpcEvent} (htime : rpc.InTime event)
    (hstep : rpc.step decode event = some rpc') : rpc'.Inv := by
  cases event with
  | request fib w anybusUuid payload responseType =>
    simp only [Rpc.step, Option.ite_none_right_eq_some, Option.some.injEq] at hstep
    obtain ⟨hidle, rfl⟩ := hstep
    exact h.called hidle.1 _ _ _
  | requestToUuid fib w payload endpointId responseType =>
    simp only [Rpc.step, Option.ite_none_right_eq_some, Option.some.injEq] at hstep
    obtain ⟨hidle, rfl⟩ := hstep
    exact h.called hidle.1 _ _ _
  | abandon =>
    obtain ⟨call, -, rfl⟩ := Option.map_eq_some_iff.mp hstep
    exact ⟨.inl htime, h.untagged, h.nodup, h.numbered, h.own⟩
  | receive =>
    simp only [Rpc.step] at hstep
    split at hstep
    · next call a rest hwait hq =>
      rw [Option.some.injEq] at hstep
      subst hstep
      refine h.done hwait hq fun hmsg => htime ?_
      rw [hq, List.head?_cons, Option.map_some, hmsg]
    · next call hwait hq =>
      rw [Option.ite_none_left_eq_some] at hstep
      obtain ⟨-, hstep⟩ := hstep
      rw [Option.some.injEq] at hstep
      subst hstep
      exact h.done_end hq
    · cases hstep
  | reply i requestType fib response crosses =>
    obtain ⟨o, ho, rfl⟩ := Option.map_eq_some_iff.mp hstep
    refine h.replied ho ?_ _ _ _ _
    have hcall : (rpc.requests[i]?).map OpenRequest.call = rpc.waiting.map Call.number := htime
    rw [← hcall, ho, Option.map_some]
  | shutdown =>
    rw [Rpc.step, Option.some.injEq] at hstep
    subst hstep
    apply h.arrive
    · intro _
      rfl
    · intro k hk
      cases hk
  | disconnect =>
    rw [Rpc.step, Option.some.injEq] at hstep
    subst hstep
    exact ⟨h.reply, h.untagged, h.nodup, h.numbered, h.own⟩

end Rpc

/-- A table with one server. -/
def oneServer : ForwardingTable :=
  { ForwardingTable.new 1 with table := (∅ : HashMap EndpointId FibEntry).insert 7 (.single (.loc 3)) }

/-- A call of the server. -/
def askServer (question : UInt8) : RpcEvent :=
  .requestToUuid oneServer (.idle 32) (.busRider 1 [question]) 7 2

/-- The server replies to one of the open requests. -/
def serverReplies (request : Nat) (response : UInt8) : RpcEvent :=
  .reply request 1 oneServer (.busRider 2 [response]) false

/-- The second call is dropped and never answered, the others wait for their replies. -/
def patientCalls : List RpcEvent :=
  [askServer 1, serverReplies 0 10, .receive, askServer 2, .abandon, askServer 3,
    serverReplies 1 30, .receive]

/-- The first call is dropped, and its reply comes when the second one waits. -/
def hastyCalls : List RpcEvent :=
  [askServer 1, .abandon, askServer 2, serverReplies 0 10, .receive]

end Anybus
