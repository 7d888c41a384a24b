import Anybus.Linkstate.ForwardTable

/-!
# Requests and replies

A request helper keeps one endpoint and one channel for the replies to all its calls. A
call sends a packet that names this endpoint as the place to reply to, and then takes
the next message out of the channel. Neither packet says which call it belongs to.
-/

namespace Anybus

/-- Take a payload as a value of the wanted type, which is given by its encoding. An
in-process value must have exactly that type: the other branch puts the value back into a
payload by a cast that fails for every rider, so that it panics, which is `none`. -/
def Payload.reveal (decode : Nat → List UInt8 → Option (List UInt8)) (typeId : Nat) :
    Payload → Option (Except Payload (List UInt8))
  | .busRider stored encoded => if stored = typeId then some (.ok encoded) else none
  | .bytes b =>
    match decode typeId b with
    | some value => some (.ok value)
    | none => some (.error (.bytes b))

/-- Why a call on a handle fails. -/
inductive AnyBusHandleError where
  | sendError (e : SendError)
  | shutdown
  | receiveError (e : ReceiveError)
  deriving DecidableEq, Repr

/-- The endpoint for the replies to a client's requests. -/
structure RequestHelper where
  responseEndpointId : EndpointId
  deriving DecidableEq, Repr

namespace RequestHelper

/-- The packet that carries a request. -/
def packet (helper : RequestHelper) (fib : ForwardingTable) (endpointId : EndpointId)
    (payload : Payload) : Packet :=
  ⟨.endpoint endpointId, some (.remote helper.responseEndpointId fib.ourId), fib.ourId, payload⟩

/-- The first half of a call, which sends the request. -/
def requestToUuid (helper : RequestHelper) (fib : ForwardingTable) (w : Wires) (payload : Payload)
    (endpointId : EndpointId) : Except AnyBusHandleError Wires :=
  match fib.send w (helper.packet fib endpointId payload) with
  | .ok w => .ok w
  | .error e => .error (.sendError e)

/-- The first half of a call to the endpoint that belongs to the type of the payload. -/
def request (helper : RequestHelper) (fib : ForwardingTable) (w : Wires) (anybusUuid : EndpointId)
    (payload : Payload) : Except AnyBusHandleError Wires :=
  helper.requestToUuid fib w payload anybusUuid

/-- The second half of a call, which makes a result of the next message in the channel.
The outer `none` is a panic: nothing but packets and the end of the bus is expected here. -/
def answer (decode : Nat → List UInt8 → Option (List UInt8)) (responseType : Nat) :
    Option ClientMessage → Option (Except AnyBusHandleError (List UInt8))
  | some (.message packet) =>
    (packet.payload.reveal decode responseType).map fun
      | .ok response => .ok response
      | .error p => .error (.receiveError (.deserializationError p))
  | some .shutdown => some (.error .shutdown)
  | none => some (.error .shutdown)
  | some (.failedRegistration _ _) => none
  | some (.successfulRegistration _) => none

/-- A result other than an error comes from a packet. -/
theorem answer_eq_ok {decode : Nat → List UInt8 → Option (List UInt8)} {responseType : Nat}
    {m : Option ClientMessage} {response : List UInt8}
    (h : answer decode responseType m = some (.ok response)) :
    ∃ packet, m = some (.message packet) ∧
      packet.payload.reveal decode responseType = some (.ok response) := by
  cases m with
  | none => simp [answer] at h
  | some m =>
    cases m with
    | message packet =>
      refine ⟨packet, rfl, ?_⟩
      simp only [answer, Option.map_eq_some_iff] at h
      obtain ⟨r, hr, hok⟩ := h
      cases r with
      | ok value =>
        cases hok
        exact hr
      | error p => cases hok
    | failedRegistration | successfulRegistration | shutdown => simp [answer] at h

end RequestHelper

/-- A request as its server sees it. -/
structure RpcRequest where
  responseEndpointId : Address
  payload : List UInt8
  deriving DecidableEq, Repr

/-- Take a packet as a request of the wanted type. -/
def recvRpc (decode : Nat → List UInt8 → Option (List UInt8)) (requestType : Nat)
    (packet : Packet) : Option (Except ReceiveError RpcRequest) :=
  match packet.replyTo with
  | none => some (.error .rpcNoReplyTo)
  | some replyTo =>
    (packet.payload.reveal decode requestType).map fun
      | .ok payload => .ok ⟨replyTo, payload⟩
      | .error p => .error (.deserializationError p)

/-- The packet that carries the reply to a request. -/
def RpcRequest.reply (request : RpcRequest) (fib : ForwardingTable) (response : Payload) : Packet :=
  ⟨request.responseEndpointId, none, fib.ourId, response⟩

/-- A request is answered at the address that came with it. -/
theorem recvRpc_eq_ok {decode : Nat → List UInt8 → Option (List UInt8)} {requestType : Nat}
    {packet : Packet} {request : RpcRequest}
    (h : recvRpc decode requestType packet = some (.ok request)) :
    packet.replyTo = some request.responseEndpointId := by
  unfold recvRpc at h
  cases hto : packet.replyTo with
  | none => simp [hto] at h
  | some replyTo =>
    simp only [hto, Option.map_eq_some_iff] at h
    obtain ⟨r, -, hok⟩ := h
    cases r with
    | ok payload =>
      cases hok
      rfl
    | error p => cases hok

end Anybus
