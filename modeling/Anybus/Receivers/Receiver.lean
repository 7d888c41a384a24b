import Anybus.Core.Receive
import Anybus.Rpc.Request

/-!
# Receivers

A listener has a channel of client messages and three ways to take packets out of it: it
can wait for the next one, take one that is there, or be polled as a stream. Each way makes
something else of a payload that cannot be read and of a late word about the registration.
-/

namespace Anybus

namespace PacketReceiver

/-- Words about the registration are passed over. -/
def recvFrom (disconnected : Bool) :
    List ClientMessage → Poll (Except ReceiveError Packet) × List ClientMessage
  | [] => (if disconnected then .ready (.error .shutdown) else .pending, [])
  | .message packet :: rest => (.ready (.ok packet), rest)
  | .shutdown :: rest => (.ready (.error .shutdown), rest)
  | .failedRegistration _ _ :: rest => recvFrom disconnected rest
  | .successfulRegistration _ :: rest => recvFrom disconnected rest

/-- Wait for the next packet. -/
def recv (rx : Rx ClientMessage) : Poll (Except ReceiveError Packet) × Rx ClientMessage :=
  let r := recvFrom rx.disconnected rx.queue
  (r.1, { rx with queue := r.2 })

/-- Take the next packet if there is one. -/
def tryRecv (rx : Rx ClientMessage) : Option (Except ReceiveError Packet) × Rx ClientMessage :=
  match rx.tryRecv with
  | (.ok (.message packet), rx) => (some (.ok packet), rx)
  | (.ok .shutdown, rx) => (some (.error .shutdown), rx)
  | (.ok (.failedRegistration _ _), rx) =>
    (some (.error (.registrationFailed "Registration failed")), rx)
  | (.ok (.successfulRegistration _), rx) =>
    (some (.error (.registrationFailed "Unexpected successful registration")), rx)
  | (.error .empty, rx) => (none, rx)
  | (.error .disconnected, rx) => (some (.error .shutdown), rx)

end PacketReceiver

/-- A receiver of values of one type: the name of the type and what the codec makes of bytes.
A result of `none` is a panic. -/
structure Receiver where
  decode : Nat → List UInt8 → Option (List UInt8)
  typeId : Nat

namespace Receiver

variable (receiver : Receiver)

/-- Take a payload as a value of the receiver's type. -/
def reveal (payload : Payload) : Option (Except Payload (List UInt8)) :=
  payload.reveal receiver.decode receiver.typeId

/-- Wait for the next value. -/
def recv (rx : Rx ClientMessage) :
    Option (Poll (Except ReceiveError (List UInt8))) × Rx ClientMessage :=
  match PacketReceiver.recv rx with
  | (.ready (.ok packet), rx) =>
    ((receiver.reveal packet.payload).map fun
      | .ok msg => .ready (.ok msg)
      | .error p => .ready (.error (.deserializationError p)), rx)
  | (.ready (.error e), rx) => (some (.ready (.error e)), rx)
  | (.pending, rx) => (some .pending, rx)

/-- Take the next value if there is one. A payload that cannot be read is not delivered. -/
def tryRecv (rx : Rx ClientMessage) :
    Option (Option (Except ReceiveError (List UInt8))) × Rx ClientMessage :=
  match PacketReceiver.tryRecv rx with
  | (some (.ok packet), rx) =>
    ((receiver.reveal packet.payload).map fun
      | .ok msg => some (.ok msg)
      | .error _ => none, rx)
  | (some (.error err), rx) => (some (some (.error err)), rx)
  | (none, rx) => (some none, rx)

/-- Poll for the next value of the stream. -/
def pollNext (rx : Rx ClientMessage) : Option (Poll (Option (List UInt8))) × Rx ClientMessage :=
  match rx.pollRecv with
  | (.ready (some (.message packet)), rx) =>
    ((receiver.reveal packet.payload).map fun
      | .ok msg => .ready (some msg)
      | .error _ => .pending, rx)
  | (.ready (some .shutdown), rx) => (some (.ready none), rx)
  | (.ready (some (.failedRegistration _ _)), rx) => (some .pending, rx)
  | (.ready (some (.successfulRegistration _)), rx) => (some .pending, rx)
  | (.ready none, rx) => (some (.ready none), rx)
  | (.pending, rx) => (some .pending, rx)

/-- A caller who waits goes on until the end of the bus is reported. -/
def recvAnswer : Option (Poll (Except ReceiveError (List UInt8))) → Answer (List UInt8)
  | some (.ready (.ok msg)) => .value msg
  | some (.ready (.error .shutdown)) => .stop
  | some (.ready (.error _)) => .again
  | some .pending => .stop
  | none => .fail

/-- A caller who does not wait goes on until there is nothing, or the end is reported. -/
def tryRecvAnswer : Option (Option (Except ReceiveError (List UInt8))) → Answer (List UInt8)
  | some (some (.ok msg)) => .value msg
  | some (some (.error .shutdown)) => .stop
  | some (some (.error _)) => .again
  | some none => .stop
  | none => .fail

/-- A task that polls goes on until the stream ends or has nothing. -/
def pollAnswer : Option (Poll (Option (List UInt8))) → Answer (List UInt8)
  | some (.ready (some msg)) => .value msg
  | some (.ready none) => .stop
  | some .pending => .stop
  | none => .fail

def recvCall (rx : Rx ClientMessage) : Answer (List UInt8) × Rx ClientMessage :=
  (recvAnswer (receiver.recv rx).1, (receiver.recv rx).2)

def tryRecvCall (rx : Rx ClientMessage) : Answer (List UInt8) × Rx ClientMessage :=
  (tryRecvAnswer (receiver.tryRecv rx).1, (receiver.tryRecv rx).2)

def pollCall (rx : Rx ClientMessage) : Answer (List UInt8) × Rx ClientMessage :=
  (pollAnswer (receiver.pollNext rx).1, (receiver.pollNext rx).2)

/-- What a message is to the receiver. A payload that cannot be read and a word about the
registration are no values, and not the end either. -/
def kind : ClientMessage → Kind (List UInt8)
  | .message packet =>
    match receiver.reveal packet.payload with
    | some (.ok msg) => .value msg
    | some (.error _) => .passed
    | none => .fails
  | .failedRegistration _ _ | .successfulRegistration _ => .passed
  | .shutdown => .ends

variable {receiver} {packet : Packet}

/-- What a payload comes to, and what its message then is. -/
theorem kind_message_cases (receiver : Receiver) (packet : Packet) :
    (∃ msg, receiver.reveal packet.payload = some (.ok msg) ∧
      receiver.kind (.message packet) = .value msg) ∨
    (∃ p, receiver.reveal packet.payload = some (.error p) ∧
      receiver.kind (.message packet) = .passed) ∨
    (receiver.reveal packet.payload = none ∧ receiver.kind (.message packet) = .fails) := by
  cases hreveal : receiver.reveal packet.payload with
  | none => exact Or.inr (Or.inr ⟨rfl, by simp only [kind, hreveal]⟩)
  | some r =>
    cases r with
    | ok msg => exact Or.inl ⟨msg, rfl, by simp only [kind, hreveal]⟩
    | error p => exact Or.inr (Or.inl ⟨p, rfl, by simp only [kind, hreveal]⟩)

theorem reveal_of_kind_value {msg : List UInt8} (h : receiver.kind (.message packet) = .value msg) :
    receiver.reveal packet.payload = some (.ok msg) := by
  rcases kind_message_cases receiver packet with ⟨msg', hreveal, hk⟩ | ⟨p, -, hk⟩ | ⟨-, hk⟩
  · rw [hreveal, Kind.value.inj (hk.symm.trans h)]
  · cases hk.symm.trans h
  · cases hk.symm.trans h

theorem reveal_of_kind_passed (h : receiver.kind (.message packet) = .passed) :
    ∃ p, receiver.reveal packet.payload = some (.error p) := by
  rcases kind_message_cases receiver packet with ⟨msg, -, hk⟩ | ⟨p, hreveal, -⟩ | ⟨-, hk⟩
  · cases hk.symm.trans h
  · exact ⟨p, hreveal⟩
  · cases hk.symm.trans h

theorem reveal_of_kind_fails (h : receiver.kind (.message packet) = .fails) :
    receiver.reveal packet.payload = none := by
  rcases kind_message_cases receiver packet with ⟨msg, -, hk⟩ | ⟨p, -, hk⟩ | ⟨hreveal, -⟩
  · cases hk.symm.trans h
  · cases hk.symm.trans h
  · exact hreveal

theorem kind_message_ne_ends : receiver.kind (.message packet) ≠ .ends := by
  intro h
  rcases kind_message_cases receiver packet with ⟨msg, -, hk⟩ | ⟨p, -, hk⟩ | ⟨-, hk⟩ <;>
    cases hk.symm.trans h

/-- A call panics exactly at a message from inside the process that has another type. -/
theorem kind_eq_fails_iff : receiver.kind (.message packet) = .fails ↔
    ∃ stored encoded, packet.payload = .busRider stored encoded ∧ stored ≠ receiver.typeId := by
  constructor
  · intro h
    have hnone := reveal_of_kind_fails h
    cases hpayload : packet.payload with
    | busRider stored encoded =>
      refine ⟨stored, encoded, rfl, ?_⟩
      intro heq
      simp [reveal, Payload.reveal, hpayload, heq] at hnone
    | bytes b =>
      simp only [reveal, Payload.reveal, hpayload] at hnone
      split at hnone <;> cases hnone
  · rintro ⟨stored, encoded, hpayload, hne⟩
    simp [kind, reveal, Payload.reveal, hpayload, hne]

end Receiver

end Anybus
