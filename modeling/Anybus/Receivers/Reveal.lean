import Anybus.Core.AnyBox
import Anybus.Receivers.Receiver

/-!
# Revealing a payload

The payload of a message inside the process is a box with a value of some type, and the
receiver asks for a value of its own type. If the types differ, the box has to go back into
a payload. But it is unpacked there as a box within a box, which it never is, and the call
panics. So a payload is revealed or given back exactly if it is not of another type.
-/

namespace Anybus

/-- The types whose values may be in a box: those of the messages, and the box of a message
itself. A message has to be serializable, which its box is not. -/
inductive TypeName where
  | concrete (id : Nat)
  | boxDynBusRider
  deriving DecidableEq, Repr

/-- The values of a type, given those of each message type. -/
def Stored (V : Nat → Type) : TypeName → Type
  | .concrete id => V id
  | .boxDynBusRider => Σ id, V id

/-- A payload with the value itself in it. -/
inductive TypedPayload (V : Nat → Type) where
  | busRider (id : Nat) (val : V id)
  | bytes (b : List UInt8)

namespace TypedPayload

variable {V : Nat → Type}

/-- A message as a box of any type. -/
def upcast (id : Nat) (val : V id) : AnyBox (Stored V) := ⟨.concrete id, val⟩

/-- Take a box as a payload, or panic. -/
def ofAny (value : AnyBox (Stored V)) : Option (TypedPayload V) :=
  match value.downcast .boxDynBusRider with
  | .ok ⟨id, val⟩ => some (.busRider id val)
  | .error _ => none

/-- Take a payload as a value of a known type, or give it back, or panic. -/
def reveal (decode : ∀ id, List UInt8 → Option (V id)) (id : Nat) :
    TypedPayload V → Option (Except (TypedPayload V) (V id))
  | .busRider stored val =>
    match (upcast stored val).downcast (.concrete id) with
    | .ok v => some (.ok v)
    | .error e => (ofAny e).map .error
  | .bytes b =>
    match decode id b with
    | some v => some (.ok v)
    | none => some (.error (.bytes b))

/-- The payload as the rest of the bus sees it, with the encoding in place of the value. -/
def encoded (encode : ∀ id, V id → List UInt8) : TypedPayload V → Payload
  | .busRider id val => .busRider id (encode id val)
  | .bytes b => .bytes b

/-- The payload is the value, or bytes that decode to it. -/
def Holds (decode : ∀ id, List UInt8 → Option (V id)) (id : Nat) (p : TypedPayload V) (v : V id) :
    Prop :=
  p = .busRider id v ∨ ∃ b, p = .bytes b ∧ decode id b = some v

variable {decode : ∀ id, List UInt8 → Option (V id)} {id stored : Nat} {p : TypedPayload V}

/-- No message is a box within a box. -/
theorem ofAny_upcast (val : V stored) : ofAny (upcast stored val) = none := by
  have hne : (upcast stored val).typeId ≠ .boxDynBusRider := nofun
  simp only [ofAny, AnyBox.downcast_eq_error_iff.mpr ⟨hne, rfl⟩]

theorem reveal_same (v : V id) : reveal decode id (.busRider id v) = some (.ok v) := by
  have hok : (upcast id v).downcast (.concrete id) = .ok v := AnyBox.downcast_eq_ok_iff.mpr rfl
  simp only [reveal, hok]

/-- A message of another type panics. -/
theorem reveal_other (val : V stored) (h : stored ≠ id) :
    reveal decode id (.busRider stored val) = none := by
  have hne : (upcast stored val).typeId ≠ .concrete id := fun heq => h (TypeName.concrete.inj heq)
  simp only [reveal, AnyBox.downcast_eq_error_iff.mpr ⟨hne, rfl⟩, ofAny_upcast, Option.map_none]

theorem reveal_bytes (b : List UInt8) : reveal decode id (.bytes b) =
    match decode id b with
    | some v => some (.ok v)
    | none => some (.error (.bytes b)) := rfl

/-- A receiver for values of a type, which sees encodings in place of values. -/
def receiver (decode : ∀ id, List UInt8 → Option (V id)) (encode : ∀ id, V id → List UInt8)
    (id : Nat) : Receiver :=
  ⟨fun id b => (decode id b).map (encode id), id⟩

/-- A receiver makes of the encoded payload what `reveal` makes of the payload itself. -/
theorem reveal_encoded (encode : ∀ id, V id → List UInt8) (p : TypedPayload V) :
    (receiver decode encode id).reveal (p.encoded encode) = (p.reveal decode id).map fun
      | .ok v => .ok (encode id v)
      | .error q => .error (q.encoded encode) := by
  cases p with
  | busRider stored val =>
    by_cases h : stored = id
    · subst h
      rw [reveal_same]
      exact if_pos rfl
    · rw [reveal_other val h]
      exact if_neg h
  | bytes b =>
    simp only [receiver, Receiver.reveal, encoded, Payload.reveal, reveal_bytes]
    cases decode id b <;> rfl

/-- A payload that holds no value of the type, and is not of another type either, comes
back as it was. -/
theorem reveal_eq_error (hsame : ∀ stored val, p = .busRider stored val → stored = id)
    (h : ∀ v, ¬ p.Holds decode id v) : p.reveal decode id = some (.error p) := by
  cases p with
  | busRider stored val =>
    obtain rfl := hsame stored val rfl
    exact absurd (Or.inl rfl) (h val)
  | bytes b =>
    have hnone : decode id b = none := by
      rw [Option.eq_none_iff_forall_ne_some]
      intro v hv
      exact h v (Or.inr ⟨b, rfl, hv⟩)
    rw [reveal_bytes, hnone]

/-- A value comes out exactly if the payload holds it. -/
theorem reveal_eq_ok_iff (v : V id) : p.reveal decode id = some (.ok v) ↔ p.Holds decode id v := by
  cases p with
  | busRider stored val =>
    by_cases h : stored = id
    · subst h
      simp [reveal_same, Holds]
    · have hne : TypedPayload.busRider stored val ≠ .busRider id v := by
        intro heq
        exact h (TypedPayload.busRider.inj heq).1
      simp [reveal_other val h, Holds, hne]
  | bytes b =>
    rw [reveal_bytes]
    cases hb : decode id b <;> simp [Holds, hb]

/-- Revealing is total and loses nothing. -/
structure Lossless (decode : ∀ id, List UInt8 → Option (V id)) (id : Nat) (p : TypedPayload V) :
    Prop where
  /-- The value comes out exactly if it is there. -/
  ok_iff : ∀ v, p.reveal decode id = some (.ok v) ↔ p.Holds decode id v
  /-- Otherwise the payload comes back. -/
  error : (∀ v, ¬ p.Holds decode id v) → p.reveal decode id = some (.error p)
  /-- There is no panic. -/
  total : p.reveal decode id ≠ none
  /-- A listener who gets the payload, and cannot use it, sees it in the error. -/
  listener : ∀ (encode : ∀ id, V id → List UInt8) (rx : Rx ClientMessage) (packet : Packet),
    packet.payload = p.encoded encode → (PacketReceiver.recv rx).1 = .ready (.ok packet) →
    (∀ v, ¬ p.Holds decode id v) → ((receiver decode encode id).recv rx).1 =
      some (.ready (.error (.deserializationError packet.payload)))

/-- Revealing loses nothing exactly if the payload is no message of another type. -/
theorem lossless_iff (decode : ∀ id, List UInt8 → Option (V id)) (id : Nat) (p : TypedPayload V) :
    p.Lossless decode id ↔ ∀ stored val, p = .busRider stored val → stored = id := by
  constructor
  · rintro hp stored val rfl
    by_contra hne
    exact hp.total (reveal_other val hne)
  · intro hsame
    refine ⟨reveal_eq_ok_iff, reveal_eq_error hsame, ?_, ?_⟩
    · intro hnone
      by_cases h : ∃ v, p.Holds decode id v
      · obtain ⟨v, hv⟩ := h
        rw [(reveal_eq_ok_iff v).mpr hv] at hnone
        cases hnone
      · rw [reveal_eq_error hsame (not_exists.mp h)] at hnone
        cases hnone
    · intro encode rx packet hpayload hrecv hno
      have hreveal : (receiver decode encode id).reveal packet.payload =
          some (.error packet.payload) := by
        rw [hpayload, reveal_encoded, reveal_eq_error hsame hno]
        rfl
      have hsplit : PacketReceiver.recv rx = (.ready (.ok packet), (PacketReceiver.recv rx).2) :=
        Prod.ext hrecv rfl
      rw [Receiver.recv, hsplit]
      simp only [hreveal, Option.map_some]

/-- The number 7 as a message of one type, asked for as a value of another. -/
theorem other_type_panics :
    (TypedPayload.busRider 1 7 : TypedPayload fun _ => UInt8).reveal (fun _ b => b.head?) 0 = none ∧
      ¬ (TypedPayload.busRider 1 7 : TypedPayload fun _ => UInt8).Lossless (fun _ b => b.head?) 0 := by
  have hpanic : (TypedPayload.busRider 1 7 : TypedPayload fun _ => UInt8).reveal
      (fun _ b => b.head?) 0 = none := reveal_other 7 (by decide)
  exact ⟨hpanic, fun h => h.total hpanic⟩

end TypedPayload

end Anybus
