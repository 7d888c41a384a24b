import Anybus.Receivers.Receiver

/-!
# Three ways to receive

Once all senders are gone, a listener can empty its queue in each of the three ways. The
ways agree on the values in front of the first message that is not one. Behind a payload
that cannot be read, or a late word about the registration, the one that waits still gets
values, while the others have reported that there are none.
-/

namespace Anybus

namespace Receiver

variable {receiver : Receiver} {m : ClientMessage} {rest queue : List ClientMessage}

/-- The three ways differ in their answer to a payload that cannot be read, and in what they
do with a word about the registration. -/
theorem reader_of {call : Rx ClientMessage → Answer (List UInt8) × Rx ClientMessage}
    {unreadable : Answer (List UInt8)} (hunreadable : unreadable = .stop ∨ unreadable = .again)
    (hmessage : ∀ packet rest, call ⟨.message packet :: rest, true⟩ =
      (match receiver.reveal packet.payload with
        | some (.ok msg) => .value msg
        | some (.error _) => unreadable
        | none => .fail, ⟨rest, true⟩))
    (hword : ∀ m rest, (∀ packet, m ≠ .message packet) → receiver.kind m = .passed →
      (call ⟨m :: rest, true⟩).1 = .stop ∨ call ⟨m :: rest, true⟩ = (.again, ⟨rest, true⟩) ∨
        call ⟨m :: rest, true⟩ = call ⟨rest, true⟩)
    (hshutdown : ∀ rest, (call ⟨.shutdown :: rest, true⟩).1 = .stop)
    (hnil : (call ⟨[], true⟩).1 = .stop) : Reader receiver.kind call where
  value := by
    intro m msg rest h
    cases m with
    | message packet => rw [hmessage, reveal_of_kind_value h]
    | failedRegistration | successfulRegistration | shutdown => cases h
  passed := by
    intro m rest h
    cases m with
    | message packet =>
      obtain ⟨p, hreveal⟩ := reveal_of_kind_passed h
      rw [hmessage, hreveal]
      rcases hunreadable with rfl | rfl
      · exact Or.inl rfl
      · exact Or.inr (Or.inl rfl)
    | failedRegistration | successfulRegistration => exact hword _ rest (fun _ => nofun) h
    | shutdown => cases h
  ends := by
    intro m rest h
    cases m with
    | message packet => exact absurd h kind_message_ne_ends
    | failedRegistration | successfulRegistration => cases h
    | shutdown => exact hshutdown rest
  fails := by
    intro m rest h
    cases m with
    | message packet => rw [hmessage, reveal_of_kind_fails h]
    | failedRegistration | successfulRegistration | shutdown => cases h
  nil := hnil

theorem recvCall_message (packet : Packet) (rest : List ClientMessage) :
    receiver.recvCall ⟨.message packet :: rest, true⟩ =
      (match receiver.reveal packet.payload with
        | some (.ok msg) => .value msg
        | some (.error _) => .again
        | none => .fail, ⟨rest, true⟩) := by
  simp only [recvCall, recv, PacketReceiver.recv, PacketReceiver.recvFrom]
  rcases receiver.reveal packet.payload with - | - | - <;> rfl

theorem tryRecvCall_message (packet : Packet) (rest : List ClientMessage) :
    receiver.tryRecvCall ⟨.message packet :: rest, true⟩ =
      (match receiver.reveal packet.payload with
        | some (.ok msg) => .value msg
        | some (.error _) => .stop
        | none => .fail, ⟨rest, true⟩) := by
  simp only [tryRecvCall, tryRecv, PacketReceiver.tryRecv, Rx.tryRecv]
  rcases receiver.reveal packet.payload with - | - | - <;> rfl

theorem pollCall_message (packet : Packet) (rest : List ClientMessage) :
    receiver.pollCall ⟨.message packet :: rest, true⟩ =
      (match receiver.reveal packet.payload with
        | some (.ok msg) => .value msg
        | some (.error _) => .stop
        | none => .fail, ⟨rest, true⟩) := by
  simp only [pollCall, pollNext, Rx.pollRecv]
  rcases receiver.reveal packet.payload with - | - | - <;> rfl

/-- A caller who waits hears nothing of a word about the registration. -/
theorem recvCall_word (hm : ∀ packet, m ≠ .message packet) (h : receiver.kind m = .passed) :
    receiver.recvCall ⟨m :: rest, true⟩ = receiver.recvCall ⟨rest, true⟩ := by
  cases m with
  | message packet => exact absurd rfl (hm packet)
  | failedRegistration | successfulRegistration => rfl
  | shutdown => cases h

theorem thorough_recv : Thorough receiver.kind receiver.recvCall where
  toReader := reader_of (Or.inr rfl) recvCall_message
    (fun _ _ hm h => Or.inr (Or.inr (recvCall_word hm h))) (fun _ => rfl) rfl
  goesOn := by
    intro m rest h
    cases m with
    | message packet =>
      obtain ⟨p, hreveal⟩ := reveal_of_kind_passed h
      left
      rw [recvCall_message, hreveal]
    | failedRegistration | successfulRegistration => exact Or.inr rfl
    | shutdown => cases h

theorem reader_tryRecv : Reader receiver.kind receiver.tryRecvCall := by
  refine reader_of (Or.inl rfl) tryRecvCall_message ?_ (fun _ => rfl) rfl
  intro m rest hm h
  cases m with
  | message packet => exact absurd rfl (hm packet)
  | failedRegistration | successfulRegistration => exact Or.inr (Or.inl rfl)
  | shutdown => cases h

theorem reader_poll : Reader receiver.kind receiver.pollCall := by
  refine reader_of (Or.inl rfl) pollCall_message ?_ (fun _ => rfl) rfl
  intro m rest hm h
  cases m with
  | message packet => exact absurd rfl (hm packet)
  | failedRegistration | successfulRegistration => exact Or.inl rfl
  | shutdown => cases h

/-- A caller who waits gets every value before the end of the bus, unless a call panics. -/
theorem recv_collects_values (h : ¬ Fails receiver.kind queue) :
    collect receiver.recvCall (queue.length + 1) ⟨queue, true⟩ =
      some ((queue.takeWhile fun m => !(receiver.kind m).isEnds).filterMap
        fun m => (receiver.kind m).value?) :=
  thorough_recv.collect_eq_values h (Nat.lt_succ_self _)

/-- Nothing waits, says a call that has taken a payload that cannot be read. -/
theorem kind_of_tryRecv (h : (receiver.tryRecv ⟨m :: rest, true⟩).1 = some none) :
    receiver.kind m = .passed := by
  cases m with
  | message packet =>
    obtain ⟨r, hreveal, hr⟩ := Option.map_eq_some_iff.mp h
    cases r with
    | ok msg => cases hr
    | error p => simp only [kind, hreveal]
  | failedRegistration | successfulRegistration => rfl
  | shutdown => cases h

/-- A stream is pending exactly when it has taken a message that can be passed over. -/
theorem pollNext_eq_pending_iff :
    (receiver.pollNext ⟨m :: rest, true⟩).1 = some .pending ↔ receiver.kind m = .passed := by
  cases m with
  | message packet =>
    constructor
    · intro h
      obtain ⟨r, hreveal, hr⟩ := Option.map_eq_some_iff.mp h
      cases r with
      | ok msg => cases hr
      | error p => simp only [kind, hreveal]
    · intro h
      obtain ⟨p, hreveal⟩ := reveal_of_kind_passed h
      simp [pollNext, Rx.pollRecv, hreveal]
  | failedRegistration | successfulRegistration => exact iff_of_true rfl rfl
  | shutdown =>
    constructor
    · intro h
      cases h
    · intro h
      cases h

/-- The three ways agree on a queue whose senders are gone. -/
structure WaysAgree (receiver : Receiver) (queue : List ClientMessage) : Prop where
  /-- Each way comes to its end without a panic, and all get the same values. -/
  same : ∃ values, collect receiver.recvCall (queue.length + 1) ⟨queue, true⟩ = some values ∧
    collect receiver.tryRecvCall (queue.length + 1) ⟨queue, true⟩ = some values ∧
    collect receiver.pollCall (queue.length + 1) ⟨queue, true⟩ = some values
  /-- Nothing waits means that no value is queued. -/
  nothingWaits : ∀ rx, Calls receiver.tryRecvCall ⟨queue, true⟩ rx →
    (receiver.tryRecv rx).1 = some none → ∀ m ∈ rx.queue, (receiver.kind m).value? = none
  /-- Pending means that no value is queued. -/
  nothingReady : ∀ rx, Calls receiver.pollCall ⟨queue, true⟩ rx →
    (receiver.pollNext rx).1 = some .pending → ∀ m ∈ rx.queue, (receiver.kind m).value? = none

/-- No value is left in a queue that is not stuck if its first message is passed over. -/
theorem value?_eq_none_of_head (hqueue : ¬ Stuck receiver.kind queue)
    (h : ∀ m rest, queue = m :: rest → receiver.kind m = .passed) :
    ∀ m ∈ queue, (receiver.kind m).value? = none := by
  cases queue with
  | nil => exact fun m hm => absurd hm List.not_mem_nil
  | cons m rest => exact value?_eq_none_of_not_stuck hqueue (h m rest rfl)

/-- The three ways agree exactly on the queues that have no value behind the first message
without one, if that can be passed over, and before the end no payload that makes a call
panic. -/
theorem waysAgree_iff (receiver : Receiver) (queue : List ClientMessage) :
    receiver.WaysAgree queue ↔ ¬ Stuck receiver.kind queue ∧ ¬ Fails receiver.kind queue := by
  constructor
  · intro hagree
    constructor
    · rintro ⟨front, m, rest, rfl, hfront, hpassed, b, hb, hsome⟩
      -- The stream comes to `m`, takes it and is pending, and `b` is still there.
      have hcalls := reader_poll.calls_append (m :: rest) hfront
      have hnone := hagree.nothingReady _ hcalls (pollNext_eq_pending_iff.mpr hpassed) b
        (List.mem_cons_of_mem _ hb)
      rw [hnone] at hsome
      cases hsome
    · intro hfails
      obtain ⟨values, hrecv, -, -⟩ := hagree.same
      rw [thorough_recv.collect_of_fails hfails] at hrecv
      cases hrecv
  · rintro ⟨hstuck, hfails⟩
    refine ⟨⟨_, thorough_recv.collect_of_not_stuck hstuck hfails,
      reader_tryRecv.collect_of_not_stuck hstuck hfails,
      reader_poll.collect_of_not_stuck hstuck hfails⟩, ?_, ?_⟩
    · intro rx hcalls hnone
      obtain ⟨l, rfl, hl⟩ := reader_tryRecv.not_stuck_of_calls hstuck hcalls
      apply value?_eq_none_of_head hl
      rintro m rest rfl
      exact kind_of_tryRecv hnone
    · intro rx hcalls hpending
      obtain ⟨l, rfl, hl⟩ := reader_poll.not_stuck_of_calls hstuck hcalls
      apply value?_eq_none_of_head hl
      rintro m rest rfl
      exact pollNext_eq_pending_iff.mp hpending

/-- A receiver of single bytes, which are encoded as they are. -/
def ofByte : Receiver := ⟨fun _ bytes => bytes.head?.map ([·]), 0⟩

/-- A packet with some bytes off the wire. -/
def wirePacket (bytes : List UInt8) : ClientMessage := .message ⟨.endpoint 5, none, 1, .bytes bytes⟩

/-- An empty payload in front of a byte: who waits gets the byte, the others get nothing. -/
theorem empty_payload_hides_byte :
    collect ofByte.recvCall 4 ⟨[wirePacket [], wirePacket [7], .shutdown], true⟩ = some [[7]] ∧
      (ofByte.tryRecv ⟨[wirePacket [], wirePacket [7], .shutdown], true⟩).1 = some none ∧
      (ofByte.pollNext ⟨[wirePacket [], wirePacket [7], .shutdown], true⟩).1 = some .pending ∧
      ¬ ofByte.WaysAgree [wirePacket [], wirePacket [7], .shutdown] := by
  refine ⟨by decide, by decide, by decide, ?_⟩
  intro hagree
  have hnone := hagree.nothingWaits _ .start (by decide) (wirePacket [7]) (by decide)
  revert hnone
  decide

end Receiver

end Anybus
