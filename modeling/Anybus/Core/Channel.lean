import Mathlib.Data.List.Basic

/-!
# Bounded channels

The state behind a bounded multi-producer queue: the messages not yet received,
the capacity it was created with, and whether the receiving half is closed.
Senders never wait: a message that does not fit is refused.
-/

namespace Anybus

/-- Why a message could not be queued. -/
inductive TrySendError where
  /-- The queue already holds `capacity` messages. -/
  | full
  /-- The receiving half is closed or dropped. -/
  | closed
  deriving DecidableEq, Repr

/-- The shared state of one bounded channel. -/
structure Chan (α : Type*) where
  /-- Messages queued and not yet received, oldest first. -/
  queue : List α
  /-- The bound given when the channel was created. -/
  capacity : Nat
  /-- Whether the receiving half is gone. -/
  closed : Bool
  deriving DecidableEq

namespace Chan

variable {α : Type*}

/-- A fresh channel with the given bound. -/
def channel (capacity : Nat) : Chan α := ⟨[], capacity, false⟩

/-- Queue a message without waiting. A closed channel is reported before a full one. -/
def trySend (c : Chan α) (a : α) : Except TrySendError (Chan α) :=
  if c.closed then .error .closed
  else if c.queue.length < c.capacity then .ok { c with queue := c.queue ++ [a] }
  else .error .full

/-- A message is queued exactly when the channel is open and has room. -/
theorem trySend_eq_ok_iff {c c' : Chan α} {a : α} :
    c.trySend a = .ok c' ↔
      c.closed = false ∧ c.queue.length < c.capacity ∧ c' = { c with queue := c.queue ++ [a] } := by
  unfold trySend
  cases hc : c.closed
  · by_cases hl : c.queue.length < c.capacity
    · simp [hl, eq_comm]
    · simp [hl]
  · simp

/-- Sending and ignoring the outcome, as a state change. -/
def offer (c : Chan α) (a : α) : Chan α := (c.trySend a).toOption.getD c

/-- Sending several messages in turn: those that fit are queued. -/
def offerAll (c : Chan α) (l : List α) : Chan α :=
  if c.closed then c else { c with queue := c.queue ++ l.take (c.capacity - c.queue.length) }

@[simp] theorem offerAll_nil (c : Chan α) : c.offerAll [] = c := by
  unfold offerAll
  split
  · rfl
  · rw [List.take_nil, List.append_nil]

/-- Sending one message and then the rest is sending all. -/
theorem offerAll_cons (c : Chan α) (a : α) (l : List α) :
    c.offerAll (a :: l) = (c.offer a).offerAll l := by
  cases hc : c.closed with
  | true => simp [offerAll, offer, trySend, hc, Except.toOption]
  | false =>
    by_cases hl : c.queue.length < c.capacity
    · have hroom : c.capacity - c.queue.length = c.capacity - (c.queue.length + 1) + 1 := by omega
      simp [offerAll, offer, trySend, hc, hl, Except.toOption, hroom]
    · have hfull : c.capacity - c.queue.length = 0 := by omega
      simp [offerAll, offer, trySend, hc, hl, Except.toOption, hfull]

theorem offer_eq_offerAll (c : Chan α) (a : α) : c.offer a = c.offerAll [a] := by
  rw [offerAll_cons, offerAll_nil]

/-- Sending in two goes is sending all. -/
theorem offerAll_append (c : Chan α) (l l' : List α) :
    c.offerAll (l ++ l') = (c.offerAll l).offerAll l' := by
  induction l generalizing c with
  | nil => rw [List.nil_append, offerAll_nil]
  | cons a l ih => rw [List.cons_append, offerAll_cons, offerAll_cons, ih]

@[simp] theorem offerAll_closed (c : Chan α) (l : List α) : (c.offerAll l).closed = c.closed := by
  unfold offerAll
  split <;> rfl

@[simp] theorem offerAll_capacity (c : Chan α) (l : List α) :
    (c.offerAll l).capacity = c.capacity := by
  unfold offerAll
  split <;> rfl

/-- What is queued in one go: the old messages, then some of the new ones in order. -/
theorem offerAll_queue (c : Chan α) (l : List α) :
    (c.offerAll l).queue =
      if c.closed then c.queue else c.queue ++ l.take (c.capacity - c.queue.length) := by
  unfold offerAll
  split <;> rfl

/-- An open channel that is not full afterwards has taken all. -/
theorem offerAll_queue_of_fits {c : Chan α} {l : List α} (hopen : c.closed = false)
    (h : (c.offerAll l).queue.length < (c.offerAll l).capacity) :
    (c.offerAll l).queue = c.queue ++ l := by
  rw [offerAll_capacity] at h
  rw [offerAll_queue, hopen, if_neg Bool.false_ne_true] at h ⊢
  rw [List.length_append, List.length_take] at h
  rw [List.take_of_length_le (by omega)]

/-- Queued messages stay queued. -/
theorem mem_offerAll_of_mem {c : Chan α} {l : List α} {a : α} (h : a ∈ c.queue) :
    a ∈ (c.offerAll l).queue := by
  rw [offerAll_queue]
  split
  · exact h
  · exact List.mem_append_left _ h

/-- What is queued was queued before or is one of the new messages. -/
theorem mem_of_mem_offerAll {c : Chan α} {l : List α} {a : α} (h : a ∈ (c.offerAll l).queue) :
    a ∈ c.queue ∨ a ∈ l := by
  rw [offerAll_queue] at h
  split at h
  · exact Or.inl h
  · exact (List.mem_append.mp h).imp_right List.mem_of_mem_take

/-- No more is queued in an empty channel than was offered. -/
theorem length_offerAll_le {c : Chan α} (hc : c.queue = []) (l : List α) :
    (c.offerAll l).queue.length ≤ l.length := by
  rw [offerAll_queue, hc]
  split
  · exact Nat.zero_le _
  · rw [List.nil_append]
    exact (List.take_sublist _ _).length_le

/-- An open channel with room takes a single message. -/
theorem offerAll_queue_of_room {c : Chan α} {l : List α} (hc : c.queue = [])
    (hopen : c.closed = false ∧ 0 < c.capacity) (hl : l.length ≤ 1) : (c.offerAll l).queue = l := by
  rw [offerAll_queue, hc, hopen.1, if_neg Bool.false_ne_true, List.nil_append]
  apply List.take_of_length_le
  rw [List.length_nil]
  omega

end Chan

end Anybus
