import Anybus.Core.Machine
import Anybus.Db.Queues

/-!
# Connection ids

Every session takes its connection id from one counter of 16 bits that all transports of a
node share, registers with the router under it, and unregisters when it ends. The counter
starts at 1, since 0 stands for the node itself, and wraps around without regard to the ids
in use. The ids stay apart for exactly as long as the counter has not come around.
-/

namespace Anybus

/-- The shared counter. -/
structure ConnectionIdCounter where
  current : UInt16
  deriving DecidableEq

namespace ConnectionIdCounter

def new : ConnectionIdCounter := ⟨1⟩

/-- Fetch the current value and increment it. -/
def next (counter : ConnectionIdCounter) : ConnectionId × ConnectionIdCounter :=
  (counter.current.toNat, ⟨counter.current + 1⟩)

end ConnectionIdCounter

/-- How far a session has come. -/
inductive Enrolment where
  | drawn
  | registered
  | ended
  deriving DecidableEq

/-- A session and the id it has drawn. -/
structure Enrolled where
  id : ConnectionId
  state : Enrolment
  deriving DecidableEq

/-- The counter, all sessions in the order in which they drew their ids, and the database
that the router keeps of them. -/
structure Enrolments where
  counter : ConnectionIdCounter
  sessions : List Enrolled
  db : LsDb

/-- What can happen. The router handles the messages of a session in order, and anything
else in between. -/
inductive EnrolmentEvent where
  | draw
  | register (i : Nat) (tx : Tx) (peerId : NodeId) (realms : RealmList) (cost : Cost) (w : Wires)
      (now : Instant)
  | unregister (i : Nat) (w : Wires) (now : Instant)
  | other (op : Op) (w : Wires) (now : Instant)

namespace Enrolments

/-- One event, if it is possible. -/
def step (s : Enrolments) : EnrolmentEvent → Option Enrolments
  | .draw => some
      { s with
        counter := s.counter.next.2
        sessions := s.sessions ++ [⟨s.counter.next.1, .drawn⟩] }
  | .register i tx peerId realms cost w now =>
    match s.sessions[i]? with
    | some ⟨id, .drawn⟩ => some
        { s with
          sessions := s.sessions.set i ⟨id, .registered⟩
          db := (s.db.addPeer w ⟨tx, peerId, id, realms, cost⟩ now).1 }
    | _ => none
  | .unregister i w now =>
    match s.sessions[i]? with
    | some ⟨id, .registered⟩ => (s.db.removePeer w id now).map fun r =>
        { s with
          sessions := s.sessions.set i ⟨id, .ended⟩
          db := r.1 }
    | _ => none
  | .other op w now =>
    match op with
    | .addPeer _ | .removePeer _ => none
    | op => (s.db.step w now op).map fun r => { s with db := r.1 }

/-- The sessions of a node over its life. -/
def machine : Machine Enrolments EnrolmentEvent where
  init s := ∃ selfId now, s = ⟨.new, [], .new selfId now⟩
  step s event s' := s.step event = some s'

/-- The ids are kept apart: no session has the id of the node itself, no two registered
sessions share one, and no link stands where a new session is going to put its own. -/
structure Separate (s : Enrolments) : Prop where
  nonzero : ∀ session ∈ s.sessions, session.id ≠ 0
  distinct : ∀ (i j : Nat) (a b : Enrolled), s.sessions[i]? = some a → s.sessions[j]? = some b →
    a.state = .registered → b.state = .registered → a.id = b.id → i = j
  vacant : ∀ session ∈ s.sessions, session.state = .drawn → s.db.links.get session.id = none

/-- What holds in every run. -/
structure Inv (s : Enrolments) : Prop where
  counter : s.counter.current.toNat = (1 + s.sessions.length) % 65536
  ids : ∀ i session, s.sessions[i]? = some session → session.id = (1 + i) % 65536
  links : ∀ c link, s.db.links.get c = some link → ∃ session ∈ s.sessions,
    session.id = c ∧ session.state = .registered

variable {s s' : Enrolments} {event : EnrolmentEvent}

/-- Writing the state of one session. -/
theorem getElem?_set_enrolled {sessions : List Enrolled} {i : Nat} {a b : Enrolled}
    (hi : sessions[i]? = some a) (j : Nat) :
    (sessions.set i b)[j]? = if i = j then some b else sessions[j]? := by
  rw [List.getElem?_set]
  have hlt : i < sessions.length := (List.getElem?_eq_some_iff.mp hi).1
  rw [if_pos hlt]

/-- A session that goes on keeps its id, and the sessions registered before stay so. -/
theorem Inv.setState (h : s.Inv) {i : Nat} {id : ConnectionId} {before after : Enrolment}
    (hi : s.sessions[i]? = some ⟨id, before⟩) {db : LsDb}
    (hlinks : ∀ c link, db.links.get c = some link → (c = id ∧ after = .registered) ∨
      ∃ session ∈ s.sessions, session.id = c ∧ session.state = .registered ∧
        session ≠ ⟨id, before⟩) :
    Inv { s with sessions := s.sessions.set i ⟨id, after⟩, db := db } := by
  refine ⟨?_, ?_, ?_⟩
  · rw [List.length_set]
    exact h.counter
  · intro j session hj
    rw [getElem?_set_enrolled hi] at hj
    split at hj
    · next heq =>
      cases hj
      rw [← heq]
      exact h.ids i ⟨id, before⟩ hi
    · exact h.ids j session hj
  · intro c link hc
    obtain ⟨rfl, hafter⟩ | ⟨session, hin, hid, hreg, hne⟩ := hlinks c link hc
    · refine ⟨⟨c, after⟩, List.mem_of_getElem? (i := i) ?_, rfl, hafter⟩
      rw [getElem?_set_enrolled hi, if_pos rfl]
    · obtain ⟨j, hj⟩ := List.getElem?_of_mem hin
      refine ⟨session, List.mem_of_getElem? (i := j) ?_, hid, hreg⟩
      rw [getElem?_set_enrolled hi, if_neg]
      · exact hj
      · rintro rfl
        rw [hi] at hj
        exact hne (Option.some.inj hj).symm

theorem Inv.draw (h : s.Inv) (hs : s.step .draw = some s') : s'.Inv := by
  obtain rfl := Option.some.inj hs
  refine ⟨?_, ?_, ?_⟩
  · have hnext : (s.counter.current + 1).toNat = (s.counter.current.toNat + 1) % 65536 := by
      rw [UInt16.toNat_add]
      rfl
    change (s.counter.current + 1).toNat = _
    rw [hnext, h.counter, List.length_append, List.length_singleton]
    omega
  · intro i session hi
    rw [List.getElem?_append] at hi
    split at hi
    · exact h.ids i session hi
    · next hge =>
      rw [List.getElem?_singleton] at hi
      split at hi
      · next hlast =>
        cases hi
        have heq : i = s.sessions.length := by omega
        rw [heq]
        exact h.counter
      · cases hi
  · intro c link hc
    obtain ⟨session, hin, hid⟩ := h.links c link hc
    exact ⟨session, List.mem_append_left _ hin, hid⟩

theorem Inv.register (h : s.Inv) {i : Nat} {tx : Tx} {peerId : NodeId} {realms : RealmList}
    {cost : Cost} {w : Wires} {now : Instant}
    (hs : s.step (.register i tx peerId realms cost w now) = some s') : s'.Inv := by
  simp only [step] at hs
  split at hs
  · next id hi =>
    obtain rfl := Option.some.inj hs
    refine h.setState hi fun c link hc => ?_
    have hadd : s.db.step w now (.addPeer ⟨tx, peerId, id, realms, cost⟩) =
        some (s.db.addPeer w ⟨tx, peerId, id, realms, cost⟩ now) := rfl
    obtain hold | ⟨heq, rfl⟩ := LsDb.step_links hadd hc
    · obtain ⟨session, hin, hid, hreg⟩ := h.links c link hold
      refine Or.inr ⟨session, hin, hid, hreg, ?_⟩
      rintro rfl
      cases hreg
    · cases heq
      exact Or.inl ⟨rfl, rfl⟩
  · cases hs

theorem Inv.unregister (h : s.Inv) {i : Nat} {w : Wires} {now : Instant}
    (hs : s.step (.unregister i w now) = some s') : s'.Inv := by
  simp only [step] at hs
  split at hs
  · next id hi =>
    obtain ⟨⟨db, w'⟩, hremove, rfl⟩ := Option.map_eq_some_iff.mp hs
    refine h.setState hi fun c link hc => ?_
    rw [LsDb.get_links_removePeer hremove] at hc
    split at hc
    · cases hc
    · next hne =>
      obtain ⟨session, hin, hid, hreg⟩ := h.links c link hc
      refine Or.inr ⟨session, hin, hid, hreg, ?_⟩
      rintro rfl
      exact hne hid.symm
  · cases hs

theorem Inv.other (h : s.Inv) {op : Op} {w : Wires} {now : Instant}
    (hs : s.step (.other op w now) = some s') : s'.Inv := by
  simp only [step] at hs
  split at hs
  · cases hs
  · cases hs
  · next hadd _ =>
    obtain ⟨⟨db, w'⟩, hop, rfl⟩ := Option.map_eq_some_iff.mp hs
    refine ⟨h.counter, h.ids, fun c link hc => ?_⟩
    obtain hold | ⟨heq, -⟩ := LsDb.step_links hop hc
    · exact h.links c link hold
    · exact absurd heq (hadd link)

theorem inv_of_reaches (h : machine.Reaches (fun _ _ => True) s) : s.Inv := by
  refine h.invariant ?_ ?_
  · rintro s ⟨selfId, now, rfl⟩
    refine ⟨rfl, ?_, ?_⟩
    · intro i session hi
      cases hi
    · intro c link hc
      cases hc
  · intro s event s' hinv _ hs
    cases event with
    | draw => exact hinv.draw hs
    | register i tx peerId realms cost w now => exact hinv.register hs
    | unregister i w now => exact hinv.unregister hs
    | other op w now => exact hinv.other hs

/-- The ids are kept apart exactly as long as the counter has not come around, that is, as
long as no more than 65535 sessions have drawn one. -/
theorem ids_separate_iff (h : machine.Reaches (fun _ _ => True) s) :
    s.Separate ↔ s.sessions.length ≤ 65535 := by
  have hinv := inv_of_reaches h
  constructor
  · intro hsep
    by_contra hmany
    have hlt : 65535 < s.sessions.length := by omega
    have hget := List.getElem?_eq_getElem hlt
    -- The session that draws when the counter has come around gets the id of the node itself.
    have hzero := hinv.ids 65535 _ hget
    exact hsep.nonzero _ (List.getElem_mem hlt) hzero
  · intro hfew
    have hids : ∀ (i : Nat) (session : Enrolled), s.sessions[i]? = some session →
        i < 65535 ∧ session.id = 1 + i := by
      intro i session hi
      have hlt : i < s.sessions.length := (List.getElem?_eq_some_iff.mp hi).1
      have hid := hinv.ids i session hi
      refine ⟨by omega, hid.trans (Nat.mod_eq_of_lt (by omega))⟩
    refine ⟨?_, ?_, ?_⟩
    · intro session hin
      obtain ⟨i, hi⟩ := List.getElem?_of_mem hin
      rw [(hids i session hi).2]
      exact Nat.ne_of_gt (Nat.lt_add_right i Nat.one_pos)
    · intro i j a b hi hj _ _ heq
      rw [(hids i a hi).2, (hids j b hj).2] at heq
      exact Nat.add_left_cancel heq
    · intro session hin hdrawn
      cases hlink : s.db.links.get session.id with
      | none => rfl
      | some link =>
        obtain ⟨i, hi⟩ := List.getElem?_of_mem hin
        obtain ⟨other, hin', hid, hreg⟩ := hinv.links _ link hlink
        obtain ⟨j, hj⟩ := List.getElem?_of_mem hin'
        rw [(hids i session hi).2, (hids j other hj).2] at hid
        have heq : j = i := Nat.add_left_cancel hid
        rw [← heq, hj] at hi
        rw [Option.some.inj hi, hdrawn] at hreg
        cases hreg

/-- Any number of further sessions may draw an id. -/
theorem exists_draws (h : machine.Reaches (fun _ _ => True) s) (n : Nat) :
    ∃ (counter : ConnectionIdCounter) (later : List Enrolled),
      machine.Reaches (fun _ _ => True) ⟨counter, s.sessions ++ later, s.db⟩ ∧
      later.length = n ∧ ∀ session ∈ later, session.state = .drawn := by
  induction n with
  | zero => exact ⟨s.counter, [], by rwa [List.append_nil], rfl, fun _ hin => by cases hin⟩
  | succ n ih =>
    obtain ⟨counter, later, hreach, hlen, hdrawn⟩ := ih
    refine ⟨counter.next.2, later ++ [⟨counter.next.1, .drawn⟩], ?_, ?_, ?_⟩
    · rw [← List.append_assoc]
      exact hreach.step .draw trivial rfl
    · rw [List.length_append, hlen, List.length_singleton]
    · intro session hin
      rw [List.mem_append, List.mem_singleton] at hin
      obtain hin | rfl := hin
      · exact hdrawn session hin
      · rfl

/-- A node with one session. -/
def oneSession : Enrolments :=
  ⟨⟨2⟩, [⟨1, .registered⟩], ((LsDb.new 1 0).addPeer (.idle 32) ⟨0, 2, 1, ∅, 0⟩ 0).1⟩

theorem oneSession_reached : machine.Reaches (fun _ _ => True) oneSession :=
  .step (.register 0 0 2 ∅ 0 (.idle 32) 0) (.step .draw (.init ⟨1, 0, rfl⟩) trivial rfl) trivial rfl

theorem oneSession_separate : oneSession.Separate :=
  (ids_separate_iff oneSession_reached).mpr (by decide)

/-- The first session stays while 65535 others draw their ids; the next one gets the id of
the first and registers under it. -/
theorem lasting_session_displaced : ∃ s, machine.Reaches (fun _ _ => True) s ∧ ¬ s.Separate ∧
    s.sessions[0]? = some ⟨1, .registered⟩ ∧ s.sessions[65536]? = some ⟨1, .registered⟩ := by
  obtain ⟨counter, later, hreach, hlen, hdrawn⟩ := exists_draws oneSession_reached 65536
  have hlt : 65535 < later.length := by omega
  have hlast : (oneSession.sessions ++ later)[65536]? = some later[65535] := by
    rw [show oneSession.sessions = [⟨1, .registered⟩] from rfl, List.singleton_append,
      List.getElem?_cons_succ, List.getElem?_eq_getElem hlt]
  have hid : later[65535].id = 1 := (inv_of_reaches hreach).ids 65536 _ hlast
  have hstate := hdrawn _ (List.getElem_mem hlt)
  generalize later[65535] = session at hlast hid hstate
  obtain ⟨id, state⟩ := session
  cases hid
  cases hstate
  have hset := getElem?_set_enrolled (b := ⟨1, .registered⟩) hlast
  have hfirst := hset 0
  have hother := hset 65536
  have hregister : (⟨counter, oneSession.sessions ++ later, oneSession.db⟩ : Enrolments).step
      (.register 65536 0 3 ∅ 0 (.idle 32) 0) =
      some ⟨counter, (oneSession.sessions ++ later).set 65536 ⟨1, .registered⟩,
        (oneSession.db.addPeer (.idle 32) ⟨0, 3, 1, ∅, 0⟩ 0).1⟩ := by
    simp only [step, hlast]
  refine ⟨_, hreach.step _ trivial hregister, fun hsep => ?_, hfirst, hother⟩
  have hsame := hsep.distinct 0 65536 ⟨1, .registered⟩ ⟨1, .registered⟩ hfirst hother rfl rfl rfl
  cases hsame

end Enrolments

end Anybus
