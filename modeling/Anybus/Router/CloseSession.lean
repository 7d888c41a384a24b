import Anybus.Router.Bus
import Anybus.Db.Queues

/-!
# Closing a session

A session registers its link when it comes up and takes it back when it ends. The two
messages travel in tasks of their own, so the second may reach the router first. The
router then finds no link to remove, and adds it afterwards for good. Whenever they come
in order, the link and its adjacency go away.
-/

namespace Anybus

/-- The message brings up the link of a connection. -/
def RouterMsg.registers (c : ConnectionId) : RouterMsg → Bool
  | .registerPeer _ connectionId _ _ _ => decide (connectionId = c)
  | _ => false

namespace Bus

/-- How sessions use the bus: each one registers under a connection of its own, and takes
back only what it has registered. -/
def Sessions (bus : Bus) : BusEvent → Prop
  | .call (.registerPeer _ c _ _ _) => bus.log.countP (BusNote.calls (RouterMsg.registers c)) = 0
  | .call (.unRegisterPeer c) => 0 < bus.log.countP (BusNote.calls (RouterMsg.registers c))
  | _ => True

/-- The registration of a session reached the router before its end did. -/
def EndsInOrder (bus : Bus) (c : ConnectionId) : Prop :=
  Precedes (fun n => n.handles (RouterMsg.registers c) = true)
    (fun n => n = .handled (.unRegisterPeer c)) bus.log

/-- Nothing is left of a connection. -/
def Forgotten (bus : Bus) (c : ConnectionId) : Prop :=
  bus.router.lsdb.links.get c = none ∧
    ∀ adjs, bus.router.lsdb.ownBody = some (.router adjs) → ∀ adj ∈ adjs, adj.connectionId ≠ c

/-- What holds in every state: a connection has a link only after its one registration was
handled, and none after its end was handled in order. -/
structure SessionInv (bus : Bus) : Prop where
  sound : bus.router.lsdb.Sound
  once : ∀ c, bus.log.countP (BusNote.calls (RouterMsg.registers c)) ≤ 1
  fresh : ∀ c, bus.log.countP (BusNote.handles (RouterMsg.registers c)) = 0 →
    bus.router.lsdb.links.get c = none
  gone : ∀ c, bus.EndsInOrder c → bus.router.lsdb.links.get c = none

end Bus

/-- What a turn does to the link of a connection. -/
theorem Router.next_link {router router' : Router} {w w' : Wires} {now : Instant} {wake : Wake}
    {st : RouterState} {st' : Option RouterState}
    (h : router.next w now wake st = some (st', router', w')) (c : ConnectionId) :
    router'.lsdb.links.get c = none ∨
      (router'.lsdb.links.get c = router.lsdb.links.get c ∧
        st ≠ .handleBrokerMsg (.unRegisterPeer c)) ∨
      ∃ msg, st = .handleBrokerMsg msg ∧ msg.registers c = true := by
  obtain ⟨v, hop, _⟩ := Router.next_op h
  unfold Router.Performs at hop
  cases hl : router'.lsdb.links.get c with
  | none => exact Or.inl rfl
  | some link =>
    right
    split at hop
    · next hst =>
      left
      refine ⟨by rw [← hl, hop.1], ?_⟩
      rintro rfl
      cases hst
    · next op hst =>
      rcases LsDb.step_links hop hl with hold | ⟨rfl, rfl⟩
      · left
        refine ⟨hold.symm, ?_⟩
        rintro rfl
        cases hst
        rw [LsDb.get_links_removePeer hop, if_pos rfl] at hl
        cases hl
      · right
        cases st with
        | handleBrokerMsg msg =>
          refine ⟨msg, rfl, ?_⟩
          cases msg with
          | registerPeer peerId connectionId peerTx cost realms =>
            cases hst
            exact decide_eq_true rfl
          | registerEndpoint | deadLink | unRegisterPeer | lsaInbound | lsaAckInbound
          | setAnycastCost | shutdown => cases hst
        | start | listen | registerEndpoint | routeChange | tick | shutdown => cases hst

namespace Bus

variable {bus bus' : Bus} {c : ConnectionId}

/-- A session that ends in order was registered. -/
theorem EndsInOrder.handled (h : bus.EndsInOrder c) :
    0 < bus.log.countP (BusNote.handles (RouterMsg.registers c)) :=
  List.countP_pos_iff.mpr h.exists_first

/-- A registration that is in hand is the only one of its connection. -/
theorem SessionInv.first_in_hand (h : bus.SessionInv) {msg : RouterMsg}
    (hle : bus.log.countP (BusNote.handles (RouterMsg.registers c)) +
      bus.pending (RouterMsg.registers c) ≤ bus.log.countP (BusNote.calls (RouterMsg.registers c)))
    (hst : bus.state = some (.handleBrokerMsg msg)) (hreg : msg.registers c = true) :
    bus.log.countP (BusNote.handles (RouterMsg.registers c)) = 0 := by
  have honce := h.once c
  have hline : 0 < bus.line.countP (RouterMsg.registers c) := by
    refine List.countP_pos_iff.mpr ⟨msg, ?_, hreg⟩
    simp [line, hst, RouterState.inHand]
  unfold pending at hle
  omega

theorem SessionInv.step {event : BusEvent} (h : bus.SessionInv) (hrule : bus.Sessions event)
    (hle : ∀ p, bus.log.countP (BusNote.handles p) + bus.pending p ≤
      bus.log.countP (BusNote.calls p)) (hs : Stepped bus event bus') : bus'.SessionInv := by
  cases hs with
  | send => exact ⟨h.sound, h.once, h.fresh, h.gone⟩
  | close sender =>
    refine ⟨h.sound, fun c => ?_, fun c hz => h.fresh c ?_, fun c hend => h.gone c ?_⟩
    · rw [List.countP_append]
      exact h.once c
    · rw [List.countP_append] at hz
      exact hz
    · exact ((precedes_concat _ _ _ _).mp hend).resolve_right fun hr => by cases hr.2
  | call msg =>
    refine ⟨h.sound, fun c => ?_, fun c hz => h.fresh c ?_, fun c hend => h.gone c ?_⟩
    · have honce := h.once c
      rw [List.countP_append]
      cases hreg : msg.registers c with
      | false =>
        have hnone : [BusNote.called msg].countP (BusNote.calls (RouterMsg.registers c)) = 0 := by
          simp [BusNote.calls, hreg]
        omega
      | true =>
        have hfresh : bus.log.countP (BusNote.calls (RouterMsg.registers c)) = 0 := by
          cases msg with
          | registerPeer peerId connectionId peerTx cost realms =>
            obtain rfl := of_decide_eq_true hreg
            exact hrule
          | registerEndpoint | deadLink | unRegisterPeer | lsaInbound | lsaAckInbound
          | setAnycastCost | shutdown => cases hreg
        have hone := List.countP_le_length (p := BusNote.calls (RouterMsg.registers c))
          (l := [BusNote.called msg])
        rw [List.length_singleton] at hone
        omega
    · rw [List.countP_append] at hz
      exact hz
    · exact ((precedes_concat _ _ _ _).mp hend).resolve_right fun hr => by cases hr.2
  | @turn _ _ _ _ st queue st' router' w' hst hq hn =>
    have hcount := fun c => st.countP_notes (RouterMsg.registers c)
    refine ⟨?_, fun c => ?_, fun c hz => ?_, fun c hend => ?_⟩
    · refine Router.sound_next h.sound ?_ hn
      rintro msg rfl
      cases msg with
      | registerPeer peerId c peerTx cost realms =>
        exact h.fresh c (h.first_in_hand (hle _) hst (decide_eq_true rfl))
      | registerEndpoint | deadLink | unRegisterPeer | lsaInbound | lsaAckInbound | setAnycastCost
      | shutdown => trivial
    · rw [List.countP_append, (hcount c).2]
      exact h.once c
    · rw [List.countP_append, (hcount c).1] at hz
      rcases Router.next_link hn c with hnone | ⟨hsame, _⟩ | ⟨msg, rfl, hreg⟩
      · exact hnone
      · exact hsame.trans (h.fresh c (by omega))
      · simp [RouterState.inHand, hreg] at hz
    · rcases Router.next_link hn c with hnone | ⟨hsame, hne⟩ | ⟨msg, rfl, hreg⟩
      · exact hnone
      · exact hsame.trans (h.gone c ((precedes_notes hend).resolve_right fun hr => hne hr.1))
      · -- The only registration of the connection is in hand, so none was handled before.
        have hzero := h.first_in_hand (hle _) hst hreg
        rcases precedes_notes hend with hlog | ⟨hun, _⟩
        · have hpos := EndsInOrder.handled hlog
          omega
        · cases hun
          cases hreg

theorem SessionInv.of_reaches {nodeId : NodeId} (h : Reaches Sessions nodeId bus) :
    bus.SessionInv := by
  induction h with
  | new now =>
    exact ⟨LsDb.Sound.new nodeId now, fun _ => Nat.zero_le 1, fun _ _ => rfl, fun _ hend => hend.elim⟩
  | rehash _ hre ih =>
    refine ⟨ih.sound.rehash hre, ih.once, fun c hz => ?_, fun c hend => ?_⟩
    · exact (hre.get_link c).trans (ih.fresh c hz)
    · exact (hre.get_link c).trans (ih.gone c hend)
  | step event hreach hrule hstep ih => exact ih.step hrule hreach.pending_le (stepped hstep)

/-- In every run, a session whose registration reached the router before its end did
leaves no link and no adjacency. -/
theorem ended_session_forgotten (nodeId : NodeId) (bus : Bus) (h : Reaches Sessions nodeId bus)
    (c : ConnectionId) (hend : bus.EndsInOrder c) : bus.Forgotten c := by
  have hinv := SessionInv.of_reaches h
  have hgone := hinv.gone c hend
  refine ⟨hgone, fun adjs hbody adj hadj hc => ?_⟩
  obtain ⟨link, hlink, _⟩ := hinv.sound.reach adjs hbody adj hadj
  rw [hc, hgone] at hlink
  cases hlink

end Bus

/-- The router waits, takes a message, handles it and builds a table. -/
def routerTakes (msg : RouterMsg) : List BusEvent :=
  [.quietTurn (.message msg), .quietTurn .timer, .quietTurn .timer]

/-- A session with node 2 comes up. -/
def sessionUp : RouterMsg := .registerPeer 2 1 1 0 {.global}

/-- It ends. -/
def sessionDown : RouterMsg := .unRegisterPeer 1

/-- A session came up and ended, and the router has heard of neither. -/
def shortSession : Bus :=
  ⟨[.called sessionUp, .called sessionDown], [sessionUp, sessionDown], [], some .start, .new 1 0⟩

theorem shortSession_reached : Bus.Reaches Bus.Sessions 1 shortSession := by
  have hnew : Bus.Reaches Bus.Sessions 1 (.new 1 0) := .new 0
  have hup := hnew.step (.call sessionUp) rfl rfl
  exact hup.step (.call sessionDown) Nat.one_pos rfl

/-- The end overtakes the registration. -/
def overtaken : List BusEvent :=
  [.quietTurn .timer, .send 1, .send 0] ++ routerTakes sessionDown ++ routerTakes sessionUp

/-- The end follows the registration. -/
def inOrder : List BusEvent :=
  [.quietTurn .timer, .send 0, .send 0] ++ routerTakes sessionUp ++ routerTakes sessionDown

/-- A session whose end overtakes its registration keeps its link. -/
theorem overtaken_session_stays :
    ¬ ∀ (nodeId : NodeId) (bus : Bus), Bus.Reaches Bus.Sessions nodeId bus → ∀ c,
      (∃ n ∈ bus.log, n.handles (RouterMsg.registers c) = true) →
      .handled (.unRegisterPeer c) ∈ bus.log → bus.Forgotten c := by
  intro h
  have hrun : (shortSession.run overtaken).map (fun b => (b.log.drop 2, b.router.lsdb.links.get 1)) =
      some ([.handled sessionDown, .handled sessionUp], some ⟨1, 2, 1, {.global}, 0⟩) := by
    decide +kernel
  obtain ⟨bus, hbus, heq⟩ := Option.map_eq_some_iff.mp hrun
  obtain ⟨hlog, hlink⟩ := Prod.mk.inj heq
  have hreach := shortSession_reached.run (by simp [overtaken, routerTakes, BusEvent.quietTurn, Bus.Sessions]) hbus
  have hmem : ∀ n ∈ [BusNote.handled sessionDown, .handled sessionUp], n ∈ bus.log := by
    intro n hn
    rw [← hlog] at hn
    exact List.mem_of_mem_drop hn
  have hgone := h 1 bus hreach 1 ⟨.handled sessionUp, hmem _ (by simp), rfl⟩ (hmem _ (by simp [sessionDown]))
  rw [hgone.1] at hlink
  cases hlink

/-- A session that ends in order is forgotten. -/
theorem short_session_forgotten :
    ∃ bus, shortSession.run inOrder = some bus ∧ bus.EndsInOrder 1 ∧ bus.Forgotten 1 := by
  have hrun : (shortSession.run inOrder).map (fun b => b.log) =
      some [.called sessionUp, .called sessionDown, .handled sessionUp, .handled sessionDown] := by
    decide +kernel
  obtain ⟨bus, hbus, hlog⟩ := Option.map_eq_some_iff.mp hrun
  have hreach := shortSession_reached.run (by simp [inOrder, routerTakes, BusEvent.quietTurn, Bus.Sessions]) hbus
  have hend : bus.EndsInOrder 1 := by
    unfold Bus.EndsInOrder
    rw [hlog]
    decide
  exact ⟨bus, hbus, hend, Bus.ended_session_forgotten 1 bus hreach 1 hend⟩

end Anybus
