import Anybus.Db.Panics
import Anybus.Db.RemoteRoutes
import Anybus.Router.Published

/-!
# LSAs from other nodes and the router's panics

Whenever the router waits for messages, its last table was built without a panic, so
there is no multicast entry. From there a sequence of LSAs can make it panic only by
creating one.
-/

namespace Anybus

/-- The operation on the database that a message asks for at once. -/
def RouterMsg.op : RouterMsg → Option Op
  | .registerEndpoint _ => none
  | .deadLink endpointId => some (.removeEndpoint endpointId)
  | .registerPeer peerId connectionId peerTx cost realms =>
    some (.addPeer ⟨peerTx, peerId, connectionId, realms, cost⟩)
  | .unRegisterPeer connectionId => some (.removePeer connectionId)
  | .lsaInbound sender lsa => some (.handleLsa lsa sender)
  | .lsaAckInbound sender key seq => some (.handleAck sender key seq)
  | .setAnycastCost endpointId sender cost _ => some (.setAnycastCost endpointId sender cost)
  | .shutdown => none

/-- The operation on the database that a turn performs. -/
def RouterState.op : RouterState → Option Op
  | .start => none
  | .listen => none
  | .handleBrokerMsg msg => msg.op
  | .registerEndpoint request => some (.addEndpoint request)
  | .routeChange _ => some .buildFib
  | .tick => some .tick
  | .shutdown => some .shutdown

namespace Router

/-- A session comes up under a connection that is not in use. The connection counter has 16
bits, so it gives out a number again after 65536 sessions. -/
def TakesUnused (router : Router) : RouterMsg → Prop
  | .registerPeer _ connectionId _ _ _ => router.lsdb.links.get connectionId = none
  | _ => True

/-- What holds in every state of a run: the database is sound, and there is a multicast
entry only while the router is about to build a table. -/
def Quiet (st : RouterState) (router : Router) : Prop :=
  router.lsdb.Sound ∧ match st with
    | .routeChange _ => True
    | .shutdown => True
    | _ => router.lsdb.NoMulticast

section Turn

variable {router router' : Router} {w w' : Wires} {now : Instant}

/-- What database and channels are after a given operation. -/
def Performs (router : Router) (w : Wires) (now : Instant) (op : Option Op) (lsdb : LsDb)
    (w' : Wires) : Prop :=
  match op with
  | none => lsdb = router.lsdb ∧ w' = w
  | some op => router.lsdb.step w now op = some (lsdb, w')

/-- A message performs its operation. -/
theorem handleBrokerMsg_op {msg : RouterMsg} {st : RouterState}
    (h : router.handleBrokerMsg w now msg = some (st, router', w')) :
    router.Performs w now msg.op router'.lsdb w' := by
  cases msg with
  | registerEndpoint request =>
    simp only [Router.handleBrokerMsg, Option.some.injEq, Prod.mk.injEq] at h
    exact ⟨congrArg Router.lsdb h.2.1.symm, h.2.2.symm⟩
  | deadLink endpointId =>
    simp only [Router.handleBrokerMsg, Option.some.injEq, Prod.mk.injEq] at h
    obtain ⟨_, rfl, rfl⟩ := h
    rfl
  | registerPeer peerId connectionId peerTx cost realms =>
    simp only [Router.handleBrokerMsg, Option.some.injEq, Prod.mk.injEq] at h
    obtain ⟨_, rfl, rfl⟩ := h
    rfl
  | unRegisterPeer connectionId =>
    obtain ⟨⟨d, v⟩, hr, heq⟩ := Option.map_eq_some_iff.mp h
    cases heq
    exact hr
  | lsaInbound sender lsa =>
    obtain ⟨⟨d, v⟩, hr, heq⟩ := Option.map_eq_some_iff.mp h
    cases heq
    exact hr
  | lsaAckInbound sender key seq =>
    simp only [Router.handleBrokerMsg, Option.some.injEq, Prod.mk.injEq] at h
    obtain ⟨_, rfl, rfl⟩ := h
    rfl
  | setAnycastCost endpointId sender cost reply =>
    have hdb : (router'.lsdb, w') = router.lsdb.changeAnycastCost w endpointId sender cost now := by
      simp only [Router.handleBrokerMsg] at h
      unfold LsDb.changeAnycastCost
      cases hset : router.lsdb.setAnycastCost endpointId sender cost with
      | error e =>
        simp only [hset, Option.some.injEq, Prod.mk.injEq] at h
        obtain ⟨_, rfl, rfl⟩ := h
        rfl
      | ok r =>
        obtain ⟨lsdb, outcome⟩ := r
        cases outcome with
        | unchanged =>
          simp only [hset, Option.some.injEq, Prod.mk.injEq] at h
          obtain ⟨_, rfl, rfl⟩ := h
          rfl
        | changed previous new advertise =>
          simp only [hset, Option.some.injEq, Prod.mk.injEq] at h
          obtain ⟨_, rfl, rfl⟩ := h
          cases advertise <;> rfl
    exact congrArg some hdb.symm
  | shutdown =>
    simp only [Router.handleBrokerMsg, Option.some.injEq, Prod.mk.injEq] at h
    exact ⟨congrArg Router.lsdb h.2.1.symm, h.2.2.symm⟩

/-- A turn performs its operation. A route change may afterwards confirm a registration. -/
theorem next_op {st : RouterState} {st' : Option RouterState} {wake : Wake}
    (h : router.next w now wake st = some (st', router', w')) :
    ∃ v, router.Performs w now st.op router'.lsdb v ∧ ((∀ notify, st ≠ .routeChange notify) → w' = v) := by
  cases st with
  | start =>
    simp only [Router.next, Option.some.injEq, Prod.mk.injEq] at h
    exact ⟨w, ⟨congrArg Router.lsdb h.2.1.symm, rfl⟩, fun _ => h.2.2.symm⟩
  | listen =>
    cases wake with
    | message | channelClosed | timer =>
      simp only [Router.next, Option.some.injEq, Prod.mk.injEq] at h
      exact ⟨w, ⟨congrArg Router.lsdb h.2.1.symm, rfl⟩, fun _ => h.2.2.symm⟩
  | handleBrokerMsg msg =>
    simp only [Router.next, Option.map_eq_some_iff, Prod.mk.injEq] at h
    obtain ⟨⟨_, _, _⟩, hm, _, rfl, rfl⟩ := h
    exact ⟨_, handleBrokerMsg_op hm, fun _ => rfl⟩
  | registerEndpoint request =>
    refine ⟨(router.lsdb.addEndpoint w request now).2.1, ?_⟩
    simp only [Router.next] at h
    split at h
    · simp only [Option.some.injEq, Prod.mk.injEq] at h
      obtain ⟨_, rfl, rfl⟩ := h
      exact ⟨rfl, fun _ => rfl⟩
    · simp only [Option.some.injEq, Prod.mk.injEq] at h
      obtain ⟨_, rfl, rfl⟩ := h
      exact ⟨rfl, fun _ => rfl⟩
  | shutdown =>
    simp only [Router.next, Option.some.injEq, Prod.mk.injEq] at h
    obtain ⟨_, rfl, rfl⟩ := h
    exact ⟨_, rfl, fun _ => rfl⟩
  | routeChange notify =>
    simp only [Router.next, Option.map_eq_some_iff, Prod.mk.injEq] at h
    obtain ⟨⟨lsdb, fib⟩, hfib, _, rfl, _⟩ := h
    refine ⟨w, ?_, fun hne => absurd rfl (hne notify)⟩
    change router.lsdb.step w now .buildFib = some (lsdb, w)
    simp [LsDb.step, hfib]
  | tick =>
    simp only [Router.next, Option.map_eq_some_iff, Prod.mk.injEq] at h
    obtain ⟨⟨lsdb, v, rebuild⟩, ht, _, rfl, rfl⟩ := h
    refine ⟨v, ?_, fun _ => rfl⟩
    change router.lsdb.step w now .tick = some (lsdb, v)
    simp [LsDb.step, ht]

/-- A turn keeps the database sound. -/
theorem sound_next {st : RouterState} {st' : Option RouterState} {wake : Wake}
    (h : router.lsdb.Sound) (hmsg : ∀ msg, st = .handleBrokerMsg msg → router.TakesUnused msg)
    (hn : router.next w now wake st = some (st', router', w')) : router'.lsdb.Sound := by
  obtain ⟨v, hop, _⟩ := next_op hn
  unfold Performs at hop
  split at hop
  · rw [hop.1]
    exact h
  · next op hst =>
    refine h.step (fun link hlink => ?_) hop
    -- Only a session that comes up adds a link.
    subst hlink
    cases st with
    | handleBrokerMsg msg =>
      have hunused := hmsg msg rfl
      cases msg with
      | registerPeer peerId connectionId peerTx cost realms =>
        cases hst
        exact hunused
      | registerEndpoint | deadLink | unRegisterPeer | lsaInbound | lsaAckInbound | setAnycastCost
      | shutdown => cases hst
    | start | listen | registerEndpoint | routeChange | tick | shutdown => cases hst

/-- One turn of the main loop. -/
theorem Quiet.next {st st' : RouterState} {wake : Wake} (h : Quiet st router)
    (hmsg : ∀ msg, st = .handleBrokerMsg msg → router.TakesUnused msg)
    (hn : router.next w now wake st = some (some st', router', w')) : Quiet st' router' := by
  obtain ⟨hsound, hno⟩ := h
  refine ⟨sound_next hsound hmsg hn, ?_⟩
  cases st with
  | start =>
    simp only [Router.next, Option.some.injEq, Prod.mk.injEq] at hn
    obtain ⟨rfl, rfl, _⟩ := hn
    exact hno
  | listen =>
    cases wake with
    | message | timer =>
      simp only [Router.next, Option.some.injEq, Prod.mk.injEq] at hn
      obtain ⟨rfl, rfl, _⟩ := hn
      exact hno
    | channelClosed =>
      simp only [Router.next, Option.some.injEq, Prod.mk.injEq] at hn
      obtain ⟨rfl, _⟩ := hn
      trivial
  | handleBrokerMsg msg =>
    simp only [Router.next, Option.map_eq_some_iff, Prod.mk.injEq, Option.some.injEq] at hn
    obtain ⟨⟨_, _, _⟩, hm, rfl, rfl, rfl⟩ := hn
    rcases handleBrokerMsg_state hm with rfl | ⟨request, _, rfl, rfl⟩ | hbuild
    · obtain ⟨_, p, hp⟩ := handleBrokerMsg_listen hm
      simp only [hp]
      exact hno
    · exact hno
    · rcases hbuild with rfl | rfl <;> trivial
  | registerEndpoint request =>
    simp only [Router.next] at hn
    cases hok : (router.lsdb.addEndpoint w request now).2.2 with
    | true =>
      simp only [hok, if_true, Option.some.injEq, Prod.mk.injEq] at hn
      obtain ⟨rfl, _⟩ := hn
      trivial
    | false =>
      simp only [hok, Bool.false_eq_true, if_false, Option.some.injEq, Prod.mk.injEq] at hn
      obtain ⟨rfl, rfl, _⟩ := hn
      rw [addEndpoint_refused hok]
      exact hno
  | routeChange notify =>
    simp only [Router.next, Option.map_eq_some_iff, Prod.mk.injEq, Option.some.injEq] at hn
    obtain ⟨⟨lsdb, fib⟩, hfib, rfl, rfl, _⟩ := hn
    exact (hsound.buildFib ((LsDb.buildFib_isSome_iff hsound).mp ⟨_, hfib⟩) hfib).2
  | tick =>
    simp only [Router.next, Option.map_eq_some_iff, Prod.mk.injEq, Option.some.injEq] at hn
    obtain ⟨⟨lsdb, v, rebuild⟩, ht, rfl, rfl, _⟩ := hn
    have hstep : router.lsdb.step w now .tick = some (lsdb, v) := by simp [LsDb.step, ht]
    have hroutes : lsdb.routes = router.lsdb.routes := by
      obtain ⟨_, hchange⟩ := LsDb.step_change hstep
      generalize hp : lsdb.parts = p at hchange
      rw [show lsdb.routes = p.routes from congrArg Parts.routes hp]
      cases hchange <;> rfl
    have hno' : lsdb.NoMulticast := by
      unfold LsDb.NoMulticast
      rw [hroutes]
      exact hno
    cases rebuild with
    | true => trivial
    | false => exact hno'
  | shutdown => simp [Router.next] at hn

end Turn

theorem Reaches.quiet {nodeId : NodeId} {st : RouterState} {router : Router} {published : Bool}
    (h : Reaches TakesUnused nodeId st router published) : Quiet st router := by
  induction h with
  | new now =>
    refine ⟨LsDb.Sound.new nodeId now, fun e hk => ?_⟩
    cases hk
  | @rehash st router published lsdb _ hre ih =>
    refine ⟨ih.1.rehash hre, ?_⟩
    cases st with
    | routeChange notify => trivial
    | shutdown => trivial
    | start => exact LsDb.NoMulticast.rehash ih.2 hre
    | listen => exact LsDb.NoMulticast.rehash ih.2 hre
    | handleBrokerMsg msg => exact LsDb.NoMulticast.rehash ih.2 hre
    | registerEndpoint request => exact LsDb.NoMulticast.rehash ih.2 hre
    | tick => exact LsDb.NoMulticast.rehash ih.2 hre
  | next now wake _ hmsg hn ih => exact ih.next hmsg hn

/-- A router that waits for messages gets through a sequence of LSAs without a panic
exactly if none of them, when its turn comes, is a multicast advertisement that is news
and finds no entry. -/
theorem lsas_never_panic_iff (nodeId : NodeId) (router : Router) (published : Bool)
    (h : Reaches TakesUnused nodeId .listen router published) (l : List LsDb.Arrival) :
    (∀ before a after db, l = before ++ a :: after → LsDb.Absorbs router.lsdb before db →
        ¬ db.PanicsAt a) ↔
      ∀ before a after db, l = before ++ a :: after → LsDb.Absorbs router.lsdb before db →
        ¬ db.Crashes a.lsa := by
  obtain ⟨hsound, hno⟩ := h.quiet
  have hiff : ∀ before a db, LsDb.Absorbs router.lsdb before db →
      (db.PanicsAt a ↔ db.Crashes a.lsa) := by
    intro before a db habs
    obtain ⟨hsound', hno'⟩ := habs.sound hsound hno
    exact LsDb.panicsAt_iff hsound' hno' a
  constructor
  · intro hall before a after db hl habs hcrash
    exact hall before a after db hl habs ((hiff before a db habs).mpr hcrash)
  · intro hall before a after db hl habs hpanic
    exact hall before a after db hl habs ((hiff before a db habs).mp hpanic)

end Router

/-- The database of node 1 after its link to node 2 has come up. -/
def linkedDb : LsDb := ((LsDb.new 1 0).addPeer (.idle 32) linkToTwo 0).1

/-- A router whose link to node 2 has come up waits for messages. -/
theorem linkedDb_waits : ∃ router, Router.Reaches Router.TakesUnused 1 .listen router true ∧
    router.lsdb.db = linkedDb.db ∧ router.lsdb.links = linkedDb.links ∧
    router.lsdb.routes = linkedDb.routes ∧ router.lsdb.selfId = 1 := by
  have hstart : Router.Reaches Router.TakesUnused 1 .start (.new 1 0) false := .new 0
  have hlisten := hstart.next (w := .idle 32) 0 .timer (by simp) rfl
  have hmsg := hlisten.next (w := .idle 32) 0 (.message (.registerPeer 2 1 1 0 {.global})) (by simp) rfl
  have hunused : ∀ msg, RouterState.handleBrokerMsg (.registerPeer 2 1 1 0 {.global}) =
      .handleBrokerMsg msg → (Router.new 1 0).TakesUnused msg := by
    intro msg hm
    cases hm
    rfl
  have hchange := hmsg.next (w := .idle 32) 0 .timer hunused rfl
  have hsome : linkedDb.buildFib.isSome := by decide +kernel
  obtain ⟨⟨lsdb, fib⟩, hfib⟩ := Option.isSome_iff_exists.mp hsome
  have hbuild : Router.next ⟨linkedDb, .new 1, []⟩ (.idle 32) 0 .timer (.routeChange none) =
      some (some .listen, ⟨lsdb, fib, []⟩, .idle 32) := by
    simp only [Router.next, hfib]
    rfl
  have hdone := hchange.next 0 .timer (by simp) hbuild
  obtain ⟨s, _, rfl, _⟩ := LsDb.buildFib_eq_some_iff.mp hfib
  exact ⟨_, hdone, rfl, rfl, rfl, rfl⟩

/-- Node 2 advertises a multicast endpoint. -/
def multicastOfTwo : LsDb.Arrival := ⟨⟨⟨2, 9⟩, 0, false, .endpoint ⟨.multicast, .global, 0⟩⟩, 1, .idle 32, 0⟩

/-- One multicast advertisement over a live link crashes the router. -/
theorem multicast_lsa_crashes :
    ¬ ∀ (nodeId : NodeId) (router : Router) (published : Bool),
      Router.Reaches Router.TakesUnused nodeId .listen router published →
      ∀ l : List LsDb.Arrival, (∀ a ∈ l, (router.lsdb.links.get a.sender).isSome) →
        ∀ before a after db, l = before ++ a :: after → LsDb.Absorbs router.lsdb before db →
          ¬ db.PanicsAt a := by
  intro h
  obtain ⟨router, hreach, hdb, hlinks, hroutes, hself⟩ := linkedDb_waits
  have hlive : ∀ a ∈ [multicastOfTwo], (router.lsdb.links.get a.sender).isSome := by
    intro a ha
    rw [List.mem_singleton.mp ha, hlinks]
    rfl
  obtain ⟨hsound, hno⟩ := hreach.quiet
  refine h 1 router true hreach [multicastOfTwo] hlive [] multicastOfTwo [] _ rfl .nil ?_
  rw [LsDb.panicsAt_iff hsound hno]
  refine ⟨rfl, by rw [hself]; decide, fun r hr => ?_, ⟨_, rfl, rfl⟩, by rw [hroutes]; rfl⟩
  have hnone : linkedDb.db.get multicastOfTwo.lsa.key = none := by decide +kernel
  rw [hdb, hnone] at hr
  cases hr

/-- The advertisement of a unicast endpoint does not crash it. -/
theorem unicast_lsa_never_panics :
    ∃ router, Router.Reaches Router.TakesUnused 1 .listen router true ∧
      ∀ before a after db, [⟨unicastOfTwo, 1, .idle 32, 0⟩] = before ++ a :: after →
        LsDb.Absorbs router.lsdb before db → ¬ db.PanicsAt a := by
  obtain ⟨router, hreach, _⟩ := linkedDb_waits
  refine ⟨router, hreach, (Router.lsas_never_panic_iff 1 router true hreach _).mpr ?_⟩
  intro before a after db hl _ hcrash
  have ha : a ∈ [(⟨unicastOfTwo, 1, .idle 32, 0⟩ : LsDb.Arrival)] := by
    rw [hl]
    simp
  obtain ⟨_, _, _, ⟨info, hbody, hkind⟩, _⟩ := hcrash
  rw [List.mem_singleton.mp ha] at hbody
  cases hbody
  cases hkind

end Anybus
