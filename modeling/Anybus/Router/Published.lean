import Anybus.Routing.Router
import Anybus.Db.Advances

/-!
# The published table is current

The forwarding table is built from the routes, the links and the adjacency lists of
the stored router LSAs. Whenever the router goes back to waiting without building a
new table, none of these has changed: an acknowledgement touches only what is
pending, a refused request nothing, and a quiet timer only numbers and times.
-/

namespace Anybus

/-- The search reads adjacency lists only. -/
theorem routerLsas_mapValues {f : LsaKey → LsaRecord → LsaRecord}
    (hbody : ∀ k r, (f k r).lsa.body = r.lsa.body) (m : HashMap LsaKey LsaRecord) :
    routerLsas (m.mapValues f) = routerLsas m := by
  unfold routerLsas HashMap.mapValues
  rw [List.foldl_map]
  congr 1
  ext nodes ⟨k, r⟩
  unfold addRouterLsa
  rw [hbody]

theorem spf_mapValues {f : LsaKey → LsaRecord → LsaRecord}
    (hbody : ∀ k r, (f k r).lsa.body = r.lsa.body) (m : HashMap LsaKey LsaRecord)
    (links : HashMap ConnectionId Link) (root : NodeId) :
    spf (m.mapValues f) links root = spf m links root := by
  unfold spf
  rw [routerLsas_mapValues hbody]

namespace LsDb

/-- Everything the forwarding table is built from is the same. -/
structure SameTables (db db' : LsDb) : Prop where
  selfId : db'.selfId = db.selfId
  links : db'.links = db.links
  hops : db'.nextHop = db.nextHop
  costs : db'.cost = db.cost
  routes : db'.routes = db.routes

theorem SameTables.fibEntry {db db' : LsDb} (h : SameTables db db') (entry : LsRouteEntry) :
    db'.fibEntry entry = db.fibEntry entry := by
  have htotal : db'.anycastTotal = db.anycastTotal := by
    funext route
    simp only [anycastTotal, h.hops, h.costs]
  have hforward : db'.fibForward = db.fibForward := by
    funext route
    simp only [fibForward, h.hops]
  have hhops : db'.broadcastHops = db.broadcastHops := by
    funext routes
    simp only [broadcastHops, h.hops]
  simp only [LsDb.fibEntry, anycastChoice, htotal, hforward, hhops]

theorem SameTables.buildTable {db db' : LsDb} (h : SameTables db db')
    (l : List (Σ _ : EndpointId, LsRouteEntry)) (table : HashMap EndpointId FibEntry) :
    db'.buildTable l table = db.buildTable l table := by
  induction l generalizing table with
  | nil => rfl
  | cons e l ih =>
    simp only [LsDb.buildTable, h.fibEntry, ih]

/-- The table depends on nothing else. -/
theorem SameTables.buildFromDb {db db' : LsDb} (h : SameTables db db') :
    db'.buildFromDb = db.buildFromDb := by
  simp only [LsDb.buildFromDb, h.buildTable, h.routes, h.selfId, h.links, h.hops]

/-- A table this database may publish: what a rebuild gives for some order of its maps,
with the costs and next hops that are stored already. -/
def MayPublish (db : LsDb) (fib : ForwardingTable) : Prop :=
  ∃ d d', Rehash db d ∧ d.buildFib = some (d', fib) ∧ d'.nextHop = d.nextHop ∧ d'.cost = d.cost

theorem MayPublish.rehash {db db' : LsDb} {fib : ForwardingTable} (h : db.MayPublish fib)
    (hre : Rehash db db') : db'.MayPublish fib := by
  obtain ⟨d, d', hd, hfib⟩ := h
  exact ⟨d, d', hre.symm.trans hd, hfib⟩

/-- A table stays current while paths, links, routes and the bodies of the records do. -/
theorem MayPublish.of_same {db db' : LsDb} {fib : ForwardingTable} (h : db.MayPublish fib)
    (hs : SameTables db db') {f : LsaKey → LsaRecord → LsaRecord}
    (hbody : ∀ k r, (f k r).lsa.body = r.lsa.body) (hdb : db'.db = db.db.mapValues f) :
    db'.MayPublish fib := by
  obtain ⟨d, d', hre, hfib, hhop, hcost⟩ := h
  obtain ⟨s, hspf, rfl, htable⟩ := buildFib_eq_some_iff.mp hfib
  let d₁ : LsDb := { db' with
    db := d.db.mapValues f, links := d.links, nextHop := d.nextHop, cost := d.cost, routes := d.routes }
  have hself : d₁.selfId = d.selfId := hs.selfId.trans hre.selfId.symm
  have hre₁ : Rehash db' d₁ := by
    refine ⟨?_, ?_, .refl _, ?_, ?_, .refl _, ?_, rfl⟩
    · rw [hdb]
      exact hre.records.map _
    · rw [hs.links]
      exact hre.links
    · rw [hs.hops]
      exact hre.hops
    · rw [hs.costs]
      exact hre.costs
    · rw [hs.routes]
      exact hre.routes
  refine ⟨d₁, _, hre₁, buildFib_eq_some_iff.mpr ⟨s, ?_, rfl, ?_⟩, hhop, hcost⟩
  · rw [hself, ← hspf]
    exact spf_mapValues hbody _ _ _
  · rw [← htable]
    exact SameTables.buildFromDb ⟨hself, rfl, rfl, rfl, rfl⟩

/-- A table that was just built may be published again. -/
theorem mayPublish_of_buildFib {db db' : LsDb} {fib : ForwardingTable}
    (h : db.buildFib = some (db', fib)) : db'.MayPublish fib := by
  obtain ⟨s, hs, rfl, htable⟩ := buildFib_eq_some_iff.mp h
  exact ⟨_, _, .refl _, buildFib_eq_some_iff.mpr ⟨s, hs, rfl, htable⟩, rfl, rfl⟩

/-- Nothing but times and the pending acknowledgements changes. -/
theorem MayPublish.of_frame {db db' : LsDb} {fib : ForwardingTable} (h : db.MayPublish fib)
    (hs : SameTables db db') (hdb : db'.db = db.db) : db'.MayPublish fib := by
  refine h.of_same hs (f := fun _ r => r) (fun _ _ => rfl) ?_
  rw [hdb]
  exact AList.ext (List.map_id' _).symm

/-- A purge that finds nothing changes nothing. -/
theorem purgeStaleLsas_of_clean {db : LsDb} {now : Instant} (h : (db.purgeStaleLsas now).2 = false) :
    (db.purgeStaleLsas now).1 = db := by
  obtain ⟨-, heq⟩ | ⟨key, -, heq⟩ := purgeStaleLsas_cases db now
  · rw [heq]
  · rw [heq] at h
    cases h

/-- A refresh that does not ask for a new table keeps the published one current. -/
theorem MayPublish.refreshAndPurgeLsas {db db' : LsDb} {w w' : Wires} {now : Instant}
    {fib : ForwardingTable} (h : db.MayPublish fib)
    (hr : db.refreshAndPurgeLsas w now = some (db', w')) (hquiet : db'.rebuildRequested = none) :
    db'.MayPublish fib := by
  obtain ⟨⟨p, hp⟩, _⟩ := (db.refreshAll now).floodEach_spec w (db.refreshedLsas now)
  unfold LsDb.refreshAndPurgeLsas at hr
  simp only [hp] at hr
  split at hr
  · split at hr
    · -- A purged record asks for a new table.
      simp only [Option.some.injEq, Prod.mk.injEq] at hr
      obtain ⟨rfl, rfl⟩ := hr
      simp [requestRebuild] at hquiet
    · cases hr
  · next hclean =>
    simp only [Option.some.injEq, Prod.mk.injEq] at hr
    obtain ⟨rfl, rfl⟩ := hr
    rw [purgeStaleLsas_of_clean (by simpa using hclean)]
    exact h.of_same ⟨rfl, rfl, rfl, rfl, rfl⟩ (fun _ r => db.refreshed_body now r) rfl

/-- A timer that does not ask for a new table keeps the published one current. -/
theorem MayPublish.tick {db db' : LsDb} {w w' : Wires} {now : Instant} {fib : ForwardingTable}
    (h : db.MayPublish fib) (ht : db.tick w now = some (db', w', false)) : db'.MayPublish fib := by
  unfold LsDb.tick at ht
  simp only at ht
  have h₁ : ({ db with lastTick := now } : LsDb).MayPublish fib := h.of_frame ⟨rfl, rfl, rfl, rfl, rfl⟩ rfl
  have hquiet : ∀ {d : LsDb} {v : Wires},
      (if d.rebuildRequested.isSome then some ({ d with rebuildRequested := none }, v, true)
        else some (d, v, false)) = some (db', w', false) → db' = d ∧ d.rebuildRequested = none := by
    intro d v heq
    split at heq
    · simp at heq
    · next hnone =>
      simp only [Option.some.injEq, Prod.mk.injEq] at heq
      exact ⟨heq.1.symm, by simpa using hnone⟩
  by_cases hdue : db.lastRefresh + db.lsaTimeout / 3 < now
  · rw [if_pos hdue] at ht
    cases hr : ({ db with lastTick := now } : LsDb).refreshAndPurgeLsas w now with
    | none => simp [hr] at ht
    | some r =>
      simp only [hr] at ht
      obtain ⟨rfl, hnone⟩ := hquiet ht
      exact h₁.refreshAndPurgeLsas hr hnone
  · rw [if_neg hdue] at ht
    obtain ⟨rfl, _⟩ := hquiet ht
    exact h₁

end LsDb

namespace Router

/-- What holds in every state of a run: a published table is current, unless the router
is about to build a new one or to end. -/
def Current (st : RouterState) (router : Router) (published : Bool) : Prop :=
  match st with
  | .routeChange _ => True
  | .shutdown => True
  | _ => published = true → router.lsdb.MayPublish router.fib

/-- A request that is refused leaves the database as it is. -/
theorem addEndpoint_refused {db : LsDb} {w : Wires} {request : RegistrationRequest} {now : Instant}
    (h : (db.addEndpoint w request now).2.2 = false) : (db.addEndpoint w request now).1 = db := by
  unfold LsDb.addEndpoint at h ⊢
  cases hadd : db.routes.addEndpoint request.endpointId request.endpointInfo request.sender with
  | error e => rfl
  | ok r =>
    obtain ⟨routes, effect⟩ := r
    cases effect <;> simp [hadd] at h

/-- After a message the router waits, registers the requested endpoint, or is about to
build a new table or to end. -/
theorem handleBrokerMsg_state {router router' : Router} {w w' : Wires} {now : Instant}
    {msg : RouterMsg} {st : RouterState} (h : router.handleBrokerMsg w now msg = some (st, router', w')) :
    st = .listen ∨
      (∃ request, msg = .registerEndpoint request ∧ st = .registerEndpoint request ∧ router' = router) ∨
      (st = .routeChange none ∨ st = .shutdown) := by
  cases msg with
  | registerEndpoint request =>
    simp only [Router.handleBrokerMsg, Option.some.injEq, Prod.mk.injEq] at h
    exact Or.inr (Or.inl ⟨request, rfl, h.1.symm, h.2.1.symm⟩)
  | setAnycastCost endpointId sender cost reply =>
    simp only [Router.handleBrokerMsg] at h
    split at h
    · exact Or.inl (Prod.mk.inj (Option.some.inj h)).1.symm
    · exact Or.inr (Or.inr (Or.inl (Prod.mk.inj (Option.some.inj h)).1.symm))
    · exact Or.inl (Prod.mk.inj (Option.some.inj h)).1.symm
  | lsaAckInbound sender key seq => exact Or.inl (Prod.mk.inj (Option.some.inj h)).1.symm
  | deadLink endpointId => exact Or.inr (Or.inr (Or.inl (Prod.mk.inj (Option.some.inj h)).1.symm))
  | registerPeer peerId connectionId peerTx cost realms =>
    exact Or.inr (Or.inr (Or.inl (Prod.mk.inj (Option.some.inj h)).1.symm))
  | unRegisterPeer connectionId =>
    obtain ⟨r, _, heq⟩ := Option.map_eq_some_iff.mp h
    exact Or.inr (Or.inr (Or.inl (Prod.mk.inj heq).1.symm))
  | lsaInbound sender lsa =>
    obtain ⟨r, _, heq⟩ := Option.map_eq_some_iff.mp h
    exact Or.inr (Or.inr (Or.inl (Prod.mk.inj heq).1.symm))
  | shutdown => exact Or.inr (Or.inr (Or.inr (Prod.mk.inj (Option.some.inj h)).1.symm))

/-- A message that leads straight back to waiting touches nothing but the LSAs that wait
for an acknowledgement. -/
theorem handleBrokerMsg_listen {router router' : Router} {w w' : Wires} {now : Instant}
    {msg : RouterMsg} (hm : router.handleBrokerMsg w now msg = some (.listen, router', w')) :
    router'.fib = router.fib ∧ ∃ p, router'.lsdb = { router.lsdb with pendingTx := p } := by
  cases msg with
  | registerEndpoint request => simp [Router.handleBrokerMsg] at hm
  | deadLink endpointId => simp [Router.handleBrokerMsg] at hm
  | registerPeer peerId connectionId peerTx cost realms => simp [Router.handleBrokerMsg] at hm
  | unRegisterPeer connectionId => simp [Router.handleBrokerMsg] at hm
  | lsaInbound sender lsa => simp [Router.handleBrokerMsg] at hm
  | lsaAckInbound sender key seq =>
    simp only [Router.handleBrokerMsg, Option.some.injEq, Prod.mk.injEq, true_and] at hm
    obtain ⟨rfl, rfl⟩ := hm
    exact ⟨rfl, LsDb.handleAck_frame router.lsdb sender key seq⟩
  | setAnycastCost endpointId sender cost reply =>
    simp only [Router.handleBrokerMsg] at hm
    cases hset : router.lsdb.setAnycastCost endpointId sender cost with
    | error e =>
      simp only [hset, Option.some.injEq, Prod.mk.injEq, true_and] at hm
      obtain ⟨rfl, rfl⟩ := hm
      exact ⟨rfl, _, rfl⟩
    | ok r =>
      obtain ⟨lsdb, outcome⟩ := r
      cases outcome with
      | changed previous new advertise => simp [hset] at hm
      | unchanged =>
        simp only [hset, Option.some.injEq, Prod.mk.injEq, true_and] at hm
        obtain ⟨rfl, rfl⟩ := hm
        have hsame : lsdb = router.lsdb := by
          unfold LsDb.setAnycastCost at hset
          split at hset
          · next hroutes =>
            simp only [Except.ok.injEq, Prod.mk.injEq] at hset
            obtain ⟨rfl, rfl⟩ := hset
            rcases RouteTable.setAnycastCost_cases hroutes with ⟨rfl, _⟩ | ⟨_, _, _, _, _, _, hout⟩
            · rfl
            · cases hout
          · cases hset
        rw [hsame]
        exact ⟨rfl, _, rfl⟩
  | shutdown => simp [Router.handleBrokerMsg] at hm

/-- A message that leads straight back to waiting leaves the published table current. -/
theorem mayPublish_handleBrokerMsg {router router' : Router} {w w' : Wires} {now : Instant}
    {msg : RouterMsg} (h : router.lsdb.MayPublish router.fib)
    (hm : router.handleBrokerMsg w now msg = some (.listen, router', w')) :
    router'.lsdb.MayPublish router'.fib := by
  obtain ⟨hfib, p, hp⟩ := handleBrokerMsg_listen hm
  rw [hfib, hp]
  exact h.of_frame ⟨rfl, rfl, rfl, rfl, rfl⟩ rfl

/-- One turn of the main loop. -/
theorem Current.next {st st' : RouterState} {router router' : Router} {published : Bool}
    {w w' : Wires} {now : Instant} {wake : Wake} (h : Current st router published)
    (hn : router.next w now wake st = some (some st', router', w')) :
    Current st' router' (published || st.publishes) := by
  cases st with
  | start =>
    simp only [Router.next, Option.some.injEq, Prod.mk.injEq] at hn
    obtain ⟨rfl, rfl, _⟩ := hn
    simpa [Current, RouterState.publishes] using h
  | listen =>
    cases wake with
    | message msg =>
      simp only [Router.next, Option.some.injEq, Prod.mk.injEq] at hn
      obtain ⟨rfl, rfl, _⟩ := hn
      simpa [Current, RouterState.publishes] using h
    | channelClosed =>
      simp only [Router.next, Option.some.injEq, Prod.mk.injEq] at hn
      obtain ⟨rfl, rfl, _⟩ := hn
      trivial
    | timer =>
      simp only [Router.next, Option.some.injEq, Prod.mk.injEq] at hn
      obtain ⟨rfl, rfl, _⟩ := hn
      simpa [Current, RouterState.publishes] using h
  | handleBrokerMsg msg =>
    simp only [Router.next, Option.map_eq_some_iff, Prod.mk.injEq, Option.some.injEq] at hn
    obtain ⟨⟨_, _, _⟩, hm, rfl, rfl, rfl⟩ := hn
    rcases handleBrokerMsg_state hm with rfl | ⟨request, _, rfl, rfl⟩ | hbuild
    · intro hp
      exact mayPublish_handleBrokerMsg (h (by simpa [RouterState.publishes] using hp)) hm
    · intro hp
      exact h (by simpa [RouterState.publishes] using hp)
    · rcases hbuild with rfl | rfl <;> trivial
  | registerEndpoint request =>
    simp only [Router.next] at hn
    cases hok : (router.lsdb.addEndpoint w request now).2.2 with
    | true =>
      simp only [hok, if_true, Option.some.injEq, Prod.mk.injEq] at hn
      obtain ⟨rfl, rfl, _⟩ := hn
      trivial
    | false =>
      simp only [hok, Bool.false_eq_true, if_false, Option.some.injEq, Prod.mk.injEq] at hn
      obtain ⟨rfl, rfl, _⟩ := hn
      intro hp
      rw [addEndpoint_refused hok]
      exact h (by simpa [RouterState.publishes] using hp)
  | routeChange notify =>
    simp only [Router.next, Option.map_eq_some_iff, Prod.mk.injEq, Option.some.injEq] at hn
    obtain ⟨⟨lsdb, fib⟩, hfib, rfl, rfl, _⟩ := hn
    intro _
    exact LsDb.mayPublish_of_buildFib hfib
  | tick =>
    simp only [Router.next, Option.map_eq_some_iff, Prod.mk.injEq, Option.some.injEq] at hn
    obtain ⟨⟨lsdb, v, rebuild⟩, ht, rfl, rfl, _⟩ := hn
    cases rebuild with
    | true => trivial
    | false =>
      intro hp
      exact (h (by simpa [RouterState.publishes] using hp)).tick ht
  | shutdown => simp [Router.next] at hn

/-- Whenever the router waits, the table it has published is a possible result of
building it from the current database. -/
theorem published_current (nodeId : NodeId) (router : Router)
    (h : Reaches (fun _ _ => True) nodeId .listen router true) :
    router.lsdb.MayPublish router.fib := by
  have hinv : ∀ {st router published}, Reaches (fun _ _ => True) nodeId st router published →
      Current st router published := by
    intro st router published hr
    induction hr with
    | new now => exact fun hp => by cases hp
    | @rehash st router published lsdb _ hre ih =>
      cases st with
      | routeChange notify => trivial
      | shutdown => trivial
      | start => exact fun hp => (ih hp).rehash hre
      | listen => exact fun hp => (ih hp).rehash hre
      | handleBrokerMsg msg => exact fun hp => (ih hp).rehash hre
      | registerEndpoint request => exact fun hp => (ih hp).rehash hre
      | tick => exact fun hp => (ih hp).rehash hre
    | next now wake _ _ hn ih => exact ih.next hn
  exact hinv h rfl

end Router

/-- A listener of node 1 on a broadcast endpoint. -/
def broadcastFive : RegistrationRequest := ⟨5, ⟨.broadcast, .global, 0⟩, 7⟩

/-- After its first registration a router waits with a current table. -/
theorem published_current_after_registration :
    ∃ router, Router.Reaches (fun _ _ => True) 1 .listen router true ∧
      router.lsdb.MayPublish router.fib := by
  have hstart : Router.Reaches (fun _ _ => True) 1 .start (.new 1 0) false := .new 0
  have hlisten := hstart.next (w := .idle 32) 0 .timer (fun _ _ => trivial) rfl
  have hmsg := hlisten.next (w := .idle 32) 0 (.message (.registerEndpoint broadcastFive))
    (fun _ _ => trivial) rfl
  have hregister := hmsg.next (w := .idle 32) 0 .timer (fun _ _ => trivial) rfl
  have hchange := hregister.next (w := .idle 32) 0 .timer (fun _ _ => trivial) rfl
  have hsome : ((LsDb.new 1 0).addEndpoint (.idle 32) broadcastFive 0).1.buildFib.isSome := by
    decide +kernel
  obtain ⟨⟨lsdb, fib⟩, hfib⟩ := Option.isSome_iff_exists.mp hsome
  have hbuild : Router.next ⟨((LsDb.new 1 0).addEndpoint (.idle 32) broadcastFive 0).1, .new 1, []⟩
      (.idle 32) 0 .timer (.routeChange (some broadcastFive)) = some (some .listen, ⟨lsdb, fib, []⟩,
        (Wires.idle 32).offerClient 7 (.successfulRegistration 5)) := by
    simp only [Router.next, hfib]
    rfl
  have hdone := hchange.next 0 .timer (fun _ _ => trivial) hbuild
  exact ⟨_, hdone, Router.published_current 1 _ hdone⟩

end Anybus
