import Anybus.Receivers.Builder
import Anybus.Router.Crash
import Anybus.Router.Registration

/-!
# A router that hears of no multicast never panics

Nothing that the router does on its own can panic: whatever clients register through their
handles, however they change costs and leave, whatever sessions come and go under connections
that are not in use, and whatever time passes. Of the LSAs that come in, only a multicast
advertisement that is news makes the router panic.
-/

namespace Anybus

namespace LsDb

section Total

variable {db db' : LsDb} {w w' : Wires} {now : Instant}

/-- The path computation does not panic after any change of a sound database. -/
theorem Sound.computeSpf_total {op : Op} (h : db.Sound)
    (hfresh : ∀ link, op = .addPeer link → db.links.get link.connectionId = none)
    (hchange : Change db w now op db'.parts) (hself : db'.selfId = db.selfId) :
    ∃ d, db'.computeSpf db'.selfId = some d := by
  obtain ⟨hkey, hreach⟩ := h.of_change hfresh hself hchange
  obtain ⟨s, hs, -⟩ := spf_hops (linksReach_of_own hkey hreach).linksCover
  exact ⟨_, computeSpf_eq_some_iff.mpr ⟨s, hs, rfl⟩⟩

theorem Sound.removePeer_total (h : db.Sound) (w : Wires) (c : ConnectionId) (now : Instant) :
    ∃ r, db.removePeer w c now = some r := by
  unfold removePeer
  cases hc : db.links.get c with
  | none => exact ⟨_, rfl⟩
  | some link =>
    obtain ⟨hparts, hself⟩ := dropAdjacency_parts { db with links := db.links.erase c } w now c
    have hchange : Change db w now (.removePeer c)
        (({ db with links := db.links.erase c } : LsDb).dropAdjacency w c now).1.parts := by
      rw [hparts]
      exact .removePeer hc
    have hfresh : ∀ link, Op.removePeer c = .addPeer link → db.links.get link.connectionId = none := by
      intro link hop
      cases hop
    obtain ⟨d, hd⟩ := h.computeSpf_total hfresh hchange hself
    simp only [hd]
    exact ⟨_, rfl⟩

theorem Sound.refreshAndPurgeLsas_total (h : db.Sound) (w : Wires) (now : Instant) :
    ∃ r, db.refreshAndPurgeLsas w now = some r := by
  obtain ⟨⟨p, hp⟩, -⟩ := (db.refreshAll now).floodEach_spec w (db.refreshedLsas now)
  unfold refreshAndPurgeLsas
  simp only [hp]
  obtain ⟨-, heq⟩ | ⟨key, hkey, heq⟩ :=
    purgeStaleLsas_cases { db.refreshAll now with pendingTx := p } now
  · rw [heq]
    exact ⟨_, rfl⟩
  · have hchange : Change db w now .tick
        ({ db.refreshAll now with pendingTx := p, db := (db.refreshAll now).db.erase key } : LsDb).parts :=
      .tick (.inr ⟨key, hkey, rfl⟩)
    have hfresh : ∀ link, Op.tick = .addPeer link → db.links.get link.connectionId = none := by
      intro link hop
      cases hop
    obtain ⟨d, hd⟩ := h.computeSpf_total hfresh hchange rfl
    rw [heq]
    simp only [if_true, hd]
    exact ⟨_, rfl⟩

theorem Sound.tick_total (h : db.Sound) (w : Wires) (now : Instant) : ∃ r, db.tick w now = some r := by
  have htick : ({ db with lastTick := now } : LsDb).Sound :=
    ⟨⟨h.ok.record_key, h.ok.link_id⟩, h.own_key, h.reach⟩
  obtain ⟨⟨d, v⟩, hr⟩ : ∃ r, (if db.lastRefresh + db.lsaTimeout / 3 < now then
      ({ db with lastTick := now } : LsDb).refreshAndPurgeLsas w now
      else some ({ db with lastTick := now }, w)) = some r := by
    split
    · exact htick.refreshAndPurgeLsas_total w now
    · exact ⟨_, rfl⟩
  unfold tick
  simp only [hr]
  split
  · exact ⟨_, rfl⟩
  · exact ⟨_, rfl⟩

/-- Only a registration of a multicast endpoint and an LSA that advertises one create a
multicast entry. -/
theorem NoMulticast.step {op : Op} (hno : db.NoMulticast)
    (hrequest : ∀ request, op = .addEndpoint request → request.endpointInfo.kind ≠ .multicast)
    (hlsa : ∀ lsa c, op = .handleLsa lsa c → ¬ db.Crashes lsa)
    (hstep : db.step w now op = some (db', w')) : db'.NoMulticast := by
  obtain ⟨-, hchange⟩ := step_change hstep
  generalize hp : db'.parts = p at hchange
  have hroutes : db'.routes = p.routes := congrArg Parts.routes hp
  intro e hk
  rw [hroutes] at hk
  cases hchange with
  | quiet | addPeer | removePeer | tick => exact hno e hk
  | @addEndpoint request t effect hadd =>
    rw [RouteTable.kindAt_addEndpoint hadd] at hk
    split at hk
    · exact hrequest request rfl (Option.some.inj hk)
    · exact hno e hk
  | removeEndpoint e' => exact hno e (RouteTable.kindAt_of_removeEndpoint hk)
  | setAnycastCost hset =>
    rw [RouteTable.kindAt_setAnycastCost hset] at hk
    exact hno e hk
  | @handleLsa lsa c _ _ hh => exact (hh.noMulticast_iff hno).mpr (hlsa lsa c rfl) e hk
  | shutdown => cases hk

end Total

end LsDb

/-- The registrations that the functions of a handle make on a new channel. -/
inductive Handle.Registers (sender : Sender) : RegistrationRequest → Prop where
  | anycast (e : EndpointId) : Registers sender (Handle.registerAnycastUuid e sender)
  | unicast (e : EndpointId) : Registers sender (Handle.registerUnicastUuid e sender)
  | broadcast (e : EndpointId) : Registers sender (Handle.registerBroadcastUuid e sender)
  | rpc (e : EndpointId) : Registers sender (Handle.registerRpcUuid e sender)
  | anycastRpc (e : EndpointId) : Registers sender (Handle.registerAnycastRpcUuid e sender)
  | rpcHelper (e : EndpointId) : Registers sender (Handle.rpcHelper e sender)
  | built {calls : List BuilderCall} {b : RegistrationBuilder} {request : RegistrationRequest}
      (uuid : EndpointId) (hb : RegistrationBuilder.chain calls = some b)
      (hr : b.register uuid sender = .request request) : Registers sender request

/-- None of them is for a multicast endpoint. -/
theorem Handle.Registers.kind_ne {sender : Sender} {request : RegistrationRequest}
    (h : Handle.Registers sender request) : request.endpointInfo.kind ≠ .multicast := by
  cases h with
  | anycast | unicast | broadcast | rpc | anycastRpc | rpcHelper => exact fun heq => by cases heq
  | @built calls b _ uuid hb hr =>
    rw [(RegistrationBuilder.holds_of_chain hb).request_of_register hr]
    exact (RegistrationBuilder.holds_of_chain hb).kind_ne uuid sender

namespace Router

/-- Registrations come from handles, sessions from the connection counter, and no LSA
advertises a multicast endpoint anew. -/
def Harmless (router : Router) : RouterMsg → Prop
  | .registerEndpoint request => Handle.Registers request.sender request
  | .lsaInbound _ lsa => ¬ router.lsdb.Crashes lsa
  | .registerPeer _ connectionId _ _ _ => router.lsdb.links.get connectionId = none
  | _ => True

/-- What holds in every state of such a run. -/
structure Safe (st : RouterState) (router : Router) : Prop where
  sound : router.lsdb.Sound
  noMulticast : router.lsdb.NoMulticast
  registers : ∀ request, st = .registerEndpoint request → Handle.Registers request.sender request

section Safe

variable {router router' : Router} {w w' : Wires} {now : Instant} {wake : Wake} {st st' : RouterState}

/-- No turn panics when database and registration are in order. -/
theorem Safe.next_total (h : Safe st router) (w : Wires) (now : Instant) (wake : Wake) :
    ∃ r, router.next w now wake st = some r := by
  cases st with
  | start | shutdown => exact ⟨_, rfl⟩
  | listen =>
    cases wake with
    | message | channelClosed | timer => exact ⟨_, rfl⟩
  | registerEndpoint request =>
    simp only [Router.next]
    split
    · exact ⟨_, rfl⟩
    · exact ⟨_, rfl⟩
  | tick =>
    obtain ⟨r, hr⟩ := h.sound.tick_total w now
    simp only [Router.next, hr, Option.map_some]
    exact ⟨_, rfl⟩
  | routeChange notify =>
    obtain ⟨r, hr⟩ := (LsDb.buildFib_isSome_iff h.sound).mpr h.noMulticast
    simp only [Router.next, hr, Option.map_some]
    exact ⟨_, rfl⟩
  | handleBrokerMsg msg =>
    obtain ⟨r, hr⟩ : ∃ r, router.handleBrokerMsg w now msg = some r := by
      cases msg with
      | registerEndpoint | deadLink | registerPeer | lsaAckInbound | shutdown => exact ⟨_, rfl⟩
      | unRegisterPeer c =>
        obtain ⟨r, hr⟩ := h.sound.removePeer_total w c now
        simp only [Router.handleBrokerMsg, hr, Option.map_some]
        exact ⟨_, rfl⟩
      | lsaInbound c lsa =>
        obtain ⟨d, v, hd⟩ := LsDb.handleLsa_total h.sound.linksReach w lsa c now
        simp only [Router.handleBrokerMsg, hd, Option.map_some]
        exact ⟨_, rfl⟩
      | setAnycastCost e sender cost reply =>
        simp only [Router.handleBrokerMsg]
        split
        · exact ⟨_, rfl⟩
        · exact ⟨_, rfl⟩
        · exact ⟨_, rfl⟩
    simp only [Router.next, hr, Option.map_some]
    exact ⟨_, rfl⟩

/-- A turn keeps them in order. -/
theorem Safe.next (h : Safe st router)
    (hmsg : ∀ msg, st = .handleBrokerMsg msg → router.Harmless msg)
    (hn : router.next w now wake st = some (some st', router', w')) : Safe st' router' := by
  have hunused : ∀ msg, st = .handleBrokerMsg msg → router.TakesUnused msg := by
    intro msg hst
    have hharmless := hmsg msg hst
    cases msg with
    | registerPeer => exact hharmless
    | registerEndpoint | deadLink | unRegisterPeer | lsaInbound | lsaAckInbound | setAnycastCost
    | shutdown => trivial
  refine ⟨sound_next h.sound hunused hn, ?_, fun request hst' => ?_⟩
  · obtain ⟨v, hop, -⟩ := next_op hn
    unfold Performs at hop
    split at hop
    · rw [hop.1]
      exact h.noMulticast
    · next op hst =>
      refine h.noMulticast.step (fun request heq => ?_) (fun lsa c heq => ?_) hop
      · subst heq
        cases st with
        | registerEndpoint request' =>
          obtain rfl := Op.addEndpoint.inj (Option.some.inj hst)
          exact (h.registers _ rfl).kind_ne
        | handleBrokerMsg msg => cases msg <;> cases hst
        | start | listen | routeChange | tick | shutdown => cases hst
      · subst heq
        cases st with
        | handleBrokerMsg msg =>
          have hharmless := hmsg msg rfl
          cases msg with
          | lsaInbound c' lsa' =>
            obtain ⟨rfl, -⟩ := Op.handleLsa.inj (Option.some.inj hst)
            exact hharmless
          | registerEndpoint | deadLink | registerPeer | unRegisterPeer | lsaAckInbound | setAnycastCost
          | shutdown => cases hst
        | start | listen | registerEndpoint | routeChange | tick | shutdown => cases hst
  · subst hst'
    exact hmsg _ (next_registers hn)

theorem Reaches.safe {nodeId : NodeId} {published : Bool}
    (h : Reaches Harmless nodeId st router published) : Safe st router := by
  induction h with
  | new now =>
    refine ⟨LsDb.Sound.new nodeId now, fun e hk => ?_, fun request hst => ?_⟩
    · cases hk
    · cases hst
  | rehash _ hre ih =>
    exact ⟨ih.sound.rehash hre, LsDb.NoMulticast.rehash ih.noMulticast hre, ih.registers⟩
  | next now wake _ hmsg hn ih => exact ih.next hmsg hn

end Safe

/-- In no run that clients, sessions and time can bring about does the router panic, whatever
its channels hold, as long as no LSA comes in that advertises a multicast endpoint anew. -/
theorem never_panics (nodeId : NodeId) (st : RouterState) (router : Router) (published : Bool)
    (h : Reaches Harmless nodeId st router published) (w : Wires) (now : Instant) (wake : Wake) :
    ∃ r, router.next w now wake st = some r := h.safe.next_total w now wake

/-- A service of several listeners, for programs of one user. -/
def sharedService : List BuilderCall :=
  [.realm .userspace, .rpc, .endpoint 5, .anycast, .cost ⟨2, Cost.two_le_max⟩]

def sharedRequest : RegistrationRequest := ⟨5, ⟨.anycast, .userspace, ⟨2, Cost.two_le_max⟩⟩, 7⟩

theorem sharedRequest_registers : Handle.Registers 7 sharedRequest := by
  have hb : RegistrationBuilder.chain sharedService =
      some ⟨.endpointSet 5, .userspace, .anycastSet, .rpcSet, ⟨2, Cost.two_le_max⟩⟩ := rfl
  exact .built 9 hb rfl

/-- The router gets through the route change after such a registration. -/
theorem shared_service_published : ∃ r,
    Router.next ⟨((LsDb.new 1 0).addEndpoint (.idle 32) sharedRequest 0).1, .new 1, []⟩ (.idle 32) 0 .timer
      (.routeChange (some sharedRequest)) = some r := by
  have hstart : Reaches Harmless 1 .start (.new 1 0) false := .new 0
  have hlisten := hstart.next (w := .idle 32) 0 .timer (by simp) rfl
  have hmsg := hlisten.next (w := .idle 32) 0 (.message (.registerEndpoint sharedRequest)) (by simp) rfl
  have hharmless : ∀ msg, RouterState.handleBrokerMsg (.registerEndpoint sharedRequest) =
      .handleBrokerMsg msg → (Router.new 1 0).Harmless msg := by
    intro msg hm
    obtain rfl := RouterState.handleBrokerMsg.inj hm
    exact sharedRequest_registers
  have hregister := hmsg.next (w := .idle 32) 0 .timer hharmless rfl
  have hchange := hregister.next (w := .idle 32) 0 .timer (by simp) rfl
  exact never_panics 1 _ _ _ hchange (.idle 32) 0 .timer

end Router

end Anybus
