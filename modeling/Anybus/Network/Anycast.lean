import Anybus.Db.AdvertisedCost
import Anybus.Db.RemoteRoutes
import Anybus.Network.Packets

/-!
# The listener an anycast packet reaches

Every node chooses among all listeners by its own distances and advertised costs, and
the next node chooses again. A choice either ends at a local listener or takes the first
edge of a best way, so what is left to pay from the next node is what is left here less
that edge: the least total from the source stays within reach until a listener has it.
-/

namespace Anybus

variable {ι : Type*}

/-- Some listener of an endpoint at a node has this cost. -/
def ListenerAt (db : ι → LsDb) (e : EndpointId) (n : NodeId) (c : ℕ) : Prop :=
  ∃ j, (db j).selfId = n ∧ ∃ route ∈ (db j).routes.localsOf e, route.cost.val = c

/-- An anycast endpoint whose advertisements have settled: all nodes hold the same LSAs
and the routes of its LSAs, every node advertises the least cost of its listeners, and no
total is as dear as infinity. -/
structure AnycastSettled (db : ι → LsDb) (e : EndpointId) : Prop where
  lsas : ∀ i j k, ((db i).db.get k).map LsaRecord.lsa = ((db j).db.get k).map LsaRecord.lsa
  kind : ∀ i re, (db i).routes.table.get e = some re → re.kind = .anycast
  body : ∀ i n r, (db i).db.get ⟨n, e⟩ = some r → ∃ info, r.lsa.body = .endpoint info
  routes : ∀ i n, n ≠ (db i).selfId →
    LsDb.RouteMatches ((db i).db.get ⟨n, e⟩) ((db i).routes.remotesOf e n)
  own : ∀ i, (db i).costAt e = (db i).routes.minAt e
  totals : ∀ i j d, ∀ route ∈ (db j).routes.localsOf e,
    (db i).spfGraph.dist (db i).selfId (db j).selfId = (d : ℕ) → route.cost.val + d < 65535

section

variable {db : ι → LsDb} {fib : ι → ForwardingTable} {wire : Wiring ι} {e : EndpointId}

/-- Every node that the paths of a node lead to is one of the network. -/
theorem Converged.exists_node (net : Converged db fib wire) {o i : ι} {u v : NodeId} {c : ℕ}
    (hu : u = (db i).selfId) (h : (db o).spfGraph.Walk u v c) : ∃ j, v = (db j).selfId := by
  induction h generalizing i with
  | nil u => exact ⟨i, hu⟩
  | @cons u x v a b hedge _ ih =>
    subst hu
    rw [net.spfGraph_eq o i] at hedge
    obtain ⟨adj, hadj, hpeer, _⟩ := LsDb.exists_ownAdjacency_of_edge hedge
    obtain ⟨link, hlink, _, hof, _⟩ := net.linksMatch i adj hadj
    exact ih (by rw [← hpeer, hof, ← (net.wired i _ link hlink).1])

namespace AnycastSettled

variable (any : AnycastSettled db e)

include any

/-- What a node advertises is what one of its listeners costs, and no listener costs less. -/
theorem advertised {i j : ι} {r : LsaRecord} {info : EndpointInfo}
    (hr : (db i).db.get ⟨(db j).selfId, e⟩ = some r) (hb : r.lsa.body = .endpoint info) :
    (∃ route ∈ (db j).routes.localsOf e, route.cost = info.cost) ∧
      ∀ route ∈ (db j).routes.localsOf e, info.cost ≤ route.cost := by
  have hlsa := any.lsas j i ⟨(db j).selfId, e⟩
  rw [hr, Option.map_some] at hlsa
  obtain ⟨r', hr', heq⟩ := Option.map_eq_some_iff.mp hlsa
  have hcost : (db j).costAt e = some info.cost := by
    rw [LsDb.costAt, hr', Option.bind_some, LsaRecord.cost, heq, hb]
  rw [any.own j] at hcost
  obtain ⟨hmem, hle⟩ := List.min?_eq_some_iff.mp hcost
  obtain ⟨route, hroute, hc⟩ := List.mem_map.mp hmem
  exact ⟨⟨route, hroute, hc⟩, fun route' h' => hle _ (List.mem_map_of_mem h')⟩

/-- A node with a listener advertises the endpoint. -/
theorem exists_lsa {j : ι} {route : LsRoute} (h : route ∈ (db j).routes.localsOf e) (i : ι) :
    ∃ r info, (db i).db.get ⟨(db j).selfId, e⟩ = some r ∧ r.lsa.body = .endpoint info := by
  have hne : (db j).routes.minAt e ≠ none := by
    intro hnone
    have hnil := List.map_eq_nil_iff.mp (List.min?_eq_none_iff.mp hnone)
    rw [← RouteTable.localsOf] at hnil
    rw [hnil] at h
    cases h
  rw [← any.own j] at hne
  obtain ⟨c, hc⟩ := Option.ne_none_iff_exists'.mp hne
  obtain ⟨r, hr, _⟩ := Option.bind_eq_some_iff.mp hc
  have hlsa := any.lsas i j ⟨(db j).selfId, e⟩
  rw [hr, Option.map_some] at hlsa
  obtain ⟨r', hr', _⟩ := Option.map_eq_some_iff.mp hlsa
  obtain ⟨info, hb⟩ := any.body i _ r' hr'
  exact ⟨r', info, hr', hb⟩

variable (net : Converged db fib wire)

include net

/-- Whatever listener can be reached, some usable route of a node is no dearer. -/
theorem exists_route {i : ι} {db' : LsDb} (hb : (db i).buildFib = some (db', fib i)) {re : LsRouteEntry}
    (hre : (db i).routes.table.get e = some re) {z : ℕ}
    (hz : (db i).spfGraph.Total (ListenerAt db e) (db i).selfId z) :
    ∃ route ∈ re.routes, ∃ t, db'.anycastTotal route = some t ∧ t.val ≤ z := by
  obtain ⟨u, c, d, ⟨j, rfl, listener, hlistener, rfl⟩, hwalk, rfl⟩ := hz
  obtain ⟨r, info, hr, hbody⟩ := any.exists_lsa hlistener i
  have hle := Cost.le_iff.mp ((any.advertised hr hbody).2 listener hlistener)
  have hroutes : (db i).routes.routesOf e = re.routes := by simp [RouteTable.routesOf, hre]
  by_cases hself : (db j).selfId = (db i).selfId
  · -- The listener is the node's own, and the node's cheapest one is at hand.
    rw [hself] at hr
    obtain ⟨⟨route, hroute, hcost⟩, _⟩ := any.advertised hr hbody
    obtain ⟨hmem, hloc⟩ := List.mem_filter.mp hroute
    rw [hroutes] at hmem
    refine ⟨route, hmem, route.cost, ?_, by rw [hcost]; omega⟩
    unfold LsDb.anycastTotal
    cases hv : route.via with
    | loc x => rfl
    | remote n => simp [hv, LsForwardTo.isLocal] at hloc
  · have hmatch := any.routes i (db j).selfId hself
    rw [hr] at hmatch
    obtain ⟨route, hone, hinfo⟩ := hmatch
    have hcost := (hinfo info hbody).1
    obtain ⟨hmem, hvia⟩ := List.mem_filter.mp
      (hone ▸ List.mem_singleton_self route : route ∈ (db i).routes.remotesOf e (db j).selfId)
    rw [hroutes] at hmem
    have hv : route.via = .remote (db j).selfId := by simpa [LsRoute.isRemoteOf] using hvia
    have hfin : (db i).spfGraph.dist (db i).selfId (db j).selfId ≠ ⊤ := by
      intro htop
      have hd := WGraph.dist_le hwalk
      rw [htop] at hd
      exact absurd hd (by simp)
    obtain ⟨a, hpath, ha, hmin⟩ := WGraph.exists_walk_eq_dist hfin
    have hshort := any.totals i j a listener hlistener ha
    have had := hmin d hwalk
    refine ⟨route, hmem, route.cost + ⟨a, by omega⟩, ?_, ?_⟩
    · exact (LsDb.anycastTotal_remote hb (net.linksMatch i) hv).mpr
        ⟨hself, a, by omega, hpath, hmin, rfl⟩
    · rw [Cost.add_val, hcost]
      change min 65535 (info.cost.val + a) ≤ _
      omega

/-- A route to another node stands for a listener there. -/
theorem total_of_route {i : ι} {n : NodeId} {route : LsRoute} (hne : n ≠ (db i).selfId)
    (hroute : route ∈ (db i).routes.routesOf e) (hv : route.via = .remote n) {d : ℕ}
    (hwalk : (db i).spfGraph.Walk (db i).selfId n d) : ListenerAt db e n route.cost.val := by
  obtain ⟨j, rfl⟩ := net.exists_node rfl hwalk
  have hmem : route ∈ (db i).routes.remotesOf e (db j).selfId :=
    List.mem_filter.mpr ⟨hroute, by simp [LsRoute.isRemoteOf, hv]⟩
  have hmatch := any.routes i (db j).selfId hne
  cases hr : (db i).db.get ⟨(db j).selfId, e⟩ with
  | none =>
    rw [hr] at hmatch
    rw [show (db i).routes.remotesOf e (db j).selfId = [] from hmatch] at hmem
    cases hmem
  | some r =>
    rw [hr] at hmatch
    obtain ⟨route', hone, hinfo⟩ := hmatch
    obtain rfl := List.mem_singleton.mp (hone ▸ hmem)
    obtain ⟨info, hbody⟩ := any.body i _ r hr
    obtain ⟨⟨listener, hlistener, hcost⟩, _⟩ := any.advertised hr hbody
    exact ⟨j, rfl, listener, hlistener, by rw [hcost, (hinfo info hbody).1]⟩

/-- The choice of a node is its cheapest listener, if no other is cheaper in total, or the
link that begins a best way. -/
theorem choice {i : ι} {entry : FibEntry} (he : (fib i).table.get e = some entry) :
    (∃ x, entry = .single (.loc x) ∧ ∃ route ∈ (db i).routes.localsOf e, route.via = .loc x ∧
      ∀ z, (db i).spfGraph.Total (ListenerAt db e) (db i).selfId z → route.cost.val ≤ z) ∨
    (∃ link, entry = .single (.remote link) ∧ (∃ c, (db i).links.get c = some link) ∧
      ∃ w y, (db i).spfGraph.Edge (db i).selfId link.peerId w ∧
        (db i).spfGraph.Total (ListenerAt db e) link.peerId y ∧
        ∀ z, (db i).spfGraph.Total (ListenerAt db e) (db i).selfId z → w + y ≤ z) := by
  obtain ⟨db', hb⟩ := net.built i
  have hentry := he
  rw [LsDb.table_of_built hb] at hentry
  obtain ⟨re, hre, _⟩ := Option.bind_eq_some_iff.mp hentry
  have hroutes : (db i).routes.routesOf e = re.routes := by simp [RouteTable.routesOf, hre]
  obtain ⟨route, hmem, total, htotal, hmin, hop, hfwd, rfl⟩ :=
    LsDb.table_anycast hb hre (any.kind i re hre) he
  have hbest : ∀ z, (db i).spfGraph.Total (ListenerAt db e) (db i).selfId z → total.val ≤ z := by
    intro z hz
    obtain ⟨route', hmem', t, ht, hle⟩ := any.exists_route net hb hre hz
    exact (Cost.le_iff.mp (hmin route' hmem' t ht)).trans hle
  cases hv : route.via with
  | loc x =>
    left
    have hx : hop = .loc x := by simpa [LsDb.fibForward, hv] using hfwd.symm
    have hcost : total = route.cost := by simpa [LsDb.anycastTotal, hv] using htotal.symm
    refine ⟨x, by rw [hx], route, ?_, hv, hcost ▸ hbest⟩
    exact List.mem_filter.mpr ⟨hroutes ▸ hmem, by simp [hv, LsForwardTo.isLocal]⟩
  | remote n =>
    right
    obtain ⟨hne, d, hlt, hwalk, hshort, ht⟩ :=
      (LsDb.anycastTotal_remote hb (net.linksMatch i) hv).mp htotal
    obtain ⟨link, hlink⟩ := LsDb.exists_nextHop hb (net.linksMatch i) hne hwalk hlt
    obtain ⟨_, hc, ⟨adj, hadj, hpeer, d', hrest, hfirst⟩, _⟩ :=
      LsDb.nextHop_spec hb (net.linksMatch i) hlink
    have hhop : hop = .remote link := by
      obtain ⟨s, _, hnext, hnext'⟩ := LsDb.nextHop_of_built hb
      rw [hnext, ← hnext'] at hlink
      simpa [LsDb.fibForward, hv, hlink] using hfwd.symm
    have hedge := LsDb.edge_of_mem_ownAdjacencies hadj
    rw [hpeer] at hedge
    have hsite := any.total_of_route net hne (hroutes ▸ hmem) hv hwalk
    have hd := hfirst d hwalk
    refine ⟨link, by rw [hhop], hc, adj.cost.val, route.cost.val + d', hedge,
      ⟨n, route.cost.val, d', hsite, hrest, rfl⟩, fun z hz => ?_⟩
    obtain ⟨j, rfl, listener, hlistener, hcost⟩ := hsite
    have hfin := any.totals i j d listener hlistener (WGraph.dist_eq hwalk hshort)
    have hle := hbest z hz
    omega

end AnycastSettled

namespace Transit

variable [DecidableEq ι]

/-- All copies are on best ways, and where one has come to a listener none is better. -/
structure Best (db : ι → LsDb) (e : EndpointId) (src : ι) (s : Transit ι) : Prop where
  flight : ∀ i t, s.flight i t ≠ [] → ∃ c link, (db i).links.get c = some link ∧ link.tx = t ∧
    ∃ a, (db src).spfGraph.KeepsBest (ListenerAt db e) (db src).selfId link.peerId a
  inbox : ∀ i x, s.inbox i x ≠ [] → ∃ route ∈ (db i).routes.localsOf e, route.via = .loc x ∧
    (∃ a, (db src).spfGraph.KeepsBest (ListenerAt db e) (db src).selfId (db i).selfId a) ∧
    ∀ z, (db src).spfGraph.Total (ListenerAt db e) (db i).selfId z → route.cost.val ≤ z

variable {src : ι} {s : Transit ι}

omit [DecidableEq ι] in
theorem Best.start : Best db e src start where
  flight _ _ h := absurd rfl h
  inbox _ _ h := absurd rfl h

/-- A node on a best way sends to where its choice leads. -/
theorem Best.post (net : Converged db fib wire) (any : AnycastSettled db e) (h : s.Best db e src)
    {i : ι} {a : ℕ}
    (hbest : (db src).spfGraph.KeepsBest (ListenerAt db e) (db src).selfId (db i).selfId a)
    {entry : FibEntry} (he : (fib i).table.get e = some entry) {w : Wires}
    (hnode : ∀ t, (w.node t).queue ≠ [] → t ∈ entry.remotes.map Link.tx)
    (hclient : ∀ x, (w.client x).queue ≠ [] → x ∈ entry.locals) : (s.post i w).Best db e src := by
  have hchoice := any.choice net he
  rw [net.spfGraph_eq i src] at hchoice
  refine ⟨fun j t ht => ?_, fun j x hx => ?_⟩
  · by_cases hold : s.flight j t = []
    · rw [post_flight, hold, List.nil_append] at ht
      split at ht
      · next hj =>
        subst hj
        have hmem := hnode t ht
        rcases hchoice with ⟨_, rfl, _⟩ | ⟨link, rfl, ⟨c, hc⟩, w', y, hedge, hy, hmin⟩
        · cases hmem
        · obtain rfl := List.mem_singleton.mp (show t ∈ [link.tx] from hmem)
          exact ⟨c, link, hc, rfl, _, hbest.next hedge hy hmin⟩
      · exact absurd rfl ht
    · exact h.flight j t hold
  · by_cases hold : s.inbox j x = []
    · rw [post_inbox, hold, List.nil_append] at hx
      split at hx
      · next hj =>
        subst hj
        have hmem := hclient x hx
        rcases hchoice with ⟨x', rfl, route, hroute, hv, hmin⟩ | ⟨_, rfl, _⟩
        · obtain rfl := List.mem_singleton.mp (show x ∈ [x'] from hmem)
          exact ⟨route, hroute, hv, ⟨a, hbest⟩, hmin⟩
        · cases hmem
      · exact absurd rfl hx
    · exact h.inbox j x hold

/-- Nothing is lost by sending nothing. -/
theorem Best.post_empty (h : s.Best db e src) (i : ι) {w : Wires} (hw : w.Empty) :
    (s.post i w).Best db e src where
  flight j t ht := by
    rw [post_flight, hw.1 t, ite_self, List.append_nil] at ht
    exact h.flight j t ht
  inbox j x hx := by
    rw [post_inbox, hw.2 x, ite_self, List.append_nil] at hx
    exact h.inbox j x hx

theorem Best.arrive (h : s.Best db e src) (fib : ι → ForwardingTable) (wire : Wiring ι) (i : ι)
    (t : Tx) (p : WirePacket) : (s.arrive fib wire i t p).Best db e src where
  flight j u hu := by
    apply h.flight j u
    intro hnil
    have hle := (arrive_flight_sublist s fib wire i t p j u).length_le
    rw [hnil] at hle
    exact hu (List.eq_nil_of_length_eq_zero (Nat.le_zero.mp hle))
  inbox := h.inbox

theorem Best.inject (net : Converged db fib wire) (any : AnycastSettled db e) {packet : Packet}
    (hto : packet.toAddress = .endpoint e) {w : Wires} (hw : w.Empty) :
    (inject fib src w packet).Best db e src := by
  unfold Transit.inject
  split
  · next w' hsend =>
    obtain ⟨entry, he, hnode, hclient⟩ := ForwardingTable.send_copies hsend
    obtain ⟨hn, hc⟩ := hw.meant hnode hclient
    rw [hto] at he
    exact Best.start.post net any (.start _) he hn hc
  · exact .start

theorem Best.deliver (net : Converged db fib wire) (any : AnycastSettled db e) (h : s.Best db e src)
    {i : ι} {t : Tx} {p : WirePacket} (hto : p.toAddress = .endpoint e) {w : Wires} (hw : w.Empty)
    (hp : .wirePacket p ∈ s.flight i t) : (s.deliver fib wire i t w p).Best db e src := by
  obtain ⟨c, link, hlink, rfl, a, hbest⟩ := h.flight i t (List.ne_nil_of_mem hp)
  rw [← (net.wired i c link hlink).1] at hbest
  have harr := h.arrive fib wire i link.tx p
  cases he : (fib (wire i link.tx).1).table.get
      (p.toAddress.getEndpoint (fib (wire i link.tx).1).ourId) with
  | none =>
    rw [Transit.deliver, ForwardingTable.forward_drops (Or.inr he)]
    exact harr.post_empty _ hw
  | some entry =>
    cases hacc : (fib (wire i link.tx).1).accepts p (wire i link.tx).2 with
    | false =>
      rw [Transit.deliver, ForwardingTable.forward_drops (Or.inl hacc)]
      exact harr.post_empty _ hw
    | true =>
      obtain ⟨hnode, hclient⟩ := ForwardingTable.forward_copies hacc he w
      obtain ⟨hn, hc⟩ := hw.meant hnode hclient
      rw [hto] at he
      exact harr.post net any hbest he
        (fun t ht => (List.filter_sublist.map Link.tx).subset (hn t ht)) hc

theorem Reaches.best (net : Converged db fib wire) (any : AnycastSettled db e) {packet : Packet}
    (hto : packet.toAddress = .endpoint e) (h : Reaches Wires.Empty fib wire src packet s) :
    s.Best db e src := by
  induction h with
  | inject hw => exact .inject net any hto hw
  | @deliver s hs i t w p hw hp ih =>
    obtain rfl := NodeMessage.wirePacket.inj ((hs.inv net).content i t _ hp)
    exact ih.deliver net any hto hw hp

/-- The listener an anycast packet reaches, over however many nodes, has the least total
cost of all listeners: its own cost and that of the shortest path from the source. -/
theorem anycast_reaches_cheapest (net : Converged db fib wire) (any : AnycastSettled db e)
    {packet : Packet} (hto : packet.toAddress = .endpoint e)
    (h : Reaches Wires.Empty fib wire src packet s) {i : ι} {x : Sender} (hx : s.inbox i x ≠ []) :
    ∃ route ∈ (db i).routes.localsOf e, route.via = .loc x ∧
      (db src).spfGraph.dist (db src).selfId (db i).selfId ≠ ⊤ ∧
      ∀ j, ∀ route' ∈ (db j).routes.localsOf e,
        (route.cost.val : ℕ∞) + (db src).spfGraph.dist (db src).selfId (db i).selfId ≤
          route'.cost.val + (db src).spfGraph.dist (db src).selfId (db j).selfId := by
  obtain ⟨route, hroute, hv, ⟨a, hbest⟩, hmin⟩ := (h.best net any hto).inbox i x hx
  refine ⟨route, hroute, hv, ?_, fun j route' hroute' => ?_⟩
  · exact ne_top_of_le_ne_top (ENat.natCast_ne_top a) (WGraph.dist_le hbest.1)
  · exact hbest.arrived hmin ⟨j, rfl, route', hroute', rfl⟩

end Transit

end

/-- The LSAs of the square with listeners of an anycast endpoint 8 at nodes 1 and 2. -/
def anycastLsas : HashMap LsaKey LsaRecord :=
  (squareLsas.insert ⟨1, 8⟩ ⟨⟨⟨1, 8⟩, 1, false, .endpoint ⟨.anycast, .global, ⟨5, Cost.five_le_max⟩⟩⟩, 0⟩).insert
    ⟨2, 8⟩ ⟨⟨⟨2, 8⟩, 1, false, .endpoint ⟨.anycast, .global, ⟨1, Cost.one_le_max⟩⟩⟩, 0⟩

/-- The routes of a corner to the two listeners. -/
def anycastRoutes (i : Fin 4) : List LsRoute :=
  [⟨if i = 0 then .loc 6 else .remote 1, ⟨5, Cost.five_le_max⟩, .global, .anycast⟩,
    ⟨if i = 1 then .loc 7 else .remote 2, ⟨1, Cost.one_le_max⟩, .global, .anycast⟩]

/-- A corner of the square that knows the two listeners. -/
def anycastDb (i : Fin 4) : LsDb :=
  { squareDb i with
    db := anycastLsas
    routes := ⟨(squareRoutes i).insert 8 ⟨anycastRoutes i, .anycast⟩⟩ }

/-- The forwarding table it builds. -/
def anycastFib (i : Fin 4) : ForwardingTable :=
  ((anycastDb i).buildFib.map Prod.snd).getD (.new (squareId i))

theorem anycast_converged : Converged anycastDb anycastFib squareWire := by
  have hsome : ∀ i, (anycastDb i).buildFib.isSome = true := by decide +kernel
  refine square_converged.of_routers (fun i => ?_) (fun i k => ?_) (fun i => rfl) (fun i => rfl) ?_
  · obtain ⟨⟨db', fib⟩, hb⟩ := Option.isSome_iff_exists.mp (hsome i)
    refine ⟨db', ?_⟩
    rw [anycastFib, hb]
    rfl
  · have hnone : squareLsas.get ⟨1, 8⟩ = none ∧ squareLsas.get ⟨2, 8⟩ = none := by decide +kernel
    change ((anycastLsas.get k).bind _) = ((squareLsas.get k).bind _)
    unfold anycastLsas
    rw [HashMap.get_insert, HashMap.get_insert]
    split
    · next hk => rw [hk, hnone.2]; rfl
    · split
      · next hk => rw [hk, hnone.1]; rfl
      · rfl
  · decide +kernel

theorem anycastDb_totals (i j : Fin 4) (d : ℕ)
    (h : (anycastDb i).spfGraph.dist (anycastDb i).selfId (anycastDb j).selfId = d) : d ≤ 3 := by
  have hall : ∀ i j, ∃ s, spf (anycastDb i).db (anycastDb i).links (anycastDb i).selfId = some s ∧
      s.label (anycastDb j).selfId ≤ 3 := by
    intro i j
    have hsome : ∀ i j, ((spf (anycastDb i).db (anycastDb i).links (anycastDb i).selfId).any
        fun s => decide (s.label (anycastDb j).selfId ≤ 3)) = true := by decide +kernel
    obtain ⟨s, hs, hle⟩ := (Option.any_eq_true _ _).mp (hsome i j)
    exact ⟨s, hs, of_decide_eq_true hle⟩
  obtain ⟨s, hs, hle⟩ := hall i j
  have hlabel := spf_label_eq hs (anycastDb j).selfId
  rw [show (routerGraph (routerLsas (anycastDb i).db)).dist _ _ = (d : ℕ∞) from h] at hlabel
  rcases min_choice ((65535 : ℕ) : ℕ∞) d with hm | hm
  · rw [hm] at hlabel
    have htop : s.label (anycastDb j).selfId = 65535 := by exact_mod_cast hlabel
    omega
  · rw [hm] at hlabel
    have hd : s.label (anycastDb j).selfId = d := by exact_mod_cast hlabel
    omega

theorem anycast_settled : AnycastSettled anycastDb 8 where
  lsas i j k := rfl
  kind i re hre := by
    have hall : ∀ i, ((anycastDb i).routes.table.get 8).map LsRouteEntry.kind = some .anycast := by
      decide +kernel
    have hk := hall i
    rw [hre] at hk
    exact Option.some.inj hk
  body i n r hr := by
    have hall : ∀ e ∈ anycastLsas.entries, e.1.endpointId = 8 →
        e.2.lsa.body = .endpoint ⟨.anycast, .global, ⟨5, by decide⟩⟩ ∨
          e.2.lsa.body = .endpoint ⟨.anycast, .global, ⟨1, by decide⟩⟩ := by decide +kernel
    rcases hall ⟨⟨n, 8⟩, r⟩ (HashMap.mem_entries_iff.mpr hr) rfl with h | h
    · exact ⟨_, h⟩
    · exact ⟨_, h⟩
  routes i n hne := by
    by_cases h₁ : n = 1
    · subst h₁
      have hall : ∀ i, 1 ≠ (anycastDb i).selfId → (anycastDb i).routes.remotesOf 8 1 =
          [⟨.remote 1, ⟨5, by decide⟩, .global, .anycast⟩] := by decide +kernel
      exact ⟨_, hall i hne, fun info hinfo => LsaBody.endpoint.inj hinfo ▸ ⟨rfl, rfl, rfl⟩⟩
    · by_cases h₂ : n = 2
      · subst h₂
        have hall : ∀ i, 2 ≠ (anycastDb i).selfId → (anycastDb i).routes.remotesOf 8 2 =
            [⟨.remote 2, ⟨1, by decide⟩, .global, .anycast⟩] := by decide +kernel
        exact ⟨_, hall i hne, fun info hinfo => LsaBody.endpoint.inj hinfo ▸ ⟨rfl, rfl, rfl⟩⟩
      · have hkeys : ∀ e ∈ anycastLsas.entries, e.1.endpointId = 8 → e.1.origin = 1 ∨ e.1.origin = 2 := by
          decide +kernel
        cases hr : (anycastDb i).db.get ⟨n, 8⟩ with
        | some r =>
          rcases hkeys ⟨⟨n, 8⟩, r⟩ (HashMap.mem_entries_iff.mpr hr) rfl with h | h
          · exact absurd h h₁
          · exact absurd h h₂
        | none =>
          have hvias : ∀ i, ∀ route ∈ (anycastDb i).routes.routesOf 8,
              route.via.isLocal ∨ route.via = .remote 1 ∨ route.via = .remote 2 := by decide +kernel
          apply List.filter_eq_nil_iff.mpr
          intro route hroute hof
          have hv : route.via = .remote n := by simpa [LsRoute.isRemoteOf] using hof
          have hvia := hvias i route hroute
          simp [hv, LsForwardTo.isLocal, h₁, h₂] at hvia
  own := by decide +kernel
  totals i j d route hroute hd := by
    have hle := anycastDb_totals i j d hd
    have hall : ∀ j, ∀ route ∈ (anycastDb j).routes.localsOf 8, route.cost.val ≤ 5 := by decide +kernel
    have hcost := hall j route hroute
    omega

/-- A packet of node 1 to the anycast endpoint. -/
def anycastPacket : Packet := ⟨.endpoint 8, none, 1, .bytes []⟩

/-- The packet has entered at node 1 and has got to node 2. -/
def anycastForwarded : Transit (Fin 4) :=
  (Transit.inject anycastFib 0 (.idle 32) anycastPacket).deliver anycastFib squareWire 0 0 (.idle 32)
    anycastPacket.toWire

/-- Node 1 passes over its own dear listener, and that of node 2 is the cheapest. -/
theorem anycast_reaches_two :
    anycastForwarded.inbox 1 7 ≠ [] ∧ ∃ route ∈ (anycastDb 1).routes.localsOf 8, route.via = .loc 7 ∧
      (anycastDb 0).spfGraph.dist (anycastDb 0).selfId (anycastDb 1).selfId ≠ ⊤ ∧
      ∀ j, ∀ route' ∈ (anycastDb j).routes.localsOf 8,
        (route.cost.val : ℕ∞) + (anycastDb 0).spfGraph.dist (anycastDb 0).selfId (anycastDb 1).selfId ≤
          route'.cost.val + (anycastDb 0).spfGraph.dist (anycastDb 0).selfId (anycastDb j).selfId := by
  have hreached : Transit.Reaches Wires.Empty anycastFib squareWire 0 anycastPacket anycastForwarded := by
    apply Transit.Reaches.deliver (.inject (Wires.empty_idle 32)) (Wires.empty_idle 32)
    decide +kernel
  have hinbox : anycastForwarded.inbox 1 7 ≠ [] := by decide +kernel
  exact ⟨hinbox,
    Transit.anycast_reaches_cheapest anycast_converged anycast_settled rfl hreached hinbox⟩

end Anybus
