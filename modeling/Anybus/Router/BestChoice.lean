import Anybus.Db.Panics
import Anybus.Router.Fib

/-!
# The forwarding table is the best choice among the routes

What the table should hold for an endpoint is said from its routes, the path costs and the
next hops alone: a usable anycast route of least total, the one unicast route if its node is
reached, and for a broadcast all listeners and each first-hop neighbour once. The choice
for a broadcast looks the neighbour up again, which is right because the next hop of a
first-hop neighbour is the link to it.
-/

namespace Anybus

/-- What the table builder relies on in an entry. -/
structure LsRouteEntry.Settled (entry : LsRouteEntry) : Prop where
  nonempty : entry.routes ≠ []
  kinds : ∀ r ∈ entry.routes, r.kind = entry.kind
  single : entry.kind = .unicast ∨ entry.kind = .node → entry.routes.length = 1
  noMulticast : entry.kind ≠ .multicast

namespace LsDb

/-- The costs and next hops are those of some path computation. -/
def FromSpf (lsdb : LsDb) : Prop :=
  ∃ (d d' : LsDb) (root : NodeId), d.computeSpf root = some d' ∧ lsdb.cost = d'.cost ∧
    lsdb.nextHop = d'.nextHop

/-- Whether an anycast route can be used: its listener is here, or its node has a finite
cost and a next hop. -/
def Usable (lsdb : LsDb) (route : LsRoute) : Prop :=
  match route.via with
  | .loc _ => True
  | .remote nodeId => (∃ path, lsdb.cost.get nodeId = some path ∧ path.val < 65535) ∧
      ∃ link, lsdb.nextHop.get nodeId = some link

/-- What a route costs in total. -/
def total (lsdb : LsDb) (route : LsRoute) : Nat :=
  match route.via with
  | .loc _ => route.cost.val
  | .remote nodeId => min 65535 (route.cost.val + (lsdb.costOf nodeId).val)

/-- The hop a route points to. -/
def Leads (lsdb : LsDb) (route : LsRoute) (hop : FibForwardTo) : Prop :=
  match route.via with
  | .loc sender => hop = .loc sender
  | .remote nodeId => ∃ link, lsdb.nextHop.get nodeId = some link ∧ hop = .remote link

/-- The first-hop neighbours among the nodes that the routes lead to. -/
def FirstHop (lsdb : LsDb) (routes : List LsRoute) (peer : NodeId) : Prop :=
  ∃ route ∈ routes, ∃ nodeId link, route.via = .remote nodeId ∧
    lsdb.nextHop.get nodeId = some link ∧ link.peerId = peer

/-- What the table should hold for an endpoint with the given routes. -/
def BestChoice (lsdb : LsDb) (entry : LsRouteEntry) (choice : Option FibEntry) : Prop :=
  match entry.kind with
  | .anycast => (choice.isSome ↔ ∃ route ∈ entry.routes, lsdb.Usable route) ∧
      ∀ f, choice = some f → ∃ route ∈ entry.routes, lsdb.Usable route ∧
        (∃ hop, lsdb.Leads route hop ∧ f = .single hop) ∧
        ∀ route' ∈ entry.routes, lsdb.Usable route' → lsdb.total route ≤ lsdb.total route'
  | .unicast | .node => ∀ route ∈ entry.routes, ∀ f,
      choice = some f ↔ ∃ hop, lsdb.Leads route hop ∧ f = .single hop
  | .broadcast => (choice = none ↔ entry.listeners = [] ∧ ∀ peer, ¬ lsdb.FirstHop entry.routes peer) ∧
      ∀ f, choice = some f → f.locals = entry.listeners ∧ (f.remotes.map Link.peerId).Nodup ∧
        (∀ peer, peer ∈ f.remotes.map Link.peerId ↔ lsdb.FirstHop entry.routes peer) ∧
        ∀ link ∈ f.remotes, lsdb.nextHop.get link.peerId = some link
  | .multicast => False

variable {lsdb : LsDb} {entry : LsRouteEntry}

theorem fibForward_eq_some_iff {route : LsRoute} {hop : FibForwardTo} :
    lsdb.fibForward route = some hop ↔ lsdb.Leads route hop := by
  unfold fibForward Leads
  cases route.via with
  | loc sender => simp [eq_comm]
  | remote nodeId => simp [eq_comm]

theorem anycastTotal_eq_some_iff {route : LsRoute} {t : Cost} :
    lsdb.anycastTotal route = some t ↔ lsdb.Usable route ∧ t.val = lsdb.total route := by
  unfold anycastTotal Usable total costOf
  cases route.via with
  | loc sender =>
    simp only [Option.some.injEq, true_and]
    exact ⟨fun h => congrArg Cost.val h.symm, fun h => (Cost.ext h).symm⟩
  | remote nodeId =>
    simp only
    cases hc : lsdb.cost.get nodeId with
    | none => simp
    | some path =>
      have hfinite : path ≠ Cost.max ↔ path.val < 65535 := by
        constructor
        · intro hne
          exact lt_of_le_of_ne path.le_max fun heq => hne (Cost.ext heq)
        · rintro hlt rfl
          exact absurd hlt (lt_irrefl _)
      cases hn : lsdb.nextHop.get nodeId with
      | none => simp
      | some link =>
        by_cases hmax : path = Cost.max
        · have hinf : ¬ path.val < 65535 := fun hlt => hfinite.mpr hlt hmax
          simp [hmax, Cost.max]
        · have hlt := hfinite.mp hmax
          simp only [if_neg hmax, Option.some.injEq, exists_eq_left', hlt, true_and, exists_eq',
            Option.getD_some]
          constructor
          · rintro rfl
            exact Cost.add_val _ _
          · intro heq
            exact Cost.ext (by rw [heq, Cost.add_val])

/-- The anycast choice is a usable route of least total, if there is a usable one. -/
theorem anycastChoice_spec (routes : List LsRoute) :
    ((lsdb.anycastChoice routes).isSome ↔ ∃ route ∈ routes, lsdb.Usable route) ∧
      ∀ route, lsdb.anycastChoice routes = some route → route ∈ routes ∧ lsdb.Usable route ∧
        ∀ route' ∈ routes, lsdb.Usable route' → lsdb.total route ≤ lsdb.total route' := by
  have hmem : ∀ total route, (total, route) ∈ routes.filterMap (fun route =>
      (lsdb.anycastTotal route).map fun total => (total, route)) ↔
      route ∈ routes ∧ lsdb.Usable route ∧ total.val = lsdb.total route := by
    intro total route
    simp only [List.mem_filterMap, Option.map_eq_some_iff, anycastTotal_eq_some_iff, Prod.mk.injEq]
    constructor
    · rintro ⟨_, hroute, _, hspec, rfl, rfl⟩
      exact ⟨hroute, hspec⟩
    · rintro ⟨hroute, hspec⟩
      exact ⟨route, hroute, total, hspec, rfl, rfl⟩
  -- A usable route has a total, since totals saturate.
  have htotal : ∀ route, lsdb.Usable route → ∃ t : Cost, t.val = lsdb.total route := by
    intro route _
    have hle : lsdb.total route ≤ 65535 := by
      unfold total
      cases route.via with
      | loc sender => exact route.cost.le_max
      | remote nodeId => exact min_le_left _ _
    exact ⟨⟨lsdb.total route, by omega⟩, rfl⟩
  unfold anycastChoice
  refine ⟨?_, fun route hroute => ?_⟩
  · rw [Option.isSome_map, Option.isSome_iff_ne_none, Ne, List.argmin_eq_none]
    constructor
    · intro hne
      obtain ⟨⟨t, route⟩, hin⟩ := List.exists_mem_of_ne_nil _ hne
      obtain ⟨hroute, hus, -⟩ := (hmem t route).mp hin
      exact ⟨route, hroute, hus⟩
    · rintro ⟨route, hroute, hus⟩
      obtain ⟨t, ht⟩ := htotal route hus
      exact List.ne_nil_of_mem ((hmem t route).mpr ⟨hroute, hus, ht⟩)
  · obtain ⟨⟨t, route'⟩, hmin, rfl⟩ := Option.map_eq_some_iff.mp hroute
    obtain ⟨hin, hus, ht⟩ := (hmem t route').mp (List.argmin_mem hmin)
    refine ⟨hin, hus, fun route₂ hin₂ hus₂ => ?_⟩
    obtain ⟨t₂, ht₂⟩ := htotal route₂ hus₂
    have hle := List.le_of_mem_argmin (a := (t₂, route₂)) ((hmem t₂ route₂).mpr ⟨hin₂, hus₂, ht₂⟩) hmin
    rw [← ht, ← ht₂]
    exact hle

/-- A usable route leads somewhere. -/
theorem Usable.leads {route : LsRoute} (h : lsdb.Usable route) : ∃ hop, lsdb.Leads route hop := by
  unfold Usable at h
  unfold Leads
  cases hv : route.via with
  | loc sender => exact ⟨_, rfl⟩
  | remote nodeId =>
    rw [hv] at h
    obtain ⟨-, link, hlink⟩ := h
    exact ⟨_, link, hlink, rfl⟩

theorem bestChoice_anycast (hk : entry.kind = .anycast) :
    lsdb.BestChoice entry (((lsdb.anycastChoice entry.routes).bind lsdb.fibForward).map .single) := by
  obtain ⟨hsome, hspec⟩ := lsdb.anycastChoice_spec entry.routes
  unfold BestChoice
  rw [hk]
  cases hchoice : lsdb.anycastChoice entry.routes with
  | none =>
    rw [hchoice] at hsome
    exact ⟨hsome, fun f hf => by cases hf⟩
  | some route =>
    obtain ⟨hin, hus, hmin⟩ := hspec route hchoice
    obtain ⟨hop, hleads⟩ := hus.leads
    rw [Option.bind_some, fibForward_eq_some_iff.mpr hleads]
    refine ⟨⟨fun _ => ⟨route, hin, hus⟩, fun _ => rfl⟩, fun f hf => ?_⟩
    cases hf
    exact ⟨route, hin, hus, ⟨hop, hleads, rfl⟩, hmin⟩

theorem bestChoice_single (hk : entry.kind = .unicast ∨ entry.kind = .node)
    (hone : entry.routes.length = 1) :
    lsdb.BestChoice entry
      (((entry.routes.argmin fun r => r.cost).bind lsdb.fibForward).map .single) := by
  obtain ⟨route, hroutes⟩ := List.length_eq_one_iff.mp hone
  have hspec : ∀ f, (((entry.routes.argmin fun r => r.cost).bind lsdb.fibForward).map
      FibEntry.single) = some f ↔ ∃ hop, lsdb.Leads route hop ∧ f = .single hop := by
    intro f
    rw [hroutes, List.argmin_singleton, Option.bind_some, Option.map_eq_some_iff]
    constructor
    · rintro ⟨hop, hhop, rfl⟩
      exact ⟨hop, fibForward_eq_some_iff.mp hhop, rfl⟩
    · rintro ⟨hop, hleads, rfl⟩
      exact ⟨hop, fibForward_eq_some_iff.mpr hleads, rfl⟩
  have hall : ∀ route' ∈ entry.routes, route' = route := by
    rw [hroutes]
    exact fun _ hin => List.mem_singleton.mp hin
  unfold BestChoice
  obtain hk | hk := hk
  all_goals
    rw [hk]
    intro route' hin f
    rw [hall route' hin]
    exact hspec f

/-- The neighbours the builder collects are the first hops. -/
theorem mem_broadcastPeers_iff {routes : List LsRoute} {peer : NodeId} :
    peer ∈ lsdb.broadcastPeers routes ↔ lsdb.FirstHop routes peer := by
  unfold broadcastPeers FirstHop
  rw [List.mem_dedup, List.mem_filterMap]
  constructor
  · rintro ⟨route, hin, hpeer⟩
    split at hpeer
    · cases hpeer
    · next nodeId hv =>
      obtain ⟨link, hlink, hpeer⟩ := Option.map_eq_some_iff.mp hpeer
      exact ⟨route, hin, nodeId, link, hv, hlink, hpeer⟩
  · rintro ⟨route, hin, nodeId, link, hv, hlink, rfl⟩
    refine ⟨route, hin, ?_⟩
    rw [hv]
    simp only [hlink, Option.map_some]

/-- The next hop of a first-hop neighbour is the link to it. -/
theorem FromSpf.nextHop_peer (h : lsdb.FromSpf) {n : NodeId} {link : Link}
    (hn : lsdb.nextHop.get n = some link) : lsdb.nextHop.get link.peerId = some link := by
  obtain ⟨d, d', root, hspf, -, hnext⟩ := h
  obtain ⟨s, hs, rfl⟩ := computeSpf_eq_some_iff.mp hspf
  rw [hnext] at hn ⊢
  exact spf_nextHop_peer hs hn

theorem bestChoice_broadcast (hspf : lsdb.FromSpf) (hk : entry.kind = .broadcast) :
    lsdb.BestChoice entry (if (lsdb.broadcastHops entry.routes).isEmpty then none
      else some (.multiCast (lsdb.broadcastHops entry.routes))) := by
  have hlocals := lsdb.locals_broadcastHops entry
  have hremotes := lsdb.remotes_broadcastHops entry.routes
  have hpeers : ∀ peer, lsdb.FirstHop entry.routes peer → ∃ link,
      lsdb.nextHop.get peer = some link ∧ link.peerId = peer := by
    rintro peer ⟨-, -, nodeId, link, -, hlink, rfl⟩
    exact ⟨link, hspf.nextHop_peer hlink, rfl⟩
  have hmem : ∀ peer, peer ∈ (FibEntry.multiCast (lsdb.broadcastHops entry.routes)).remotes.map
      Link.peerId ↔ lsdb.FirstHop entry.routes peer := by
    intro peer
    rw [hremotes, List.mem_map]
    constructor
    · rintro ⟨link, hlink, rfl⟩
      obtain ⟨peer', hpeer', hget⟩ := List.mem_filterMap.mp hlink
      have hfirst := mem_broadcastPeers_iff.mp hpeer'
      obtain ⟨link', hget', hsame⟩ := hpeers peer' hfirst
      rw [hget] at hget'
      cases hget'
      rw [hsame]
      exact hfirst
    · intro hfirst
      obtain ⟨link, hget, hsame⟩ := hpeers peer hfirst
      exact ⟨link, List.mem_filterMap.mpr ⟨peer, mem_broadcastPeers_iff.mpr hfirst, hget⟩, hsame⟩
  have hempty : lsdb.broadcastHops entry.routes = [] ↔
      entry.listeners = [] ∧ ∀ peer, ¬ lsdb.FirstHop entry.routes peer := by
    constructor
    · intro hnil
      rw [hnil] at hlocals hmem
      exact ⟨hlocals.symm, fun peer hfirst => absurd ((hmem peer).mpr hfirst) List.not_mem_nil⟩
    · rintro ⟨hno, hfirst⟩
      rw [List.eq_nil_iff_forall_not_mem]
      intro hop hhop
      cases hop with
      | loc sender =>
        have hin : sender ∈ (FibEntry.multiCast (lsdb.broadcastHops entry.routes)).locals :=
          List.mem_filterMap.mpr ⟨_, hhop, rfl⟩
        rw [hlocals, hno] at hin
        cases hin
      | remote link =>
        have hin : link ∈ (FibEntry.multiCast (lsdb.broadcastHops entry.routes)).remotes :=
          List.mem_filterMap.mpr ⟨_, hhop, rfl⟩
        exact hfirst _ ((hmem _).mp (List.mem_map_of_mem hin))
  unfold BestChoice
  rw [hk]
  by_cases hnil : lsdb.broadcastHops entry.routes = []
  · rw [if_pos (List.isEmpty_iff.mpr hnil)]
    exact ⟨⟨fun _ => hempty.mp hnil, fun _ => rfl⟩, fun f hf => by cases hf⟩
  · rw [if_neg (mt List.isEmpty_iff.mp hnil)]
    refine ⟨⟨?_, fun hboth => absurd (hempty.mpr hboth) hnil⟩, fun f hf => ?_⟩
    · intro hsome
      cases hsome
    cases hf
    refine ⟨hlocals, ?_, hmem, fun link hlink => ?_⟩
    · rw [hremotes]
      apply List.Nodup.sublist (map_filterMap_sublist _) (List.nodup_dedup _)
      intro peer hpeer link hget
      obtain ⟨link', hget', hsame⟩ := hpeers peer (mem_broadcastPeers_iff.mp hpeer)
      rw [hget] at hget'
      cases hget'
      exact hsame
    · rw [hremotes] at hlink
      obtain ⟨peer, -, hget⟩ := List.mem_filterMap.mp hlink
      exact hspf.nextHop_peer hget

/-- The choice for a settled entry is the best one. -/
theorem fibEntry_best (hspf : lsdb.FromSpf) (hentry : entry.Settled) :
    ∃ choice, lsdb.fibEntry entry = some choice ∧ lsdb.BestChoice entry choice := by
  unfold fibEntry
  cases hk : entry.kind with
  | anycast => exact ⟨_, rfl, bestChoice_anycast hk⟩
  | unicast => exact ⟨_, rfl, bestChoice_single (Or.inl hk) (hentry.single (Or.inl hk))⟩
  | node => exact ⟨_, rfl, bestChoice_single (Or.inr hk) (hentry.single (Or.inr hk))⟩
  | broadcast => exact ⟨_, rfl, bestChoice_broadcast hspf hk⟩
  | multicast => exact absurd hk hentry.noMulticast

/-- Over settled routes and computed paths the table is built, and holds the best choice for
every endpoint with routes and nothing for any other. -/
theorem forwarding_table_best (lsdb : LsDb) (hspf : lsdb.FromSpf)
    (hroutes : ∀ e entry, lsdb.routes.table.get e = some entry → entry.Settled) :
    ∃ fib, lsdb.buildFromDb = some fib ∧
      (∀ e, lsdb.routes.table.get e = none → fib.table.get e = none) ∧
      ∀ e entry, lsdb.routes.table.get e = some entry → lsdb.BestChoice entry (fib.table.get e) := by
  cases htable : lsdb.buildTable lsdb.routes.table.entries ∅ with
  | none =>
    obtain ⟨⟨e, entry⟩, hin, hmulti⟩ := (buildTable_eq_none_iff _ _).mp htable
    exact absurd hmulti (hroutes e entry (HashMap.mem_entries_iff.mp hin)).noMulticast
  | some table =>
    have hget : ∀ e, table.get e = (lsdb.routes.table.get e).bind fun re =>
        (lsdb.fibEntry re).join := by
      intro e
      rw [get_buildTable lsdb.routes.table.nodupKeys htable, HashMap.get_empty, Option.or_none]
      rfl
    refine ⟨⟨lsdb.selfId, table, lsdb.links, lsdb.nextHop⟩, ?_, fun e he => ?_, fun e entry he => ?_⟩
    · rw [buildFromDb, htable, Option.map_some]
    · change table.get e = none
      rw [hget, he, Option.bind_none]
    · obtain ⟨choice, hchoice, hbest⟩ := fibEntry_best hspf (hroutes e entry he)
      change lsdb.BestChoice entry (table.get e)
      rw [hget, he, Option.bind_some, hchoice, Option.join_some]
      exact hbest

end LsDb

/-- The routes of a broadcast endpoint of node 1 that nodes 3 and 4 have too. -/
def chainBroadcastEntry : LsRouteEntry where
  routes := [⟨.remote 3, 0, .global, .broadcast⟩, ⟨.loc 7, 0, .global, .broadcast⟩,
    ⟨.remote 4, 0, .global, .broadcast⟩]
  kind := .broadcast

/-- The end of the chain with these routes. -/
def chainBroadcast : LsDb :=
  { chainDb with routes := RouteTable.new.setEntry 9 chainBroadcastEntry }

theorem chainBroadcast_table : ∃ lsdb fib, chainBroadcast.computeSpf 1 = some lsdb ∧
    lsdb.buildFromDb = some fib ∧ lsdb.routes.table.get 9 = some chainBroadcastEntry ∧
    lsdb.BestChoice chainBroadcastEntry (fib.table.get 9) := by
  obtain ⟨s, hs, -⟩ := spf_hops chainDb_linksReach.linksCover
  have hspf : chainBroadcast.computeSpf 1 = some { chainBroadcast with
      nextHop := s.nextHop, cost := s.cost, parent := s.parent } :=
    LsDb.computeSpf_eq_some_iff.mpr ⟨s, hs, rfl⟩
  have hsettled : ∀ e entry, chainBroadcast.routes.table.get e = some entry → entry.Settled := by
    intro e entry he
    unfold chainBroadcast at he
    simp only [RouteTable.get_setEntry] at he
    split at he
    · cases he
      exact ⟨by decide, by decide, by decide, by decide⟩
    · cases he
  obtain ⟨fib, hfib, -, hbest⟩ := LsDb.forwarding_table_best { chainBroadcast with
    nextHop := s.nextHop, cost := s.cost, parent := s.parent } ⟨_, _, 1, hspf, rfl, rfl⟩ hsettled
  exact ⟨_, fib, hspf, hfib, rfl, hbest 9 chainBroadcastEntry rfl⟩

end Anybus
