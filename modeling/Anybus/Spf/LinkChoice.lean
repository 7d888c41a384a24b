import Anybus.Spf.ShortestPaths

/-!
# Next hops and parallel links

A direct neighbour gets the first link to it in the iteration order of the links,
whichever adjacency gave it its cost. Among parallel links of different cost that
can be a dearer one. The next hops lie on shortest paths exactly when the first
link to each neighbour that is nearest over its own adjacency is the link of an
adjacency that attains the distance.
-/

namespace Anybus

/-- An adjacency and a link describe the same connection at the same cost. -/
def Adjacency.IsOf (adj : Adjacency) (link : Link) : Prop :=
  adj.connectionId = link.connectionId ∧ adj.peerId = link.peerId ∧ adj.cost = link.cost

namespace LsDb

/-- The adjacencies of the node's own router LSA, as the path computation reads it. -/
def ownAdjacencies (db : LsDb) : List Adjacency := rootAdjacencies (routerLsas db.db) db.selfId

/-- The graph the path computation reads; of several router LSAs of one origin only
one counts. -/
def spfGraph (db : LsDb) : WGraph NodeId := routerGraph (routerLsas db.db)

/-- Every adjacency of the own router LSA has its live link. -/
def LinksMatch (db : LsDb) : Prop :=
  ∀ adj ∈ db.ownAdjacencies, ∃ link, db.links.get adj.connectionId = some link ∧ adj.IsOf link

/-- The path computation does not panic, and every node it reaches gets a next hop: the
link of an own adjacency that begins a walk which attains the cost of the node. -/
def HopsOnShortestPaths (db : LsDb) : Prop :=
  ∃ db', db.computeSpf db.selfId = some db' ∧
    ∀ n, n ≠ db.selfId → (db'.costOf n).val < 65535 →
      ∃ link, db'.nextHop.get n = some link ∧ (∃ adj ∈ db.ownAdjacencies, adj.IsOf link) ∧
        ∃ d, db.spfGraph.Walk link.peerId n d ∧ link.cost.val + d = (db'.costOf n).val

/-- For every neighbour that is nearest over an own adjacency, the first link to it
belongs to an own adjacency of that same cost. -/
def FirstLinksCheapest (db : LsDb) : Prop :=
  ∀ adj ∈ db.ownAdjacencies, adj.peerId ≠ db.selfId → adj.cost.val < 65535 →
    (∀ d, db.spfGraph.Walk db.selfId adj.peerId d → adj.cost.val ≤ d) →
      ∃ link, firstLink db.links adj.peerId = some link ∧
        (∃ adj' ∈ db.ownAdjacencies, adj'.IsOf link) ∧ link.cost = adj.cost

variable {db : LsDb}

theorem LinksMatch.linksCover (h : db.LinksMatch) :
    LinksCover (routerLsas db.db) db.links db.selfId := by
  intro adj ha
  obtain ⟨link, hl, _, hp, _⟩ := h adj ha
  exact firstLink_isSome_iff.mpr ⟨adj.connectionId, link, hl, hp.symm⟩

theorem edge_of_mem_ownAdjacencies {adj : Adjacency} (h : adj ∈ db.ownAdjacencies) :
    db.spfGraph.Edge db.selfId adj.peerId adj.cost.val :=
  edge_of_mem_rootAdjacencies h

theorem exists_ownAdjacency_of_edge {v : NodeId} {c : Nat} (h : db.spfGraph.Edge db.selfId v c) :
    ∃ adj ∈ db.ownAdjacencies, adj.peerId = v ∧ adj.cost.val = c := by
  obtain ⟨adjs, hget, hadj⟩ := h
  unfold ownAdjacencies rootAdjacencies
  rw [hget]
  exact hadj

/-- A node is nearest over an adjacency only if its peer is. -/
theorem adjacency_le_walk {s : Spf} (hs : spf db.db db.links db.selfId = some s) {adj : Adjacency}
    {n : NodeId} {d : Nat} (hwalk : db.spfGraph.Walk adj.peerId n d)
    (hcost : adj.cost.val + d = s.label n) {e : Nat}
    (he : db.spfGraph.Walk db.selfId adj.peerId e) : adj.cost.val ≤ e := by
  have hle := spf_label_le hs (he.append hwalk)
  omega

/-- The cheapest first links put every next hop on a shortest path. -/
theorem FirstLinksCheapest.hops (h : db.FirstLinksCheapest) (hm : db.LinksMatch) :
    db.HopsOnShortestPaths := by
  obtain ⟨s, hs, hop⟩ := spf_hops hm.linksCover
  refine ⟨_, computeSpf_eq_some_iff.mpr ⟨s, hs, rfl⟩, fun n hn hlt => ?_⟩
  obtain ⟨adj, ha, link, d, hne, hhop, hfirst, hwalk, hcost⟩ := hop.hop n hn hlt
  have hfin : adj.cost.val < 65535 := by
    have hlt' : s.label n < 65535 := hlt
    omega
  have hmin := fun e he => adjacency_le_walk hs hwalk hcost (e := e) he
  obtain ⟨link', hfirst', hadj, heq⟩ := h adj ha hne hfin hmin
  obtain rfl : link = link' := Option.some.inj (hfirst.symm.trans hfirst')
  refine ⟨link, hhop, hadj, d, ?_, ?_⟩
  · rw [(firstLink_some hfirst).1]
    exact hwalk
  · rw [heq]
    exact hcost

/-- If every next hop is on a shortest path, the first links are the cheapest. -/
theorem HopsOnShortestPaths.firstLinks (h : db.HopsOnShortestPaths) (hm : db.LinksMatch) :
    db.FirstLinksCheapest := by
  obtain ⟨s, hs, hop⟩ := spf_hops hm.linksCover
  obtain ⟨db', hdb, hall⟩ := h
  obtain ⟨s', hs', rfl⟩ := computeSpf_eq_some_iff.mp hdb
  obtain rfl : s = s' := Option.some.inj (hs.symm.trans hs')
  intro adj ha hne hfin hmin
  -- The adjacency attains the distance of its peer, so the first turn settled the peer.
  have hlabel : s.label adj.peerId = adj.cost.val := by
    have hle := hop.le_direct adj ha
    obtain ⟨hinv, _⟩ := (spfInit_inv (routerLsas db.db) db.selfId).1.loop
      (spfInit_inv (routerLsas db.db) db.selfId).2 hs
    have hge := hmin _ (hinv.sound adj.peerId (by omega))
    omega
  have hnext := hop.direct adj ha hne hlabel (by omega)
  obtain ⟨link, hlink, ⟨adj', ha', hof⟩, d, _, hcost⟩ := hall adj.peerId hne (by
    change s.label adj.peerId < 65535
    omega)
  have hfirst : firstLink db.links adj.peerId = some link := hnext.symm.trans hlink
  refine ⟨link, hfirst, ⟨adj', ha', hof⟩, Cost.ext ?_⟩
  have hpeer : adj'.peerId = adj.peerId := hof.2.1.trans (firstLink_some hfirst).1
  have hge := hmin _ (.single (hpeer ▸ edge_of_mem_ownAdjacencies ha'))
  rw [hof.2.2] at hge
  change link.cost.val + d = s.label adj.peerId at hcost
  omega

/-- The next hops lie on shortest paths exactly when the first link to every nearest
neighbour is a cheapest one. -/
theorem hopsOnShortestPaths_iff (db : LsDb) (hm : db.LinksMatch) :
    db.HopsOnShortestPaths ↔ db.FirstLinksCheapest :=
  ⟨fun h => h.firstLinks hm, fun h => h.hops hm⟩

end LsDb

/-- Node 1 with two links to node 2, the costs given in the iteration order of the links. -/
def parallelDb (first second : Cost) : LsDb :=
  { LsDb.new 1 0 with
    db := (∅ : HashMap LsaKey LsaRecord).insert ⟨1, 1⟩ (routerRecord 1 [(0, 2, first), (1, 2, second)])
    links := ((∅ : HashMap ConnectionId Link).insert 1 ⟨1, 2, 1, {.global}, second⟩).insert
      0 ⟨0, 2, 0, {.global}, first⟩ }

theorem parallelDb_ownAdjacencies (first second : Cost) :
    (parallelDb first second).ownAdjacencies =
      [⟨0, 2, first, {.global}⟩, ⟨1, 2, second, {.global}⟩] := rfl

theorem parallelDb_linksMatch (first second : Cost) : (parallelDb first second).LinksMatch := by
  intro adj ha
  rw [parallelDb_ownAdjacencies] at ha
  rcases List.mem_pair.mp ha with rfl | rfl
  · exact ⟨⟨0, 2, 0, {.global}, first⟩, rfl, rfl, rfl, rfl⟩
  · exact ⟨⟨1, 2, 1, {.global}, second⟩, rfl, rfl, rfl, rfl⟩

/-- With the dearer link first, the next hop costs more than the distance. -/
theorem parallelDb_hop_too_dear :
    ¬ ∀ db : LsDb, db.LinksMatch → db.HopsOnShortestPaths := by
  intro h
  obtain ⟨db', hdb, hall⟩ := h _ (parallelDb_linksMatch ⟨5, by decide⟩ ⟨1, by decide⟩)
  have hcost : ((parallelDb ⟨5, by decide⟩ ⟨1, by decide⟩).computeSpf 1).map
      (fun db' => (db'.costOf 2).val) = some 1 := by decide +kernel
  have hhop : ((parallelDb ⟨5, by decide⟩ ⟨1, by decide⟩).computeSpf 1).bind
      (fun db' => (db'.nextHop.get 2).map fun link => link.cost.val) = some 5 := by decide +kernel
  change LsDb.computeSpf _ 1 = some db' at hdb
  rw [hdb, Option.map_some, Option.some.injEq] at hcost
  rw [hdb, Option.bind_some] at hhop
  obtain ⟨link, hlink, _, d, _, hsum⟩ := hall 2 (by decide) (by rw [hcost]; decide)
  rw [hlink, Option.map_some, Option.some.injEq] at hhop
  omega

/-- With the cheaper link first, all next hops are on shortest paths. -/
theorem parallelDb_hop_cheapest :
    (parallelDb ⟨1, by decide⟩ ⟨5, by decide⟩).LinksMatch ∧
      (parallelDb ⟨1, by decide⟩ ⟨5, by decide⟩).HopsOnShortestPaths := by
  have hm := parallelDb_linksMatch ⟨1, by decide⟩ ⟨5, by decide⟩
  refine ⟨hm, (LsDb.hopsOnShortestPaths_iff _ hm).mpr fun adj ha _ _ hmin => ?_⟩
  rw [parallelDb_ownAdjacencies] at ha
  rcases List.mem_pair.mp ha with rfl | rfl
  · exact ⟨⟨0, 2, 0, {.global}, ⟨1, by decide⟩⟩, rfl, ⟨_, List.mem_cons_self, rfl, rfl, rfl⟩, rfl⟩
  -- The dearer adjacency is not nearest.
  · have hmem : (⟨0, 2, ⟨1, by decide⟩, {.global}⟩ : Adjacency) ∈
        (parallelDb ⟨1, by decide⟩ ⟨5, by decide⟩).ownAdjacencies := by
      rw [parallelDb_ownAdjacencies]
      exact List.mem_cons_self
    have hle := hmin 1 (.single (LsDb.edge_of_mem_ownAdjacencies hmem))
    exact absurd hle (by decide)

end Anybus
