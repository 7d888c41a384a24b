import Anybus.Linkstate.Db
import Anybus.Spf.FirstHops

/-!
# What the path computation finds

The costs are the distances in the graph of the stored router LSAs, cut off at
65535. The search can only panic when an adjacency of the root has no link to its
peer. The next hops lie on shortest paths exactly when, for every neighbour whose
direct adjacency is a shortest way, the first link to it is the link of such an
adjacency: the search takes the first link to the peer, whichever adjacency it
relaxed.
-/

namespace Anybus

/-- The search finds the distances in the graph it reads. -/
theorem spf_label_eq {db : HashMap LsaKey LsaRecord} {links : HashMap ConnectionId Link}
    {root : NodeId} {s : Spf} (h : spf db links root = some s) (n : NodeId) :
    (s.label n : ℕ∞) = min ((65535 : Nat) : ℕ∞) ((routerGraph (routerLsas db)).dist root n) := by
  obtain ⟨hinit, hrel⟩ := spfInit_inv (routerLsas db) root
  obtain ⟨hinv, hrel'⟩ := hinit.loop hrel h
  have hq := spf_queue_eq_nil h
  apply WGraph.label_eq_min_dist s.label_le hinv.root_zero hinv.sound
  intro u v c he hlt
  refine hrel' u (fun hf => hf) ?_ hlt v c he
  rintro ⟨e, hmem, _⟩
  rw [hq] at hmem
  cases hmem

/-- No walk undercuts the cost found for its end. -/
theorem spf_label_le {db : HashMap LsaKey LsaRecord} {links : HashMap ConnectionId Link}
    {root : NodeId} {s : Spf} (h : spf db links root = some s) {n : NodeId} {c : Nat}
    (hw : (routerGraph (routerLsas db)).Walk root n c) : s.label n ≤ c := by
  have hle : (s.label n : ℕ∞) ≤ c := by
    rw [spf_label_eq h]
    exact (min_le_right _ _).trans (WGraph.dist_le hw)
  exact_mod_cast hle

namespace LsDb

/-- No origin has router records under two keys. -/
def UniqueRouters (db : LsDb) : Prop :=
  ∀ k k' r r' adjs adjs', db.db.get k = some r → db.db.get k' = some r' →
    r.lsa.body = .router adjs → r'.lsa.body = .router adjs' → k.origin = k'.origin → k = k'

/-- The graph whose edges are the adjacencies of the stored router LSAs. -/
def lsaGraph (db : LsDb) : WGraph NodeId where
  Edge u v c := ∃ k r adjs, db.db.get k = some r ∧ r.lsa.body = .router adjs ∧ k.origin = u ∧
    ∃ adj ∈ adjs, adj.peerId = v ∧ adj.cost.val = c

/-- Every adjacency in a router LSA of a node leads to a peer that some link leads to. -/
def LinksReach (db : LsDb) (root : NodeId) : Prop :=
  ∀ k r adjs, db.db.get k = some r → r.lsa.body = .router adjs → k.origin = root →
    ∀ adj ∈ adjs, ∃ c link, db.links.get c = some link ∧ link.peerId = adj.peerId

/-- The cost stored for a node, infinite if there is none. -/
def costOf (db : LsDb) (n : NodeId) : Cost := (db.cost.get n).getD Cost.max

end LsDb

/-- A collected router record replaces the list of its origin. -/
theorem get_addRouterLsa (nodes : HashMap NodeId (List Adjacency)) (e : Σ _ : LsaKey, LsaRecord)
    (n : NodeId) :
    (∃ adjs, e.2.lsa.body = .router adjs ∧ e.1.origin = n ∧
      (addRouterLsa nodes e).get n = some adjs) ∨
    (addRouterLsa nodes e).get n = nodes.get n := by
  unfold addRouterLsa
  cases hb : e.2.lsa.body with
  | endpoint info => exact Or.inr rfl
  | router adjs =>
    by_cases hn : n = e.1.origin
    · exact Or.inl ⟨adjs, rfl, hn.symm, by simp [hn]⟩
    · exact Or.inr (by simp [hn])

/-- A collected list stems from the map started with or from a visited router record. -/
theorem get_foldl_addRouterLsa (l : List (Σ _ : LsaKey, LsaRecord))
    (nodes : HashMap NodeId (List Adjacency)) (n : NodeId) :
    (∃ e ∈ l, ∃ adjs, e.2.lsa.body = .router adjs ∧ e.1.origin = n ∧
      (l.foldl addRouterLsa nodes).get n = some adjs) ∨
    ((l.foldl addRouterLsa nodes).get n = nodes.get n ∧
      ∀ e ∈ l, e.1.origin = n → ∀ adjs, e.2.lsa.body = .router adjs → nodes.get n = some adjs) := by
  induction l generalizing nodes with
  | nil => exact Or.inr ⟨rfl, by simp⟩
  | cons e l ih =>
    rw [List.foldl_cons]
    rcases ih (addRouterLsa nodes e) with ⟨e', he', adjs, hb, ho, hg⟩ | ⟨hg, hall⟩
    · exact Or.inl ⟨e', List.mem_cons_of_mem _ he', adjs, hb, ho, hg⟩
    · by_cases hr : ∃ adjs, e.2.lsa.body = .router adjs ∧ e.1.origin = n
      · obtain ⟨adjs, hb, ho⟩ := hr
        refine Or.inl ⟨e, List.mem_cons_self, adjs, hb, ho, ?_⟩
        rw [hg]
        simp [addRouterLsa, hb, ho]
      · rcases get_addRouterLsa nodes e n with ⟨adjs, hb, ho, _⟩ | hsame
        · exact absurd ⟨adjs, hb, ho⟩ hr
        · refine Or.inr ⟨hg.trans hsame, fun e' he' ho adjs hb => ?_⟩
          rcases List.mem_cons.mp he' with rfl | he'
          · exact absurd ⟨adjs, hb, ho⟩ hr
          · rw [← hsame]
            exact hall e' he' ho adjs hb

/-- Collecting the router records keeps, for each origin, one of its lists. -/
theorem get_routerLsas {db : HashMap LsaKey LsaRecord} {n : NodeId} {adjs : List Adjacency}
    (h : (routerLsas db).get n = some adjs) :
    ∃ k r, db.get k = some r ∧ r.lsa.body = .router adjs ∧ k.origin = n := by
  unfold routerLsas at h
  rcases get_foldl_addRouterLsa db.entries ∅ n with ⟨⟨k, r⟩, he, adjs', hb, ho, hg⟩ | ⟨hg, _⟩
  · rw [hg, Option.some.injEq] at h
    exact ⟨k, r, HashMap.mem_entries_iff.mp he, h ▸ hb, ho⟩
  · rw [hg, HashMap.get_empty] at h
    cases h

/-- Every origin with a router record is collected. -/
theorem exists_get_routerLsas {db : HashMap LsaKey LsaRecord} {k : LsaKey} {r : LsaRecord}
    {adjs : List Adjacency} (h : db.get k = some r) (hb : r.lsa.body = .router adjs) :
    ∃ adjs', (routerLsas db).get k.origin = some adjs' := by
  rcases get_foldl_addRouterLsa db.entries ∅ k.origin with ⟨_, _, adjs', _, _, hg⟩ | ⟨_, hall⟩
  · exact ⟨adjs', hg⟩
  · have hnone := hall ⟨k, r⟩ (HashMap.mem_entries_iff.mpr h) rfl adjs hb
    rw [HashMap.get_empty] at hnone
    cases hnone

namespace LsDb

variable {db db' : LsDb} {root : NodeId}

/-- With one router record per origin, the search reads the graph of the database. -/
theorem UniqueRouters.routerGraph_eq (h : db.UniqueRouters) :
    routerGraph (routerLsas db.db) = db.lsaGraph := by
  refine congrArg WGraph.mk (funext fun u => funext fun v => funext fun c => propext ?_)
  constructor
  · rintro ⟨adjs, hadjs, adj, ha, hv, hc⟩
    obtain ⟨k, r, hk, hb, ho⟩ := get_routerLsas hadjs
    exact ⟨k, r, adjs, hk, hb, ho, adj, ha, hv, hc⟩
  · rintro ⟨k, r, adjs, hk, hb, rfl, adj, ha, hv, hc⟩
    obtain ⟨adjs', hadjs'⟩ := exists_get_routerLsas hk hb
    obtain ⟨k', r', hk', hb', ho'⟩ := get_routerLsas hadjs'
    obtain rfl := h k' k r' r adjs' adjs hk' hk hb' hb ho'
    obtain rfl : r' = r := Option.some.inj (hk'.symm.trans hk)
    rw [hb, LsaBody.router.injEq] at hb'
    exact ⟨adjs, hb' ▸ hadjs', adj, ha, hv, hc⟩

/-- Router records under the id of their origin are unique. -/
theorem UniqueRouters.of_keyed
    (h : ∀ e ∈ db.db.entries, ∀ adjs, e.2.lsa.body = .router adjs → e.1.endpointId = e.1.origin) :
    db.UniqueRouters := by
  intro k k' r r' adjs adjs' hk hk' hb hb' ho
  have h₁ := h ⟨k, r⟩ (HashMap.mem_entries_iff.mpr hk) adjs hb
  have h₂ := h ⟨k', r'⟩ (HashMap.mem_entries_iff.mpr hk') adjs' hb'
  cases k with
  | mk o e =>
    cases k' with
    | mk o' e' =>
      simp only at h₁ h₂ ho
      rw [h₁, h₂, ho]

/-- Links that reach every advertised peer cover the first turn of the search. -/
theorem LinksReach.linksCover (h : db.LinksReach root) :
    LinksCover (routerLsas db.db) db.links root := by
  intro adj ha
  unfold rootAdjacencies at ha
  cases hn : (routerLsas db.db).get root with
  | none => simp [hn] at ha
  | some adjs =>
    rw [hn, Option.getD_some] at ha
    obtain ⟨k, r, hk, hb, ho⟩ := get_routerLsas hn
    obtain ⟨c, link, hl, hp⟩ := h k r adjs hk hb ho adj ha
    exact firstLink_isSome_iff.mpr ⟨c, link, hl, hp⟩

/-- The stored result is that of the search. -/
theorem computeSpf_eq_some_iff :
    db.computeSpf root = some db' ↔ ∃ s, spf db.db db.links root = some s ∧
      db' = { db with nextHop := s.nextHop, cost := s.cost, parent := s.parent } := by
  unfold computeSpf
  cases spf db.db db.links root with
  | none => simp
  | some s => simp [eq_comm]

/-- The path computation always ends, whatever the adjacency lists. Whenever it does
not panic, the costs are the distances from the root, cut off at 65535; and it does
not panic if every adjacency of the root has a link to its peer. -/
theorem computeSpf_shortest (db : LsDb) (root : NodeId) (hu : db.UniqueRouters) :
    (∀ extra, spfLoop (routerLsas db.db) db.links root (spfFuel (routerLsas db.db) + extra)
        (spfInit (routerLsas db.db) root) = spf db.db db.links root) ∧
      (∀ s, spf db.db db.links root = some s → s.queue = []) ∧
      (∀ db', db.computeSpf root = some db' → ∀ n,
        ((db'.costOf n).val : ℕ∞) = min ((65535 : Nat) : ℕ∞) (db.lsaGraph.dist root n)) ∧
      (db.LinksReach root → ∃ db', db.computeSpf root = some db') := by
  refine ⟨fun extra => ?_, fun s hs => spf_queue_eq_nil hs, fun db' h n => ?_, fun h => ?_⟩
  · exact (spfLoop_stops (spfInit_potential_lt _ root)).2 extra
  · obtain ⟨s, hs, rfl⟩ := computeSpf_eq_some_iff.mp h
    rw [← hu.routerGraph_eq]
    exact spf_label_eq hs n
  · obtain ⟨s, hs, _⟩ := spf_hops h.linksCover
    exact ⟨_, computeSpf_eq_some_iff.mpr ⟨s, hs, rfl⟩⟩

end LsDb

/-- The router record of a node with edges of the given costs to the given peers. -/
def routerRecord (origin : NodeId) (adjacencies : List (ConnectionId × NodeId × Cost)) : LsaRecord where
  lsa :=
    { key := ⟨origin, origin⟩
      seq := 1
      dead := false
      body := .router (adjacencies.map fun a => ⟨a.1, a.2.1, a.2.2, {.global}⟩) }
  updatedAt := 0

/-- Node 1 at the end of the chain 1, 2, 3, 4 with its only link. -/
def chainDb : LsDb :=
  { LsDb.new 1 0 with
    db := (((∅ : HashMap LsaKey LsaRecord).insert ⟨3, 3⟩ (routerRecord 3 [(0, 4, ⟨1, by decide⟩)])).insert
      ⟨2, 2⟩ (routerRecord 2 [(0, 3, ⟨1, by decide⟩)])).insert
      ⟨1, 1⟩ (routerRecord 1 [(0, 2, ⟨1, by decide⟩)])
    links := (∅ : HashMap ConnectionId Link).insert 0 ⟨0, 2, 0, {.global}, ⟨1, by decide⟩⟩ }

theorem chainDb_uniqueRouters : chainDb.UniqueRouters := by
  apply LsDb.UniqueRouters.of_keyed
  have hkeys : ∀ e ∈ chainDb.db.entries, e.1.endpointId = e.1.origin := by decide
  exact fun e he _ _ => hkeys e he

theorem chainDb_linksReach : chainDb.LinksReach 1 := by
  have hpeers : ∀ e ∈ chainDb.db.entries, e.1.origin = 1 → e.2 = routerRecord 1 [(0, 2, ⟨1, by decide⟩)] := by
    decide
  intro k r adjs hk hb ho adj ha
  obtain rfl := hpeers ⟨k, r⟩ (HashMap.mem_entries_iff.mpr hk) ho
  simp only [routerRecord, LsaBody.router.injEq] at hb
  rw [← hb, List.map_singleton, List.mem_singleton] at ha
  exact ⟨0, ⟨0, 2, 0, {.global}, ⟨1, by decide⟩⟩, by decide, by rw [ha]⟩

/-- The end of the chain finds its distances. -/
theorem chainDb_shortest :
    chainDb.UniqueRouters ∧ ∃ db', chainDb.computeSpf 1 = some db' ∧
      ∀ n, ((db'.costOf n).val : ℕ∞) = min ((65535 : Nat) : ℕ∞) (chainDb.lsaGraph.dist 1 n) := by
  obtain ⟨_, _, hcost, hsome⟩ := LsDb.computeSpf_shortest chainDb 1 chainDb_uniqueRouters
  obtain ⟨db', hdb⟩ := hsome chainDb_linksReach
  exact ⟨chainDb_uniqueRouters, db', hdb, hcost db' hdb⟩

/-- With a root other than the node itself the search panics: the node has no link to
the neighbours of that root. -/
theorem computeSpf_not_total :
    ¬ ∀ (db : LsDb) (root : NodeId), db.UniqueRouters → ∃ db', db.computeSpf root = some db' ∧
      ∀ n, ((db'.costOf n).val : ℕ∞) = min ((65535 : Nat) : ℕ∞) (db.lsaGraph.dist root n) := by
  intro h
  obtain ⟨db', hdb, _⟩ := h chainDb 2 chainDb_uniqueRouters
  have hnone : (chainDb.computeSpf 2).isNone = true := by decide +kernel
  rw [hdb] at hnone
  cases hnone

end Anybus
