import Anybus.Db.Advances

/-!
# The own router LSA and the links

The own router LSA lists the links of the node. It shares its keys with the records of
the node's own endpoints, so an endpoint that has the id of the node takes its place.
Links and adjacencies are changed by separate code; what one operation does to both is
said here once.
-/

namespace Anybus

/-- How a node advertises a link. -/
def Link.adjacency (link : Link) : Adjacency :=
  ⟨link.connectionId, link.peerId, link.cost, link.realms⟩

/-- What is left of a record when a link is withdrawn from it. -/
def LsaBody.withoutConnection (c : ConnectionId) : LsaBody → LsaBody
  | .router adjs => .router (adjs.filter fun adj => adj.connectionId ≠ c)
  | .endpoint info => .endpoint info

namespace LsDb

/-- What the record under the key of the own router LSA says. -/
def ownBody (db : LsDb) : Option LsaBody := (db.db.get db.selfKey).map fun r => r.lsa.body

/-- A registration takes the place of the own router LSA: it has the id of the node, is
accepted, and is the first of its endpoint. -/
def Overwrites (db : LsDb) (request : RegistrationRequest) : Prop :=
  request.endpointId = db.selfId ∧ request.endpointInfo.kind ≠ .node ∧
    (∀ k, db.routes.kindAt db.selfId = some k → k = request.endpointInfo.kind) ∧
    (request.endpointInfo.kind = .unicast → db.routes.routesOf db.selfId = []) ∧
    ¬ db.routes.HasLocal db.selfId

/-- A removal withdraws the own router LSA: the id of the node has an entry, and no route
of it stays. -/
def WithdrawsOwn (db : LsDb) (w : Wires) (e : EndpointId) : Prop :=
  e = db.selfId ∧ db.routes.kindAt e ≠ none ∧ ∀ r ∈ db.routes.routesOf e, r.staysOpen w = false

/-- Everything an operation can do to the own router record and to the links. -/
inductive OwnChange (db : LsDb) (w : Wires) :
    Op → Option LsaBody → HashMap ConnectionId Link → Prop where
  /-- Nothing; a link is refused only if the own record is not a router's. -/
  | same {op : Op} (h : ∀ link, op = .addPeer link → ∃ info, db.ownBody = some (.endpoint info)) :
      OwnChange db w op db.ownBody db.links
  | recosted {op : Op} {info info' : EndpointInfo} (h : db.ownBody = some (.endpoint info)) :
      OwnChange db w op (some (.endpoint info')) db.links
  | overwritten {request : RegistrationRequest} (h : db.Overwrites request) :
      OwnChange db w (.addEndpoint request) (some (.endpoint request.endpointInfo)) db.links
  | withdrawn {e : EndpointId} (h : db.WithdrawsOwn w e) :
      OwnChange db w (.removeEndpoint e) none db.links
  | addPeer {link : Link} {adjs : List Adjacency}
      (h : db.ownBody.getD (.router []) = .router adjs) :
      OwnChange db w (.addPeer link) (some (.router (adjs ++ [link.adjacency])))
        (db.links.insert link.connectionId link)
  | removePeer {c : ConnectionId} {link : Link} (h : db.links.get c = some link) :
      OwnChange db w (.removePeer c) (db.ownBody.map (.withoutConnection c)) (db.links.erase c)
  | shutdown : OwnChange db w .shutdown none ∅

section Own

/-- Only an endpoint with the id of the node shares the key of its router LSA. -/
theorem selfKey_ne (db : LsDb) {e : EndpointId} (he : e ≠ db.selfId) :
    db.selfKey ≠ ⟨db.selfId, e⟩ := by
  intro hk
  exact he (LsaKey.mk.inj hk).2.symm

theorem get_carriedOut_removeLsa (db : LsDb) (now : Instant) (e : EndpointId) (k : LsaKey) :
    (db.carriedOut now (.removeLsa e)).get k =
      if k = ⟨db.selfId, e⟩ then none else db.db.get k := by
  simp only [carriedOut]
  cases hr : db.db.get ⟨db.selfId, e⟩ with
  | none =>
    by_cases hk : k = ⟨db.selfId, e⟩
    · rw [if_pos hk, hk]
      exact hr
    · rw [if_neg hk]
  | some r => exact HashMap.get_erase _ _ _

variable {db : LsDb} {w : Wires} {now : Instant}

/-- Changing the cost of an own endpoint never touches a router record. -/
theorem get_recosted_selfKey (db : LsDb) (now : Instant) (e : EndpointId) (cost : Cost) :
    ((db.recosted e cost now).get db.selfKey).map (fun r => r.lsa.body) = db.ownBody ∨
      ∃ info info', db.ownBody = some (.endpoint info) ∧
        ((db.recosted e cost now).get db.selfKey).map (fun r => r.lsa.body) =
          some (.endpoint info') := by
  unfold recosted
  cases hr : db.db.get ⟨db.selfId, e⟩ with
  | none => exact Or.inl rfl
  | some record =>
    cases hb : record.lsa.body with
    | router adjs =>
      simp only [hb]
      exact Or.inl rfl
    | endpoint body =>
      simp only [hb]
      split
      · exact Or.inl rfl
      · by_cases hkey : db.selfKey = ⟨db.selfId, e⟩
        · refine Or.inr ⟨body, { body with cost := cost }, ?_, ?_⟩
          · rw [ownBody, hkey, hr, Option.map_some, hb]
          · rw [HashMap.get_insert, if_pos hkey]
            rfl
        · left
          rw [HashMap.get_insert, if_neg hkey]
          rfl

theorem ownChange_recosted {op : Op} {e : EndpointId} {cost : Cost} {m : HashMap LsaKey LsaRecord}
    (hm : m = db.recosted e cost now) (hop : ∀ link, op ≠ .addPeer link) :
    OwnChange db w op ((m.get db.selfKey).map fun r => r.lsa.body) db.links := by
  rw [hm]
  rcases db.get_recosted_selfKey now e cost with heq | ⟨info, info', hb, heq⟩
  · rw [heq]
    exact .same fun link hl => absurd hl (hop link)
  · rw [heq]
    exact .recosted hb

theorem get_withoutAdjacency_selfKey (c : ConnectionId) :
    ((db.withoutAdjacency c now).get db.selfKey).map (fun r => r.lsa.body) =
      db.ownBody.map (.withoutConnection c) := by
  unfold withoutAdjacency ownBody
  cases hr : db.db.get db.selfKey with
  | none => simp [hr]
  | some record =>
    cases hb : record.lsa.body with
    | endpoint info => simp [hr, hb, LsaBody.withoutConnection]
    | router adjs =>
      simp only [hb, Option.map_some, LsaBody.withoutConnection]
      split
      · rw [HashMap.get_insert, if_pos rfl]
        rfl
      · next hlen =>
        -- No adjacency was dropped, so the filter kept the whole list.
        have hall : adjs.filter (fun adj => adj.connectionId ≠ c) = adjs :=
          List.filter_eq_self.mpr (List.length_filter_eq_length_iff.mp
            (Nat.le_antisymm (List.length_filter_le _ _) (Nat.le_of_not_lt hlen)))
        rw [hr, Option.map_some, hb, hall]

/-- One change, as the own record and the links see it. -/
theorem Change.own {db' : LsDb} {op : Op} (hok : db.Ok) (hself : db'.selfId = db.selfId)
    (hchange : Change db w now op db'.parts) : OwnChange db w op db'.ownBody db'.links := by
  generalize hparts : db'.parts = p at hchange
  have hdb : db'.db = p.records := congrArg Parts.records hparts
  have hlinks : db'.links = p.links := congrArg Parts.links hparts
  have hkey : db'.selfKey = db.selfKey := by simp [selfKey, hself]
  rw [ownBody, hkey, hdb, hlinks]
  cases hchange with
  | quiet h =>
    refine .same fun link hop => ?_
    obtain ⟨info, hinfo⟩ := h link hop
    refine ⟨info, ?_⟩
    unfold ownRecord at hinfo
    unfold ownBody
    cases hr : db.db.get db.selfKey with
    | none => simp [hr] at hinfo
    | some r => simpa [hr] using hinfo
  | @addEndpoint request t effect hadd =>
    obtain ⟨hkind, huni, _, heff⟩ := RouteTable.addEndpoint_spec hadd
    rcases heff with ⟨_, rfl⟩ | ⟨hnode, hlocal, rfl⟩ | ⟨_, _, rfl | rfl⟩
    · exact .same (by simp)
    · simp only [carriedOut, HashMap.get_insert]
      by_cases he : request.endpointId = db.selfId
      · rw [he] at hkind huni hlocal
        rw [if_pos (by rw [he]; rfl), Option.map_some]
        refine .overwritten ⟨he, hnode, fun k hk => ?_, huni, hlocal⟩
        obtain ⟨entry, hentry, rfl⟩ := Option.map_eq_some_iff.mp hk
        exact hkind entry hentry
      · rw [if_neg (db.selfKey_ne he)]
        exact .same (by simp)
    · exact .same (by simp)
    · exact ownChange_recosted rfl (by simp)
  | removeEndpoint e =>
    rcases db.routes.removeEndpoint_cases w e with ⟨_, heq⟩ | ⟨_, ⟨heq, hnil⟩ | ⟨heff, _⟩⟩
    · rw [heq]
      exact .same (by simp)
    · rw [heq]
      by_cases he : e = db.selfId
      · rw [get_carriedOut_removeLsa, if_pos (by rw [he]; rfl), Option.map_none]
        refine .withdrawn ⟨he, fun hk => ?_, fun r hr => ?_⟩
        · rw [RouteTable.kindAt, Option.map_eq_none_iff] at hk
          rw [RouteTable.removeEndpoint, hk] at heq
          cases heq
        · have hout := List.filter_eq_nil_iff.mp hnil r hr
          exact Bool.eq_false_of_not_eq_true hout
      · rw [get_carriedOut_removeLsa, if_neg (db.selfKey_ne he)]
        exact .same (by simp)
    · rcases heff with heq | heq | ⟨cost, heq⟩
      · rw [heq]
        exact .same (by simp)
      · rw [heq]
        exact .same (by simp)
      · rw [heq]
        exact ownChange_recosted rfl (by simp)
  | setAnycastCost hset hm =>
    rcases hm with rfl | ⟨cost, rfl⟩
    · exact .same (by simp)
    · exact ownChange_recosted rfl (by simp)
  | addPeer hbody =>
    simp only [HashMap.get_insert, if_true, Option.map_some]
    refine .addPeer ?_
    unfold ownRecord at hbody
    unfold ownBody
    cases hr : db.db.get db.selfKey with
    | none => simpa [hr] using hbody
    | some r => simpa [hr] using hbody
  | removePeer h =>
    rw [get_withoutAdjacency_selfKey]
    exact .removePeer h
  | handleLsa hh =>
    have hframe := hh.frame.2.2 db.selfKey rfl
    simp only [parts]
    rw [hframe, hh.frame.2.1]
    exact .same (by simp)
  | tick hm =>
    have hget : ((db.refreshAll now).db.get db.selfKey).map (fun r => r.lsa.body) = db.ownBody := by
      rw [refreshAll, HashMap.get_mapValues, Option.map_map, ownBody]
      refine congrArg (fun f => (db.db.get db.selfKey).map f) ?_
      funext r
      exact db.refreshed_body now r
    rcases hm with rfl | ⟨key, hstale, rfl⟩
    · rw [hget]
      exact .same (by simp)
    · have hne : db.selfKey ≠ key := by
        rintro rfl
        exact hok.not_stale rfl hstale
      simp only [HashMap.get_erase, if_neg hne]
      rw [hget]
      exact .same (by simp)
  | shutdown => exact .shutdown

theorem step_own {db' : LsDb} {w' : Wires} {op : Op} (hok : db.Ok)
    (hstep : db.step w now op = some (db', w')) :
    OwnChange db w op db'.ownBody db'.links := by
  obtain ⟨hself, hchange⟩ := step_change hstep
  exact hchange.own hok hself

end Own

section Mirror

/-- An adjacency list and a map of links describe the same links: every connection is
listed once, with the peer, cost and realms of its link. -/
structure Mirrors (adjs : List Adjacency) (links : HashMap ConnectionId Link) : Prop where
  nodup : (adjs.map Adjacency.connectionId).Nodup
  mem_iff : ∀ adj, adj ∈ adjs ↔ ∃ link, links.get adj.connectionId = some link ∧ link.adjacency = adj

/-- The own record is a router's, and describes the links. -/
def MirrorsLinks (db : LsDb) : Prop :=
  ∃ adjs, db.ownBody = some (.router adjs) ∧ Mirrors adjs db.links

/-- An operation keeps the own router LSA: it takes up only unused connections, leaves the
key of the router LSA to it, and does not shut down. -/
def KeepsRouter (db : LsDb) (w : Wires) : Op → Prop
  | .addPeer link => db.links.get link.connectionId = none
  | .addEndpoint request => ¬ db.Overwrites request
  | .removeEndpoint e => ¬ db.WithdrawsOwn w e
  | .shutdown => False
  | _ => True

variable {adjs : List Adjacency} {links : HashMap ConnectionId Link}

theorem Mirrors.insert (h : Mirrors adjs links) {link : Link}
    (hnew : links.get link.connectionId = none) :
    Mirrors (adjs ++ [link.adjacency]) (links.insert link.connectionId link) := by
  have hfresh : ∀ adj ∈ adjs, adj.connectionId ≠ link.connectionId := by
    intro adj hadj heq
    obtain ⟨old, hold, _⟩ := (h.mem_iff adj).mp hadj
    rw [heq, hnew] at hold
    cases hold
  constructor
  · rw [List.map_append, List.nodup_append]
    refine ⟨h.nodup, List.nodup_singleton _, ?_⟩
    rintro c hc c' hc' rfl
    obtain ⟨adj, hadj, rfl⟩ := List.mem_map.mp hc
    exact hfresh adj hadj (List.mem_singleton.mp hc')
  · intro adj
    rw [List.mem_append, List.mem_singleton, HashMap.get_insert]
    constructor
    · rintro (hadj | rfl)
      · rw [if_neg (hfresh adj hadj)]
        exact (h.mem_iff adj).mp hadj
      · exact ⟨link, if_pos rfl, rfl⟩
    · rintro ⟨l, hl, rfl⟩
      split at hl
      · cases hl
        exact Or.inr rfl
      · exact Or.inl ((h.mem_iff _).mpr ⟨l, hl, rfl⟩)

theorem Mirrors.erase (h : Mirrors adjs links) (c : ConnectionId) :
    Mirrors (adjs.filter fun adj => adj.connectionId ≠ c) (links.erase c) := by
  constructor
  · exact h.nodup.sublist (List.filter_sublist.map _)
  · intro adj
    rw [List.mem_filter, decide_eq_true_eq, HashMap.get_erase, h.mem_iff]
    constructor
    · rintro ⟨⟨link, hl, hadj⟩, hne⟩
      exact ⟨link, by rw [if_neg hne]; exact hl, hadj⟩
    · rintro ⟨link, hl, hadj⟩
      split at hl
      · cases hl
      · next hne => exact ⟨⟨link, hl, hadj⟩, hne⟩

variable {db db' : LsDb} {w w' : Wires} {now : Instant}

theorem MirrorsLinks.step {op : Op} (h : db.MirrorsLinks) (hok : db.Ok) (hkeeps : db.KeepsRouter w op)
    (hstep : db.step w now op = some (db', w')) : db'.MirrorsLinks := by
  obtain ⟨adjs, hbody, hmirror⟩ := h
  have hchange := step_own hok hstep
  unfold MirrorsLinks
  generalize db'.ownBody = body at hchange ⊢
  generalize db'.links = links at hchange ⊢
  cases hchange with
  | same => exact ⟨adjs, hbody, hmirror⟩
  | recosted hb =>
    rw [hbody] at hb
    cases hb
  | overwritten hover => exact absurd hover hkeeps
  | withdrawn hwith => exact absurd hwith hkeeps
  | addPeer hb =>
    rw [hbody] at hb
    cases hb
    exact ⟨_, rfl, hmirror.insert hkeeps⟩
  | removePeer hl =>
    rw [hbody]
    exact ⟨_, rfl, hmirror.erase _⟩
  | shutdown => exact absurd hkeeps id

theorem MirrorsLinks.rehash (h : db.MirrorsLinks) (hre : Rehash db db') : db'.MirrorsLinks := by
  obtain ⟨adjs, hbody, hmirror⟩ := h
  refine ⟨adjs, ?_, hmirror.nodup, fun adj => ?_⟩
  · rw [ownBody, selfKey, hre.selfId, hre.get_record]
    exact hbody
  · rw [hre.get_link]
    exact hmirror.mem_iff adj

theorem MirrorsLinks.new (selfId : NodeId) (now : Instant) : (new selfId now).MirrorsLinks := by
  have hbody : (LsDb.new selfId now).ownBody = some (.router []) := by simp [ownBody, LsDb.new, selfKey]
  refine ⟨[], hbody, List.nodup_nil, fun adj => ?_⟩
  constructor
  · intro hadj
    cases hadj
  · rintro ⟨link, hl, _⟩
    cases hl

end Mirror

/-- In every run that keeps the own router LSA, that LSA lists exactly the links. -/
theorem own_router_mirrors_links (selfId : NodeId) (db : LsDb)
    (h : Runs (fun db w _ op => db.KeepsRouter w op) selfId db) :
    ∃ r adjs, db.db.get ⟨selfId, selfId⟩ = some r ∧ r.lsa.body = .router adjs ∧
      (adjs.map Adjacency.connectionId).Nodup ∧
      (∀ c link, db.links.get c = some link → link.connectionId = c) ∧
      ∀ adj, adj ∈ adjs ↔ ∃ link, db.links.get adj.connectionId = some link ∧
        adj = ⟨link.connectionId, link.peerId, link.cost, link.realms⟩ := by
  have hinv : db.MirrorsLinks ∧ db.Ok := by
    induction h with
    | new now => exact ⟨.new selfId now, Ok.new selfId now⟩
    | rehash _ hre ih => exact ⟨ih.1.rehash hre, ih.2.rehash hre⟩
    | step w now op _ hkeeps hstep ih => exact ⟨ih.1.step ih.2 hkeeps hstep, (step_advances ih.2 hstep).ok⟩
  obtain ⟨⟨adjs, hbody, hmirror⟩, hok⟩ := hinv
  obtain ⟨r, hr, hb⟩ := Option.map_eq_some_iff.mp hbody
  rw [selfKey, h.selfId] at hr
  refine ⟨r, adjs, hr, hb, hmirror.nodup, hok.link_id, fun adj => ?_⟩
  rw [hmirror.mem_iff]
  constructor
  · rintro ⟨link, hl, rfl⟩
    exact ⟨link, hl, rfl⟩
  · rintro ⟨link, hl, rfl⟩
    exact ⟨link, hl, rfl⟩

end LsDb

/-- A link to node 2. -/
def linkToTwo : Link := ⟨1, 2, 1, {.global}, 0⟩

/-- After its first link comes up, a node lists it. -/
theorem own_router_mirrors_one_link :
    ∃ db, LsDb.Runs (fun db w _ op => db.KeepsRouter w op) 1 db ∧ db.links.get 1 = some linkToTwo ∧
      ∃ r adjs, db.db.get ⟨1, 1⟩ = some r ∧ r.lsa.body = .router adjs ∧ ⟨1, 2, 0, {.global}⟩ ∈ adjs := by
  have h₀ : LsDb.Runs (fun db w _ op => db.KeepsRouter w op) 1 (LsDb.new 1 0) := .new 0
  have h₁ := h₀.step (.idle 32) 0 (.addPeer linkToTwo) rfl rfl
  have hlink : ((LsDb.new 1 0).addPeer (.idle 32) linkToTwo 0).1.links.get 1 = some linkToTwo := rfl
  obtain ⟨r, adjs, hr, hb, _, _, hmem⟩ := LsDb.own_router_mirrors_links 1 _ h₁
  exact ⟨_, h₁, hlink, r, adjs, hr, hb, (hmem _).mpr ⟨linkToTwo, hlink, rfl⟩⟩

/-- A client that registers an endpoint under the id of its own node takes the place of the
router LSA. -/
theorem own_router_overwritten :
    ¬ ∀ (selfId : NodeId) (db : LsDb), LsDb.Runs (fun db _ _ op =>
        op ≠ .shutdown ∧ ∀ link, op = .addPeer link → db.links.get link.connectionId = none) selfId db →
      ∃ r adjs, db.db.get ⟨selfId, selfId⟩ = some r ∧ r.lsa.body = .router adjs ∧
        (adjs.map Adjacency.connectionId).Nodup ∧
        (∀ c link, db.links.get c = some link → link.connectionId = c) ∧
        ∀ adj, adj ∈ adjs ↔ ∃ link, db.links.get adj.connectionId = some link ∧
          adj = ⟨link.connectionId, link.peerId, link.cost, link.realms⟩ := by
  intro h
  have hnew : LsDb.Runs (fun db _ _ op => op ≠ .shutdown ∧
    ∀ link, op = .addPeer link → db.links.get link.connectionId = none) 1 (LsDb.new 1 0) := .new 0
  have hrun := hnew.step (.idle 32) 0 (.addEndpoint ⟨1, ⟨.anycast, .global, 0⟩, 7⟩)
    ⟨by simp, by simp⟩ rfl
  have hrec : ((LsDb.new 1 0).addEndpoint (.idle 32) ⟨1, ⟨.anycast, .global, 0⟩, 7⟩ 0).1.db.get ⟨1, 1⟩ =
      some ⟨⟨⟨1, 1⟩, 0, false, .endpoint ⟨.anycast, .global, 0⟩⟩, 0⟩ := by decide +kernel
  obtain ⟨r, adjs, hr, hb, _⟩ := h 1 _ hrun
  rw [hrec, Option.some.injEq] at hr
  rw [← hr] at hb
  cases hb

end Anybus
