import Anybus.Db.OwnRouter

/-!
# Which LSAs crash the router

The path computation needs a link for every adjacency of the own router LSA, which every
reachable database has. Building the forwarding table has no branch for multicast
entries, and an advertisement from another node can create one.
-/

namespace Anybus

namespace LsDb

/-- No endpoint is of the kind that a forwarding table cannot hold. -/
def NoMulticast (db : LsDb) : Prop := ∀ e, db.routes.kindAt e ≠ some .multicast

/-- What the path computation rests on: the only own router record is that of the node
itself, and all its adjacencies have links. -/
structure Sound (db : LsDb) : Prop where
  ok : db.Ok
  own_key : ∀ k r adjs, db.db.get k = some r → r.lsa.body = .router adjs →
    k.origin = db.selfId → k = db.selfKey
  reach : ∀ adjs, db.ownBody = some (.router adjs) →
    ∀ adj ∈ adjs, ∃ link, db.links.get adj.connectionId = some link ∧ link.peerId = adj.peerId

/-- A multicast advertisement of another node is news and finds no entry for its endpoint. -/
def Crashes (db : LsDb) (lsa : Lsa) : Prop :=
  lsa.dead = false ∧ lsa.key.origin ≠ db.selfId ∧
    (∀ r, db.db.get lsa.key = some r → r.lsa.seq < lsa.seq) ∧
    (∃ info, lsa.body = .endpoint info ∧ info.kind = .multicast) ∧
    db.routes.kindAt lsa.key.endpointId = none

/-- Links that lead to all neighbours of the own router record reach all own neighbours. -/
theorem linksReach_of_own {db : LsDb}
    (hkey : ∀ k r adjs, db.db.get k = some r → r.lsa.body = .router adjs →
      k.origin = db.selfId → k = db.selfKey)
    (hreach : ∀ adjs, db.ownBody = some (.router adjs) → ∀ adj ∈ adjs,
      ∃ link, db.links.get adj.connectionId = some link ∧ link.peerId = adj.peerId) :
    db.LinksReach db.selfId := by
  intro k r adjs hk hb ho adj hadj
  have hself := hkey k r adjs hk hb ho
  rw [hself] at hk
  have hbody : db.ownBody = some (.router adjs) := by rw [ownBody, hk, Option.map_some, hb]
  obtain ⟨link, hl, hp⟩ := hreach adjs hbody adj hadj
  exact ⟨adj.connectionId, link, hl, hp⟩

theorem Sound.linksReach {db : LsDb} (h : db.Sound) : db.LinksReach db.selfId :=
  linksReach_of_own h.own_key h.reach

section Table

variable {db : LsDb}

/-- Only multicast entries have no place in a forwarding table. -/
theorem fibEntry_eq_none_iff (entry : LsRouteEntry) :
    db.fibEntry entry = none ↔ entry.kind = .multicast := by
  unfold fibEntry
  cases entry.kind <;> simp

theorem buildTable_eq_none_iff (l : List (Σ _ : EndpointId, LsRouteEntry))
    (table : HashMap EndpointId FibEntry) :
    db.buildTable l table = none ↔ ∃ x ∈ l, x.2.kind = .multicast := by
  induction l generalizing table with
  | nil => simp [buildTable]
  | cons x l ih =>
    obtain ⟨e, entry⟩ := x
    rw [buildTable]
    cases hf : db.fibEntry entry with
    | none =>
      have hk := (fibEntry_eq_none_iff entry).mp hf
      simp [hk]
    | some choice =>
      have hk : entry.kind ≠ .multicast := by
        intro hk
        rw [(fibEntry_eq_none_iff entry).mpr hk] at hf
        cases hf
      cases choice with
      | none =>
        simp only [ih]
        simp [hk]
      | some f =>
        simp only [ih]
        simp [hk]

theorem noMulticast_iff : db.NoMulticast ↔ ∀ x ∈ db.routes.table.entries, x.2.kind ≠ .multicast := by
  constructor
  · rintro h ⟨e, entry⟩ hx hk
    have hget := HashMap.mem_entries_iff.mp hx
    apply h e
    rw [RouteTable.kindAt, hget, Option.map_some, hk]
  · intro h e hk
    obtain ⟨entry, hget, hkind⟩ := Option.map_eq_some_iff.mp hk
    exact h ⟨e, entry⟩ (HashMap.mem_entries_iff.mpr hget) hkind

/-- Over a database that is sound, building the table panics exactly at a multicast entry. -/
theorem buildFib_isSome_iff (h : db.Sound) : (∃ r, db.buildFib = some r) ↔ db.NoMulticast := by
  obtain ⟨s, hs, _⟩ := spf_hops h.linksReach.linksCover
  rw [noMulticast_iff]
  constructor
  · rintro ⟨⟨db', fib⟩, hfib⟩ x hx hk
    obtain ⟨s', hs', rfl, htable⟩ := buildFib_eq_some_iff.mp hfib
    rw [buildFromDb, Option.map_eq_some_iff] at htable
    obtain ⟨table, ht, _⟩ := htable
    rw [(buildTable_eq_none_iff _ _).mpr ⟨x, hx, hk⟩] at ht
    cases ht
  · intro hno
    cases hb : LsDb.buildFromDb { db with
        nextHop := s.nextHop, cost := s.cost, parent := s.parent, rebuildRequested := none } with
    | some fib => exact ⟨_, buildFib_eq_some_iff.mpr ⟨s, hs, rfl, hb⟩⟩
    | none =>
      rw [buildFromDb, Option.map_eq_none_iff] at hb
      obtain ⟨x, hx, hk⟩ := (buildTable_eq_none_iff _ _).mp hb
      exact absurd hk (hno x hx)

/-- After an LSA there is a multicast entry exactly if the LSA created one. -/
theorem Handled.noMulticast_iff {db' : LsDb} {w w' : Wires} {lsa : Lsa} {c : ConnectionId}
    {now : Instant} (hno : db.NoMulticast) (h : Handled db w lsa c now db' w') :
    db'.NoMulticast ↔ ¬ db.Crashes lsa := by
  constructor
  · rintro hno' ⟨halive, hself, hnew, ⟨info, hbody, hkind⟩, hnone⟩
    cases h with
    | ignored hi =>
      obtain ⟨r, hr, hle⟩ := hi.resolve_left hself
      exact absurd (hnew r hr) (Nat.not_lt.mpr hle)
    | unknownDeath _ hd =>
      rw [halive] at hd
      cases hd
    | died _ hd =>
      rw [halive] at hd
      cases hd
    | stored =>
      have hget : db.routes.table.get lsa.key.endpointId = none := by
        rwa [RouteTable.kindAt, Option.map_eq_none_iff] at hnone
      obtain ⟨t, eff, hadd⟩ := RouteTable.addRemoteEndpoint_of_none lsa.key.origin
        (db.routeInfo lsa) hget
      apply hno' lsa.key.endpointId
      simp only [routesWith, hadd]
      rw [RouteTable.kindAt, (RouteTable.addRemoteEndpoint_spec hadd).2, if_pos rfl, Option.map_some]
      simp [routeInfo, hbody, hkind]
  · intro hcrash e hk
    rcases h.kindAt hk with hold | ⟨halive, rfl, hnone, hinfo⟩
    · exact hno e hold
    · apply hcrash
      cases hb : lsa.body with
      | router adjs =>
        rw [routeInfo, hb] at hinfo
        cases hinfo
      | endpoint info =>
        have hmulti : info.kind = .multicast := by
          rw [routeInfo, hb] at hinfo
          exact hinfo.symm
        cases h with
        | ignored => exact absurd hk (hno _)
        | unknownDeath _ hd =>
          rw [halive] at hd
          cases hd
        | died _ hd =>
          rw [halive] at hd
          cases hd
        | stored hself _ hnew => exact ⟨halive, hself, hnew, ⟨info, hb, hmulti⟩, hnone⟩

end Table

section Sound

variable {db db' : LsDb} {w w' : Wires} {now : Instant}

/-- A changed own record is an endpoint's. -/
theorem get_recosted (e : EndpointId) (cost : Cost) {k : LsaKey} {r : LsaRecord}
    {adjs : List Adjacency} (h : (db.recosted e cost now).get k = some r)
    (hb : r.lsa.body = .router adjs) : db.db.get k = some r := by
  unfold recosted at h
  split at h
  · split at h
    · split at h
      · exact h
      · rw [HashMap.get_insert] at h
        split at h
        · cases h
          cases hb
        · exact h
    · exact h
  · exact h

theorem get_carriedOut (effect : Effects) {k : LsaKey} {r : LsaRecord} {adjs : List Adjacency}
    (h : (db.carriedOut now effect).get k = some r) (hb : r.lsa.body = .router adjs) :
    db.db.get k = some r := by
  cases effect with
  | addLsa e info =>
    rw [carriedOut, HashMap.get_insert] at h
    split at h
    · cases h
      cases hb
    · exact h
  | updateLsa e cost => exact get_recosted e cost h hb
  | removeLsa e =>
    rw [get_carriedOut_removeLsa] at h
    split at h
    · cases h
    · exact h
  | rebuildFib => exact h
  | noop => exact h

/-- Router records of the node itself are only written under its own key. -/
theorem Change.own_router {op : Op} {p : Parts} (h : Change db w now op p) {k : LsaKey} {r : LsaRecord}
    {adjs : List Adjacency} (hr : p.records.get k = some r) (hb : r.lsa.body = .router adjs)
    (ho : k.origin = db.selfId) :
    k = db.selfKey ∨ ∃ r', db.db.get k = some r' ∧ r'.lsa.body = .router adjs := by
  cases h with
  | quiet => exact Or.inr ⟨r, hr, hb⟩
  | addEndpoint => exact Or.inr ⟨r, get_carriedOut _ hr hb, hb⟩
  | removeEndpoint => exact Or.inr ⟨r, get_carriedOut _ hr hb, hb⟩
  | setAnycastCost _ hm =>
    rcases hm with rfl | ⟨c, rfl⟩
    · exact Or.inr ⟨r, hr, hb⟩
    · exact Or.inr ⟨r, get_recosted _ _ hr hb, hb⟩
  | addPeer =>
    rw [HashMap.get_insert] at hr
    split at hr
    · next hk => exact Or.inl hk
    · exact Or.inr ⟨r, hr, hb⟩
  | removePeer =>
    simp only [withoutAdjacency] at hr
    split at hr
    · split at hr
      · split at hr
        · rw [HashMap.get_insert] at hr
          split at hr
          · next hk => exact Or.inl hk
          · exact Or.inr ⟨r, hr, hb⟩
        · exact Or.inr ⟨r, hr, hb⟩
      · exact Or.inr ⟨r, hr, hb⟩
    · exact Or.inr ⟨r, hr, hb⟩
  | handleLsa hh =>
    simp only [parts] at hr
    rw [hh.frame.2.2 k ho] at hr
    exact Or.inr ⟨r, hr, hb⟩
  | tick hm =>
    have hold : (db.refreshAll now).db.get k = some r := by
      rcases hm with rfl | ⟨key, _, rfl⟩
      · exact hr
      · rw [HashMap.get_erase] at hr
        split at hr
        · cases hr
        · exact hr
    rw [refreshAll, HashMap.get_mapValues] at hold
    obtain ⟨r', hr', rfl⟩ := Option.map_eq_some_iff.mp hold
    rw [refreshed_body] at hb
    exact Or.inr ⟨r', hr', hb⟩
  | shutdown => cases hr

/-- After a change that takes up only unused connections the own router record is still that
of the node itself, and its adjacencies have links. -/
theorem Sound.of_change {op : Op} (h : db.Sound)
    (hfresh : ∀ link, op = .addPeer link → db.links.get link.connectionId = none)
    (hself : db'.selfId = db.selfId) (hchange : Change db w now op db'.parts) :
    (∀ k r adjs, db'.db.get k = some r → r.lsa.body = .router adjs → k.origin = db'.selfId →
      k = db'.selfKey) ∧
    ∀ adjs, db'.ownBody = some (.router adjs) → ∀ adj ∈ adjs,
      ∃ link, db'.links.get adj.connectionId = some link ∧ link.peerId = adj.peerId := by
  have hkey : db'.selfKey = db.selfKey := by simp [selfKey, hself]
  refine ⟨fun k r adjs hr hb ho => ?_, ?_⟩
  · rw [hself] at ho
    rw [hkey]
    rcases hchange.own_router hr hb ho with hk | ⟨r', hr', hb'⟩
    · exact hk
    · exact h.own_key k r' adjs hr' hb' ho
  · have hown := hchange.own h.ok hself
    generalize db'.ownBody = body at hown ⊢
    generalize db'.links = links at hown ⊢
    intro adjs hbody adj hadj
    cases hown with
    | same => exact h.reach adjs hbody adj hadj
    | recosted => cases hbody
    | overwritten => cases hbody
    | withdrawn => cases hbody
    | @addPeer link old hb =>
      cases hbody
      rw [HashMap.get_insert]
      rcases List.mem_append.mp hadj with hold | hnew
      · have hreach : ∃ l, db.links.get adj.connectionId = some l ∧ l.peerId = adj.peerId := by
          cases hown : db.ownBody with
          | none =>
            rw [hown] at hb
            cases hb
            cases hold
          | some b =>
            rw [hown, Option.getD_some] at hb
            exact h.reach old (hown.trans (congrArg some hb)) adj hold
        obtain ⟨l, hl, hp⟩ := hreach
        have hne : adj.connectionId ≠ link.connectionId := by
          intro heq
          rw [heq, hfresh link rfl] at hl
          cases hl
        rw [if_neg hne]
        exact ⟨l, hl, hp⟩
      · rw [List.mem_singleton.mp hnew]
        exact ⟨link, if_pos rfl, rfl⟩
    | @removePeer c link hl =>
      obtain ⟨b, hown, hwithout⟩ := Option.map_eq_some_iff.mp hbody
      cases b with
      | endpoint info => cases hwithout
      | router old =>
        cases hwithout
        obtain ⟨hmem, hne⟩ := List.mem_filter.mp hadj
        rw [decide_eq_true_eq] at hne
        rw [HashMap.get_erase, if_neg hne]
        exact h.reach old hown adj hmem
    | shutdown => cases hbody

/-- Every operation that takes up only unused connections keeps a database sound. -/
theorem Sound.step {op : Op} (h : db.Sound)
    (hfresh : ∀ link, op = .addPeer link → db.links.get link.connectionId = none)
    (hstep : db.step w now op = some (db', w')) : db'.Sound := by
  obtain ⟨hself, hchange⟩ := step_change hstep
  obtain ⟨hkey, hreach⟩ := h.of_change hfresh hself hchange
  exact ⟨(step_advances h.ok hstep).ok, hkey, hreach⟩

theorem Sound.new (selfId : NodeId) (now : Instant) : (new selfId now).Sound := by
  refine ⟨Ok.new selfId now, fun k r adjs hr _ _ => ?_, fun adjs hbody adj hadj => ?_⟩
  · rw [LsDb.new, HashMap.get_insert] at hr
    split at hr
    · next hk => exact hk
    · cases hr
  · have hown : (LsDb.new selfId now).ownBody = some (.router []) := by simp [ownBody, LsDb.new, selfKey]
    rw [hown] at hbody
    cases hbody
    cases hadj

theorem Sound.rehash (h : db.Sound) (hre : Rehash db db') : db'.Sound := by
  have hkey : db'.selfKey = db.selfKey := by simp [selfKey, hre.selfId]
  refine ⟨h.ok.rehash hre, fun k r adjs hr hb ho => ?_, fun adjs hbody adj hadj => ?_⟩
  · rw [hre.get_record] at hr
    rw [hre.selfId] at ho
    rw [hkey]
    exact h.own_key k r adjs hr hb ho
  · rw [ownBody, hkey, hre.get_record] at hbody
    rw [hre.get_link]
    exact h.reach adjs hbody adj hadj

theorem NoMulticast.rehash (h : db.NoMulticast) (hre : Rehash db db') : db'.NoMulticast := by
  intro e hk
  rw [RouteTable.kindAt, hre.get_route] at hk
  exact h e hk

end Sound

/-- An LSA that comes in, with the connection it comes from, the channels and the time. -/
structure Arrival where
  lsa : Lsa
  sender : ConnectionId
  w : Wires
  now : Instant

/-- The executions in which a router handles LSAs one after the other and builds a new
table after each. Maps may be rehashed at any time. -/
inductive Absorbs : LsDb → List Arrival → LsDb → Prop where
  | nil {db : LsDb} : Absorbs db [] db
  | cons {db d₁ d₂ d₃ d₄ db' : LsDb} {a : Arrival} {l : List Arrival} {w : Wires}
      {fib : ForwardingTable} (hhandle : db.handleLsa a.w a.lsa a.sender a.now = some (d₁, w))
      (hre : Rehash d₁ d₂) (hfib : d₂.buildFib = some (d₃, fib)) (hre' : Rehash d₃ d₄)
      (hrest : Absorbs d₄ l db') : Absorbs db (a :: l) db'

/-- Handling an LSA can panic, or building the table after it. -/
def PanicsAt (db : LsDb) (a : Arrival) : Prop :=
  db.handleLsa a.w a.lsa a.sender a.now = none ∨
    ∃ d w d', db.handleLsa a.w a.lsa a.sender a.now = some (d, w) ∧ Rehash d d' ∧ d'.buildFib = none

section Absorbs

variable {db db' : LsDb}

theorem Sound.handleLsa {w w' : Wires} {lsa : Lsa} {c : ConnectionId} {now : Instant} (h : db.Sound)
    (hs : db.handleLsa w lsa c now = some (db', w')) : db'.Sound := by
  have hstep : db.step w now (.handleLsa lsa c) = some (db', w') := hs
  exact h.step (by simp) hstep

/-- At a sound database without multicast entries, exactly the crashing LSAs panic. -/
theorem panicsAt_iff (h : db.Sound) (hno : db.NoMulticast) (a : Arrival) :
    db.PanicsAt a ↔ db.Crashes a.lsa := by
  obtain ⟨d, w, hs⟩ := handleLsa_total h.linksReach a.w a.lsa a.sender a.now
  have hsound := h.handleLsa hs
  have hiff := (handleLsa_handled hs).noMulticast_iff hno
  constructor
  · rintro (hnone | ⟨d', w', d₂, hs', hre, hfib⟩)
    · rw [hs] at hnone
      cases hnone
    · rw [hs] at hs'
      cases hs'
      by_contra hcrash
      have hno₂ := (hiff.mpr hcrash).rehash hre
      obtain ⟨r, hr⟩ := (buildFib_isSome_iff (hsound.rehash hre)).mpr hno₂
      rw [hr] at hfib
      cases hfib
  · intro hcrash
    refine Or.inr ⟨d, w, d, hs, .refl d, ?_⟩
    cases hfib : d.buildFib with
    | none => rfl
    | some r =>
      have hno' := (buildFib_isSome_iff hsound).mp ⟨r, hfib⟩
      exact absurd hcrash (hiff.mp hno')

/-- Building the table keeps what it rests on. -/
theorem Sound.buildFib {fib : ForwardingTable} (h : db.Sound) (hno : db.NoMulticast)
    (hfib : db.buildFib = some (db', fib)) : db'.Sound ∧ db'.NoMulticast := by
  have hstep : db.step (.idle 0) 0 .buildFib = some (db', .idle 0) := by simp [LsDb.step, hfib]
  refine ⟨h.step (by simp) hstep, ?_⟩
  obtain ⟨s, _, rfl, _⟩ := buildFib_eq_some_iff.mp hfib
  exact hno

theorem Absorbs.sound {l : List Arrival} (ha : Absorbs db l db') (h : db.Sound)
    (hno : db.NoMulticast) : db'.Sound ∧ db'.NoMulticast := by
  induction ha with
  | nil => exact ⟨h, hno⟩
  | @cons db d₁ d₂ d₃ d₄ db' a l w fib hhandle hre hfib hre' hrest ih =>
    have h₂ := (h.handleLsa hhandle).rehash hre
    have hno₂ := (buildFib_isSome_iff h₂).mp ⟨_, hfib⟩
    obtain ⟨h₃, hno₃⟩ := h₂.buildFib hno₂ hfib
    exact ih (h₃.rehash hre') (hno₃.rehash hre')

end Absorbs

end LsDb

end Anybus
