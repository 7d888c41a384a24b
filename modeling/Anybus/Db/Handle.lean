import Anybus.Db.Flood

/-!
# What handling an LSA can do

An LSA from a neighbour is acknowledged and then ignored, taken as the death of an
unknown record, taken as the death of a known record and flooded on, or stored and
flooded on. Every later argument about a router that receives LSAs goes through
these four cases.
-/

namespace Anybus

namespace LsDb

/-- The records left when a withdrawal replaces a record: the death of a router takes
all records of its origin. -/
def withoutDead (db : LsDb) (key : LsaKey) (current : LsaRecord) : HashMap LsaKey LsaRecord :=
  match current.lsa.body with
  | .router _ => db.db.retain fun k _ => !decide (k.origin = key.origin)
  | .endpoint _ => db.db.erase key

/-- A withdrawal leaves no record of its key, and otherwise nothing new. -/
theorem get_withoutDead {db : LsDb} {key k : LsaKey} {current r : LsaRecord}
    (h : (db.withoutDead key current).get k = some r) : k ≠ key ∧ db.db.get k = some r := by
  unfold withoutDead at h
  cases hb : current.lsa.body with
  | router adjs =>
    simp only [hb, HashMap.get_retain] at h
    obtain ⟨hr, hk⟩ := Option.filter_eq_some_iff.mp h
    refine ⟨?_, hr⟩
    rintro rfl
    simp at hk
  | endpoint info =>
    simp only [hb, HashMap.get_erase] at h
    split at h
    · cases h
    · exact ⟨‹_›, h⟩

/-- A withdrawal is no matter of other nodes. -/
theorem get_withoutDead_of_ne (db : LsDb) {key k : LsaKey} (current : LsaRecord)
    (h : k.origin ≠ key.origin) : (db.withoutDead key current).get k = db.db.get k := by
  unfold withoutDead
  cases current.lsa.body with
  | router adjs =>
    simp only [HashMap.get_retain]
    cases db.db.get k <;> simp [Option.filter, h]
  | endpoint info =>
    simp only [HashMap.get_erase]
    rw [if_neg]
    rintro rfl
    exact h rfl

/-- The routes left when a withdrawal replaces a record. -/
def routesWithoutDead (db : LsDb) (key : LsaKey) (current : LsaRecord) : RouteTable :=
  let routes := match current.lsa.body with
    | .router _ => (db.removeOrigin key.origin).routes
    | .endpoint _ => (db.routes.removeRemoteEndpoint key.endpointId key.origin).1
  (routes.removeRemoteEndpoint key.endpointId key.origin).1

/-- The routes after an LSA was stored; a refused route changes nothing. -/
def routesWith (db : LsDb) (lsa : Lsa) : RouteTable :=
  match db.routes.addRemoteEndpoint lsa.key.endpointId lsa.key.origin (db.routeInfo lsa) with
  | .ok (routes, _) => routes
  | .error _ => db.routes

/-- The four things that can happen to an LSA from a neighbour, after it was
acknowledged. -/
inductive Handled (db : LsDb) (w : Wires) (lsa : Lsa) (c : ConnectionId) (now : Instant) :
    LsDb → Wires → Prop where
  /-- It is our own, or not newer than what is known. -/
  | ignored (h : lsa.key.origin = db.selfId ∨
      ∃ r, db.db.get lsa.key = some r ∧ lsa.seq ≤ r.lsa.seq) : Handled db w lsa c now db w
  /-- It withdraws a record that is not known, and is not flooded on. -/
  | unknownDeath (ho : lsa.key.origin ≠ db.selfId) (hd : lsa.dead = true)
      (hn : db.db.get lsa.key = none) :
      Handled db w lsa c now
        { db with
          routes := (db.routes.removeRemoteEndpoint lsa.key.endpointId lsa.key.origin).1 } w
  /-- It withdraws an older record and is flooded to all. -/
  | died (ho : lsa.key.origin ≠ db.selfId) (hd : lsa.dead = true) (r : LsaRecord)
      (hr : db.db.get lsa.key = some r) (hlt : r.lsa.seq < lsa.seq) :
      Handled db w lsa c now
        { db with
          db := db.withoutDead lsa.key r
          routes := db.routesWithoutDead lsa.key r
          pendingTx := (trackAll (db.floodSends lsa none) (db.pendingTx, w)).1
          rebuildRequested := some (db.rebuildRequested.getD now) }
        (trackAll (db.floodSends lsa none) (db.pendingTx, w)).2
  /-- It is news, is stored and flooded on; a router's LSA changes the paths. -/
  | stored (ho : lsa.key.origin ≠ db.selfId) (hd : lsa.dead = false)
      (hnew : ∀ r, db.db.get lsa.key = some r → r.lsa.seq < lsa.seq)
      (hops : HashMap NodeId Link) (cost : HashMap NodeId Cost) (parent : HashMap NodeId NodeId)
      (hspf : (hops = db.nextHop ∧ cost = db.cost ∧ parent = db.parent) ∨
        ∃ s, spf (db.db.insert lsa.key ⟨lsa, now⟩) db.links db.selfId = some s ∧
          hops = s.nextHop ∧ cost = s.cost ∧ parent = s.parent) :
      Handled db w lsa c now
        { db with
          db := db.db.insert lsa.key ⟨lsa, now⟩
          routes := db.routesWith lsa
          pendingTx := (trackAll (db.floodSends lsa (some c)) (db.pendingTx, w)).1
          rebuildRequested := some (db.rebuildRequested.getD now)
          nextHop := hops
          cost := cost
          parent := parent }
        (trackAll (db.floodSends lsa (some c)) (db.pendingTx, w)).2

/-- The acknowledgement goes to the channel of the link the LSA came in on. -/
theorem sendAck_node (db : LsDb) (w : Wires) (c : ConnectionId) (key : LsaKey) (seq : Nat) (t : Tx) :
    (db.sendAck w c key seq).node t =
      (w.node t).offerAll (if (db.links.get c).map Link.tx = some t then [.lsaAck key seq] else []) := by
  unfold sendAck
  cases hl : db.links.get c with
  | none => simp
  | some link =>
    simp only [Link.sendLsaAck, Link.trySend, Option.map_some, Option.some.injEq]
    by_cases ht : link.tx = t
    · subst ht
      rw [if_pos rfl, ← Chan.offer_eq_offerAll, Chan.offer]
      cases hs : (w.node link.tx).trySend (.lsaAck key seq) <;> simp [Except.toOption]
    · rw [if_neg ht, Chan.offerAll_nil]
      cases hs : (w.node link.tx).trySend (.lsaAck key seq) <;>
        simp [Function.update_of_ne (Ne.symm ht)]

/-- What a flood queues carries the key and the number of its LSA. -/
theorem mem_queue_flood {db : LsDb} {w : Wires} {lsa : Lsa} {inC : Option ConnectionId}
    {p : HashMap (ConnectionId × LsaKey) Nat} {t : Tx} {m : NodeMessage}
    (h : m ∈ ((trackAll (db.floodSends lsa inC) (p, w)).2.node t).queue) :
    m ∈ (w.node t).queue ∨ ∃ l, m = .lsa l ∧ l.key = lsa.key ∧ l.seq = lsa.seq := by
  rw [trackAll_node] at h
  refine (Chan.mem_of_mem_offerAll h).imp_right fun hm => ?_
  obtain ⟨⟨link, lsa'⟩, hs, hmsg⟩ := List.mem_filterMap.mp hm
  obtain ⟨rfl, _⟩ := mem_floodSends.mp (List.mem_of_mem_filter hs)
  obtain ⟨l, hl, rfl⟩ := Option.map_eq_some_iff.mp hmsg
  obtain ⟨hk, hq, _⟩ := Link.permits_some hl
  exact ⟨l, rfl, hk, hq⟩

/-- Handling an LSA queues nothing but the LSA itself. -/
theorem Handled.mem_queue {db db' : LsDb} {w w' : Wires} {lsa : Lsa} {c : ConnectionId}
    {now : Instant} (h : Handled db w lsa c now db' w') {t : Tx} {m : NodeMessage}
    (hm : m ∈ (w'.node t).queue) :
    m ∈ (w.node t).queue ∨ ∃ l, m = .lsa l ∧ l.key = lsa.key ∧ l.seq = lsa.seq := by
  cases h with
  | ignored => exact Or.inl hm
  | unknownDeath => exact Or.inl hm
  | died => exact mem_queue_flood hm
  | stored => exact mem_queue_flood hm

/-- A withdrawal is ignored, the death of an unknown record or a known one. -/
theorem removeDeadLsa_handled {db db' : LsDb} {w w' : Wires} {lsa : Lsa} {now : Instant}
    (c : ConnectionId) (ho : lsa.key.origin ≠ db.selfId) (hd : lsa.dead = true)
    (h : db.removeDeadLsa w lsa now = some (db', w')) : Handled db w lsa c now db' w' := by
  unfold removeDeadLsa at h
  rw [if_pos hd] at h
  cases hr : db.db.get lsa.key with
  | none =>
    simp only [hr, Option.some.injEq, Prod.mk.injEq] at h
    obtain ⟨rfl, rfl⟩ := h
    exact .unknownDeath ho hd hr
  | some r =>
    simp only [hr] at h
    by_cases hlt : r.lsa.seq < lsa.seq
    · rw [if_pos hlt] at h
      have hdied : Handled db w lsa c now _ _ := .died ho hd r hr hlt
      unfold withoutDead routesWithoutDead at hdied
      cases hb : r.lsa.body <;>
      · simp only [hb, floodAllNeighbors_eq, Option.some.injEq, Prod.mk.injEq] at h hdied
        obtain ⟨rfl, rfl⟩ := h
        exact hdied
    · rw [if_neg hlt, Option.some.injEq, Prod.mk.injEq] at h
      obtain ⟨rfl, rfl⟩ := h
      exact .ignored (Or.inr ⟨r, hr, Nat.le_of_not_lt hlt⟩)

/-- An LSA that is news is stored. -/
theorem upsertLsa_of_news {db : LsDb} {lsa : Lsa} (now : Instant)
    (hnew : ∀ r, db.db.get lsa.key = some r → r.lsa.seq < lsa.seq) :
    db.upsertLsa lsa now = some { db with
      db := db.db.insert lsa.key ⟨lsa, now⟩
      routes := db.routesWith lsa
      rebuildRequested := some (db.rebuildRequested.getD now) } := by
  have hinfo : LsDb.routeInfo (({ db with db := db.db.insert lsa.key ⟨lsa, now⟩ } :
      LsDb).requestRebuild now) lsa = db.routeInfo lsa := rfl
  unfold upsertLsa routesWith
  cases hr : db.db.get lsa.key with
  | none =>
    simp only [hinfo]
    simp only [requestRebuild]
    cases db.routes.addRemoteEndpoint lsa.key.endpointId lsa.key.origin (db.routeInfo lsa) <;> rfl
  | some r =>
    simp only [hnew r hr, if_true, hinfo]
    simp only [requestRebuild]
    cases db.routes.addRemoteEndpoint lsa.key.endpointId lsa.key.origin (db.routeInfo lsa) <;> rfl

/-- Storing an LSA: it must be news. -/
theorem upsertLsa_eq (db : LsDb) (lsa : Lsa) (now : Instant) :
    (db.upsertLsa lsa now = none ∧ ∃ r, db.db.get lsa.key = some r ∧ lsa.seq ≤ r.lsa.seq) ∨
    ((∀ r, db.db.get lsa.key = some r → r.lsa.seq < lsa.seq) ∧
      db.upsertLsa lsa now = some { db with
        db := db.db.insert lsa.key ⟨lsa, now⟩
        routes := db.routesWith lsa
        rebuildRequested := some (db.rebuildRequested.getD now) }) := by
  cases hr : db.db.get lsa.key with
  | none =>
    have hnew : ∀ r, db.db.get lsa.key = some r → r.lsa.seq < lsa.seq := by simp [hr]
    exact Or.inr ⟨by simp, upsertLsa_of_news now hnew⟩
  | some r =>
    by_cases hlt : r.lsa.seq < lsa.seq
    · have hnew : ∀ r, db.db.get lsa.key = some r → r.lsa.seq < lsa.seq := by
        intro r' h'
        rw [hr] at h'
        exact Option.some.inj h' ▸ hlt
      exact Or.inr ⟨fun r' h' => Option.some.inj h' ▸ hlt, upsertLsa_of_news now hnew⟩
    · refine Or.inl ⟨?_, r, rfl, Nat.le_of_not_lt hlt⟩
      unfold upsertLsa
      simp only [hr, hlt, if_false]

/-- Handling an LSA acknowledges it and then does one of the four things. -/
theorem handleLsa_handled {db db' : LsDb} {w w' : Wires} {lsa : Lsa} {c : ConnectionId}
    {now : Instant} (h : db.handleLsa w lsa c now = some (db', w')) :
    Handled db (db.sendAck w c lsa.key lsa.seq) lsa c now db' w' := by
  unfold handleLsa at h
  simp only at h
  by_cases ho : lsa.key.origin = db.selfId
  · rw [if_pos ho, Option.some.injEq, Prod.mk.injEq] at h
    obtain ⟨rfl, rfl⟩ := h
    exact .ignored (Or.inl ho)
  rw [if_neg ho] at h
  cases hd : lsa.dead with
  | true =>
    rw [if_pos hd] at h
    exact removeDeadLsa_handled c ho hd h
  | false =>
    rw [if_neg (by simp [hd])] at h
    rcases upsertLsa_eq db lsa now with ⟨hup, r, hr, hle⟩ | ⟨hnew, hup⟩
    · simp only [hup, Option.some.injEq, Prod.mk.injEq] at h
      obtain ⟨rfl, rfl⟩ := h
      exact .ignored (Or.inr ⟨r, hr, hle⟩)
    · simp only [hup, floodAllNeighbors_eq] at h
      cases hb : lsa.body with
      | endpoint info =>
        simp only [hb, Option.some.injEq, Prod.mk.injEq] at h
        obtain ⟨rfl, rfl⟩ := h
        exact .stored ho hd hnew _ _ _ (Or.inl ⟨rfl, rfl, rfl⟩)
      | router adjs =>
        simp only [hb, computeSpf] at h
        cases hs : spf (db.db.insert lsa.key ⟨lsa, now⟩) db.links db.selfId with
        | none => simp [hs] at h
        | some s =>
          simp only [hs, Option.some.injEq, Prod.mk.injEq] at h
          obtain ⟨rfl, rfl⟩ := h
          exact .stored ho hd hnew _ _ _ (Or.inr ⟨s, hs, rfl, rfl, rfl⟩)

/-- Handling an LSA panics only in the path computation after a router LSA. -/
theorem handleLsa_eq_none {db : LsDb} {w : Wires} {lsa : Lsa} {c : ConnectionId} {now : Instant}
    (h : db.handleLsa w lsa c now = none) :
    lsa.dead = false ∧ (∃ adjs, lsa.body = .router adjs) ∧
      spf (db.db.insert lsa.key ⟨lsa, now⟩) db.links db.selfId = none := by
  unfold handleLsa at h
  simp only at h
  split at h
  · cases h
  split at h
  · next hd =>
    unfold removeDeadLsa at h
    rw [if_pos hd] at h
    split at h
    · split at h <;> cases h
    · cases h
  · next hd =>
    rcases upsertLsa_eq db lsa now with ⟨hup, _⟩ | ⟨_, hup⟩
    · simp [hup] at h
    · simp only [hup, floodAllNeighbors_eq] at h
      cases hb : lsa.body with
      | endpoint info => simp [hb] at h
      | router adjs =>
        simp only [hb, computeSpf] at h
        refine ⟨by simpa using hd, ⟨adjs, rfl⟩, ?_⟩
        cases hs : spf (db.db.insert lsa.key ⟨lsa, now⟩) db.links db.selfId with
        | none => rfl
        | some s => simp [hs] at h

end LsDb

end Anybus
