import Anybus.Db.Step
import Anybus.Db.Routes

/-!
# What an operation changes

Every operation of the router on its database, described by what it does to the
records, the links and the routes. Invariants of these three parts go through the
cases of this description and never look into an operation again.
-/

namespace Anybus

/-- The parts of a database that its other contents are derived from. -/
structure Parts where
  records : HashMap LsaKey LsaRecord
  links : HashMap ConnectionId Link
  routes : RouteTable

namespace LsDb

def parts (db : LsDb) : Parts := ⟨db.db, db.links, db.routes⟩

/-- The records after the cost of an own endpoint was changed. -/
def recosted (db : LsDb) (e : EndpointId) (cost : Cost) (now : Instant) : HashMap LsaKey LsaRecord :=
  match db.db.get ⟨db.selfId, e⟩ with
  | some record =>
    match record.lsa.body with
    | .endpoint body =>
      if body.cost = cost then db.db
      else db.db.insert ⟨db.selfId, e⟩ ⟨{ record.lsa with
        seq := record.lsa.seq + 1, body := .endpoint { body with cost := cost } }, now⟩
    | .router _ => db.db
  | none => db.db

/-- The records after an effect of the route table was carried out. -/
def carriedOut (db : LsDb) (now : Instant) : Effects → HashMap LsaKey LsaRecord
  | .addLsa e info =>
    db.db.insert ⟨db.selfId, e⟩ ⟨⟨⟨db.selfId, e⟩, 0, false, .endpoint info⟩, now⟩
  | .updateLsa e cost => db.recosted e cost now
  | .removeLsa e =>
    match db.db.get ⟨db.selfId, e⟩ with
    | some _ => db.db.erase ⟨db.selfId, e⟩
    | none => db.db
  | .rebuildFib => db.db
  | .noop => db.db

/-- The records after a link was withdrawn from the own router LSA. -/
def withoutAdjacency (db : LsDb) (c : ConnectionId) (now : Instant) : HashMap LsaKey LsaRecord :=
  match db.db.get db.selfKey with
  | some record =>
    match record.lsa.body with
    | .router adjacencies =>
      let kept := adjacencies.filter fun adj => adj.connectionId ≠ c
      if kept.length < adjacencies.length then
        db.db.insert db.selfKey ⟨{ record.lsa with seq := record.lsa.seq + 1, body := .router kept }, now⟩
      else db.db
    | .endpoint _ => db.db
  | none => db.db

/-- Changing the cost of an own record is no matter of other nodes. -/
theorem get_recosted_of_ne (db : LsDb) (e : EndpointId) (cost : Cost) (now : Instant) {k : LsaKey}
    (hk : k.origin ≠ db.selfId) : (db.recosted e cost now).get k = db.db.get k := by
  have hne : k ≠ ⟨db.selfId, e⟩ := by
    rintro rfl
    exact hk rfl
  unfold recosted
  split
  · split
    · split
      · rfl
      · rw [HashMap.get_insert, if_neg hne]
    · rfl
  · rfl

theorem get_carriedOut_of_ne (db : LsDb) (now : Instant) (effect : Effects) {k : LsaKey}
    (hk : k.origin ≠ db.selfId) : (db.carriedOut now effect).get k = db.db.get k := by
  have hne : ∀ e, k ≠ ⟨db.selfId, e⟩ := by
    rintro e rfl
    exact hk rfl
  cases effect with
  | addLsa e info => rw [carriedOut, HashMap.get_insert, if_neg (hne e)]
  | updateLsa e cost => exact get_recosted_of_ne db e cost now hk
  | removeLsa e =>
    simp only [carriedOut]
    split
    · rw [HashMap.get_erase, if_neg (hne e)]
    · rfl
  | rebuildFib => rfl
  | noop => rfl

theorem get_withoutAdjacency_of_ne (db : LsDb) (c : ConnectionId) (now : Instant) {k : LsaKey}
    (hk : k.origin ≠ db.selfId) : (db.withoutAdjacency c now).get k = db.db.get k := by
  have hne : k ≠ db.selfKey := by
    rintro rfl
    exact hk rfl
  unfold withoutAdjacency
  split
  · split
    · simp only
      split
      · rw [HashMap.get_insert, if_neg hne]
      · rfl
    · rfl
  · rfl

/-- A record was not heard of for a whole timeout, even after a refresh. -/
def Stale (db : LsDb) (now : Instant) (key : LsaKey) : Prop :=
  ∃ r, (db.refreshAll now).db.get key = some r ∧ r.updatedAt + db.lsaTimeout < now

/-- Everything an operation can do to records, links and routes. -/
inductive Change (db : LsDb) (w : Wires) (now : Instant) : Op → Parts → Prop where
  /-- Nothing: the request is refused, or concerns other parts of the database. A link is
  refused only if the own record is not a router's. -/
  | quiet {op : Op}
      (h : ∀ link, op = .addPeer link → ∃ info, (db.ownRecord now).lsa.body = .endpoint info) :
      Change db w now op db.parts
  | addEndpoint {request : RegistrationRequest} {t : RouteTable} {effect : Effects}
      (h : db.routes.addEndpoint request.endpointId request.endpointInfo request.sender =
        .ok (t, effect)) :
      Change db w now (.addEndpoint request) ⟨db.carriedOut now effect, db.links, t⟩
  | removeEndpoint (e : EndpointId) :
      Change db w now (.removeEndpoint e)
        ⟨db.carriedOut now (db.routes.removeEndpoint w e).2, db.links,
          (db.routes.removeEndpoint w e).1⟩
  | setAnycastCost {e : EndpointId} {sender : Sender} {cost : Cost} {t : RouteTable}
      {outcome : SetAnycastCostOutcome} {m : HashMap LsaKey LsaRecord}
      (h : db.routes.setAnycastCost e sender cost = .ok (t, outcome))
      (hm : m = db.db ∨ ∃ c, m = db.recosted e c now) :
      Change db w now (.setAnycastCost e sender cost) ⟨m, db.links, t⟩
  | addPeer {link : Link} {adjs : List Adjacency} (h : (db.ownRecord now).lsa.body = .router adjs) :
      Change db w now (.addPeer link)
        ⟨db.db.insert db.selfKey ⟨db.advertised adjs link now, now⟩,
          db.links.insert link.connectionId link, db.routes⟩
  | removePeer {c : ConnectionId} {link : Link} (h : db.links.get c = some link) :
      Change db w now (.removePeer c) ⟨db.withoutAdjacency c now, db.links.erase c, db.routes⟩
  | handleLsa {lsa : Lsa} {c : ConnectionId} {db' : LsDb} {w' : Wires}
      (h : Handled db (db.sendAck w c lsa.key lsa.seq) lsa c now db' w') :
      Change db w now (.handleLsa lsa c) db'.parts
  | tick {m : HashMap LsaKey LsaRecord}
      (h : m = (db.refreshAll now).db ∨
        ∃ key, db.Stale now key ∧ m = (db.refreshAll now).db.erase key) :
      Change db w now .tick ⟨m, db.links, db.routes⟩
  | shutdown : Change db w now .shutdown ⟨∅, ∅, .new⟩

section Ops

variable (db : LsDb) (w : Wires) (now : Instant)

theorem updateEndpointCost_parts (e : EndpointId) (cost : Cost) :
    (db.updateEndpointCost w e cost now).1.parts = ⟨db.recosted e cost now, db.links, db.routes⟩ ∧
      (db.updateEndpointCost w e cost now).1.selfId = db.selfId := by
  unfold updateEndpointCost recosted
  cases hr : db.db.get ⟨db.selfId, e⟩ with
  | none =>
    simp only [hr]
    exact ⟨rfl, trivial⟩
  | some record =>
    cases hb : record.lsa.body with
    | router adjs =>
      simp only [hr, hb]
      exact ⟨rfl, trivial⟩
    | endpoint body =>
      simp only [hr, hb]
      by_cases hc : body.cost = cost
      · rw [if_pos hc, if_pos hc]
        exact ⟨rfl, rfl⟩
      · rw [if_neg hc, if_neg hc]
        exact ⟨rfl, rfl⟩

/-- A registration carries out what the route table asks for. -/
theorem addEndpoint_parts {request : RegistrationRequest} {t : RouteTable} {effect : Effects}
    (hadd : db.routes.addEndpoint request.endpointId request.endpointInfo request.sender =
      .ok (t, effect)) :
    (db.addEndpoint w request now).1.selfId = db.selfId ∧
      (db.addEndpoint w request now).1.parts = ⟨db.carriedOut now effect, db.links, t⟩ := by
  unfold LsDb.addEndpoint
  simp only [hadd]
  obtain ⟨_, _, _, heff⟩ := RouteTable.addEndpoint_spec hadd
  rcases heff with ⟨_, rfl⟩ | ⟨_, _, rfl⟩ | ⟨_, _, rfl | rfl⟩
  · exact ⟨rfl, rfl⟩
  · exact ⟨rfl, rfl⟩
  · exact ⟨rfl, rfl⟩
  · obtain ⟨hparts, hself⟩ := updateEndpointCost_parts { db with routes := t } w now
      request.endpointId request.endpointInfo.cost
    exact ⟨hself, hparts⟩

theorem addEndpoint_change (request : RegistrationRequest) :
    (db.addEndpoint w request now).1.selfId = db.selfId ∧
      Change db w now (.addEndpoint request) (db.addEndpoint w request now).1.parts := by
  cases hadd : db.routes.addEndpoint request.endpointId request.endpointInfo request.sender with
  | error err =>
    have hparts : (db.addEndpoint w request now).1 = db := by simp only [LsDb.addEndpoint, hadd]
    rw [hparts]
    exact ⟨rfl, .quiet (by simp)⟩
  | ok p =>
    obtain ⟨hself, hparts⟩ := addEndpoint_parts db w now hadd
    rw [hparts]
    exact ⟨hself, .addEndpoint hadd⟩

/-- Dropping the closed listeners of an endpoint carries out what the route table asks for. -/
theorem removeEndpoint_parts (e : EndpointId) :
    (db.removeEndpoint w e now).1.selfId = db.selfId ∧
      (db.removeEndpoint w e now).1.parts = ⟨db.carriedOut now (db.routes.removeEndpoint w e).2,
        db.links, (db.routes.removeEndpoint w e).1⟩ := by
  unfold LsDb.removeEndpoint
  simp only
  cases heff : (db.routes.removeEndpoint w e).2 with
  | addLsa e' info =>
    rcases db.routes.removeEndpoint_cases w e with ⟨_, heq⟩ | ⟨_, ⟨heq, _⟩ | ⟨heq | heq | ⟨c, heq⟩, _⟩⟩ <;>
      simp [heq] at heff
  | updateLsa e' cost =>
    obtain ⟨hparts, hself⟩ := updateEndpointCost_parts
      (({ db with routes := (db.routes.removeEndpoint w e).1 } : LsDb).requestRebuild now) w now e' cost
    exact ⟨hself, hparts⟩
  | removeLsa e' =>
    simp only [requestRebuild, carriedOut]
    cases db.db.get ⟨db.selfId, e'⟩ with
    | none => exact ⟨rfl, rfl⟩
    | some record => exact ⟨rfl, rfl⟩
  | rebuildFib => exact ⟨rfl, rfl⟩
  | noop => exact ⟨rfl, rfl⟩

theorem removeEndpoint_change (e : EndpointId) :
    (db.removeEndpoint w e now).1.selfId = db.selfId ∧
      Change db w now (.removeEndpoint e) (db.removeEndpoint w e now).1.parts := by
  obtain ⟨hself, hparts⟩ := removeEndpoint_parts db w now e
  rw [hparts]
  exact ⟨hself, .removeEndpoint e⟩

theorem changeAnycastCost_change (e : EndpointId) (sender : Sender) (cost : Cost) :
    (db.changeAnycastCost w e sender cost now).1.selfId = db.selfId ∧
      Change db w now (.setAnycastCost e sender cost)
        (db.changeAnycastCost w e sender cost now).1.parts := by
  unfold changeAnycastCost LsDb.setAnycastCost
  cases hset : db.routes.setAnycastCost e sender cost with
  | error err => exact ⟨rfl, .quiet (by simp)⟩
  | ok p =>
    obtain ⟨t, outcome⟩ := p
    cases outcome with
    | unchanged => exact ⟨rfl, .setAnycastCost hset (Or.inl rfl)⟩
    | changed previous new advertise =>
      cases advertise with
      | none => exact ⟨rfl, .setAnycastCost hset (Or.inl rfl)⟩
      | some minCost =>
        obtain ⟨hparts, hself⟩ := updateEndpointCost_parts { db with routes := t } w now e minCost
        refine ⟨hself, ?_⟩
        simp only [hparts]
        exact .setAnycastCost hset (Or.inr ⟨minCost, rfl⟩)

theorem addPeer_change (link : Link) :
    (db.addPeer w link now).1.selfId = db.selfId ∧
      Change db w now (.addPeer link) (db.addPeer w link now).1.parts := by
  rcases addPeer_cases db w link now with ⟨info, hbody, heq⟩ | ⟨adjs, hbody, heq⟩
  · rw [heq]
    exact ⟨rfl, .quiet fun _ _ => ⟨info, hbody⟩⟩
  · rw [heq]
    exact ⟨rfl, .addPeer hbody⟩

variable {db w now} {db' : LsDb} {w' : Wires}

theorem dropAdjacency_parts (db : LsDb) (w : Wires) (now : Instant) (c : ConnectionId) :
    (db.dropAdjacency w c now).1.parts = ⟨db.withoutAdjacency c now, db.links, db.routes⟩ ∧
      (db.dropAdjacency w c now).1.selfId = db.selfId := by
  unfold dropAdjacency withoutAdjacency
  cases hr : db.db.get db.selfKey with
  | none => exact ⟨rfl, rfl⟩
  | some record =>
    cases hb : record.lsa.body with
    | endpoint info =>
      simp only [hb]
      exact ⟨rfl, trivial⟩
    | router adjs =>
      simp only [hb]
      by_cases hlt : (adjs.filter fun adj => adj.connectionId ≠ c).length < adjs.length
      · rw [if_pos hlt, if_pos hlt]
        exact ⟨rfl, rfl⟩
      · rw [if_neg hlt, if_neg hlt]
        exact ⟨rfl, rfl⟩

/-- Giving up a link withdraws it from the own router LSA. -/
theorem removePeer_parts {c : ConnectionId} {link : Link} (hc : db.links.get c = some link)
    (h : db.removePeer w c now = some (db', w')) :
    db'.selfId = db.selfId ∧
      db'.parts = ⟨db.withoutAdjacency c now, db.links.erase c, db.routes⟩ := by
  unfold LsDb.removePeer at h
  simp only [hc] at h
  split at h
  · next d hspf =>
    simp only [Option.some.injEq, Prod.mk.injEq] at h
    obtain ⟨rfl, _⟩ := h
    obtain ⟨s, _, rfl⟩ := computeSpf_eq_some_iff.mp hspf
    obtain ⟨hparts, hself⟩ := dropAdjacency_parts { db with links := db.links.erase c } w now c
    exact ⟨hself, hparts⟩
  · cases h

theorem removePeer_of_unknown {c : ConnectionId} (hc : db.links.get c = none)
    (h : db.removePeer w c now = some (db', w')) : db' = db := by
  unfold LsDb.removePeer at h
  simp only [hc, Option.some.injEq, Prod.mk.injEq] at h
  exact h.1.symm

theorem removePeer_change {c : ConnectionId} (h : db.removePeer w c now = some (db', w')) :
    db'.selfId = db.selfId ∧ Change db w now (.removePeer c) db'.parts := by
  cases hc : db.links.get c with
  | none =>
    rw [removePeer_of_unknown hc h]
    exact ⟨rfl, .quiet (by simp)⟩
  | some link =>
    obtain ⟨hself, hparts⟩ := removePeer_parts hc h
    rw [hparts]
    exact ⟨hself, .removePeer hc⟩

/-- A link that is given up is gone, whether it was known or not. -/
theorem get_links_removePeer {c : ConnectionId} (h : db.removePeer w c now = some (db', w'))
    (c' : ConnectionId) : db'.links.get c' = if c' = c then none else db.links.get c' := by
  cases hc : db.links.get c with
  | none =>
    rw [removePeer_of_unknown hc h]
    split
    · next heq => rw [heq, hc]
    · rfl
  | some link =>
    have hlinks : db'.links = db.links.erase c := congrArg Parts.links (removePeer_parts hc h).2
    rw [hlinks, HashMap.get_erase]

/-- The record of a key was not heard of for a whole timeout. -/
def Expired (db : LsDb) (now : Instant) (key : LsaKey) : Prop :=
  ∃ record, db.db.get key = some record ∧ record.updatedAt + db.lsaTimeout < now

/-- Everything the purge does: nothing if no record is stale, and otherwise it erases one
stale record. -/
theorem purgeStaleLsas_cases (db : LsDb) (now : Instant) :
    ((∀ key, ¬ db.Expired now key) ∧ db.purgeStaleLsas now = (db, false)) ∨
    ∃ key, db.Expired now key ∧
      db.purgeStaleLsas now = ({ db with db := db.db.erase key }, true) := by
  unfold purgeStaleLsas
  cases hs : db.firstStale now with
  | none =>
    refine Or.inl ⟨fun key ⟨record, hrecord, hstale⟩ => ?_, rfl⟩
    have hnone := List.find?_eq_none.mp (Option.map_eq_none_iff.mp hs)
    have hyoung := hnone ⟨key, record⟩ (HashMap.mem_entries_iff.mpr hrecord)
    exact hyoung (decide_eq_true hstale)
  | some key =>
    obtain ⟨⟨k, record⟩, hfind, rfl⟩ := Option.map_eq_some_iff.mp hs
    have hmem := List.mem_of_find?_eq_some hfind
    have hstale := List.find?_some hfind
    exact Or.inr ⟨k, ⟨record, HashMap.mem_entries_iff.mp hmem, of_decide_eq_true hstale⟩, rfl⟩

theorem refreshAndPurgeLsas_parts (h : db.refreshAndPurgeLsas w now = some (db', w')) :
    db'.selfId = db.selfId ∧ ∃ m, db'.parts = ⟨m, db.links, db.routes⟩ ∧
      (m = (db.refreshAll now).db ∨ ∃ key, db.Stale now key ∧ m = (db.refreshAll now).db.erase key) := by
  obtain ⟨⟨p, hp⟩, _⟩ := (db.refreshAll now).floodEach_spec w (db.refreshedLsas now)
  unfold LsDb.refreshAndPurgeLsas at h
  simp only [hp] at h
  have hpurge := purgeStaleLsas_cases { db.refreshAll now with pendingTx := p } now
  generalize (LsDb.purgeStaleLsas { db.refreshAll now with pendingTx := p } now) = purged at h hpurge
  have hpurged : purged.1.selfId = db.selfId ∧ ∃ m, purged.1.parts = ⟨m, db.links, db.routes⟩ ∧
      (m = (db.refreshAll now).db ∨ ∃ key, db.Stale now key ∧ m = (db.refreshAll now).db.erase key) := by
    obtain ⟨-, heq⟩ | ⟨key, hkey, heq⟩ := hpurge
    · rw [heq]
      exact ⟨rfl, _, rfl, Or.inl rfl⟩
    · rw [heq]
      exact ⟨rfl, _, rfl, Or.inr ⟨key, hkey, rfl⟩⟩
  split at h
  · split at h
    · next d hspf =>
      simp only [Option.some.injEq, Prod.mk.injEq] at h
      obtain ⟨rfl, _⟩ := h
      obtain ⟨s, _, rfl⟩ := computeSpf_eq_some_iff.mp hspf
      exact hpurged
    · cases h
  · simp only [Option.some.injEq, Prod.mk.injEq] at h
    obtain ⟨rfl, _⟩ := h
    exact hpurged

theorem tick_change {b : Bool} (h : db.tick w now = some (db', w', b)) :
    db'.selfId = db.selfId ∧ Change db w now .tick db'.parts := by
  have hrest : ∀ {d : LsDb} {v : Wires}, d.selfId = db.selfId ∧ Change db w now .tick d.parts →
      (if d.rebuildRequested.isSome then some ({ d with rebuildRequested := none }, v, true)
        else some (d, v, false)) = some (db', w', b) →
      db'.selfId = db.selfId ∧ Change db w now .tick db'.parts := by
    intro d v hd heq
    split at heq
    · simp only [Option.some.injEq, Prod.mk.injEq] at heq
      obtain ⟨rfl, _⟩ := heq
      exact hd
    · simp only [Option.some.injEq, Prod.mk.injEq] at heq
      obtain ⟨rfl, _⟩ := heq
      exact hd
  unfold LsDb.tick at h
  simp only at h
  by_cases hdue : db.lastRefresh + db.lsaTimeout / 3 < now
  · rw [if_pos hdue] at h
    cases hr : ({ db with lastTick := now } : LsDb).refreshAndPurgeLsas w now with
    | none => simp [hr] at h
    | some r =>
      obtain ⟨d, v⟩ := r
      simp only [hr] at h
      obtain ⟨hself, m, hm, hcase⟩ := refreshAndPurgeLsas_parts hr
      refine hrest ⟨hself, ?_⟩ h
      rw [hm]
      exact .tick hcase
  · rw [if_neg hdue] at h
    refine hrest (d := { db with lastTick := now }) ⟨rfl, ?_⟩ h
    exact .quiet (by simp)

theorem shutdown_parts (db : LsDb) (w : Wires) (now : Instant) :
    (db.shutdown w now).1.selfId = db.selfId ∧ (db.shutdown w now).1.parts = ⟨∅, ∅, .new⟩ := by
  refine ⟨?_, rfl⟩
  unfold LsDb.shutdown
  cases hr : db.db.get db.selfKey with
  | none => rfl
  | some record => cases hb : record.lsa.body <;> simp [hb]

end Ops

/-- Every operation keeps the node's identity and changes the parts in one of the ways. -/
theorem step_change {db db' : LsDb} {w w' : Wires} {now : Instant} {op : Op}
    (h : db.step w now op = some (db', w')) :
    db'.selfId = db.selfId ∧ Change db w now op db'.parts := by
  cases op with
  | addEndpoint request =>
    obtain ⟨rfl, _⟩ := Prod.mk.inj (Option.some.inj h)
    exact addEndpoint_change db w now request
  | removeEndpoint e =>
    have hchange := removeEndpoint_change db w now e
    rwa [Option.some.inj h] at hchange
  | setAnycastCost e sender cost =>
    have hchange := changeAnycastCost_change db w now e sender cost
    rwa [Option.some.inj h] at hchange
  | addPeer link =>
    have hchange := addPeer_change db w now link
    rwa [Option.some.inj h] at hchange
  | removePeer c => exact removePeer_change h
  | handleLsa lsa c =>
    have hh := handleLsa_handled h
    refine ⟨?_, .handleLsa hh⟩
    cases hh <;> rfl
  | handleAck c key seq =>
    obtain ⟨rfl, _⟩ := Prod.mk.inj (Option.some.inj h)
    obtain ⟨p, hp⟩ := handleAck_frame db c key seq
    rw [hp]
    exact ⟨rfl, .quiet (by simp)⟩
  | tick =>
    obtain ⟨⟨d, v, b⟩, htick, heq⟩ := Option.map_eq_some_iff.mp h
    cases heq
    exact tick_change htick
  | buildFib =>
    obtain ⟨⟨d, fib⟩, hfib, heq⟩ := Option.map_eq_some_iff.mp h
    cases heq
    obtain ⟨s, _, rfl, _⟩ := buildFib_eq_some_iff.mp hfib
    exact ⟨rfl, .quiet (by simp)⟩
  | shutdown =>
    obtain ⟨hself, hparts⟩ := shutdown_parts db w now
    rw [Option.some.inj h] at hself hparts
    refine ⟨hself, ?_⟩
    rw [hparts]
    exact .shutdown

section Handled

variable {db db' : LsDb} {w w' : Wires} {lsa : Lsa} {c : ConnectionId} {now : Instant}

/-- Forgetting an origin forgets its routes one after the other. -/
theorem removeOrigin_routes {P : RouteTable → Prop} (db : LsDb) (origin : NodeId) (h : P db.routes)
    (hstep : ∀ t e, P t → P (t.removeRemoteEndpoint e origin).1) :
    P (db.removeOrigin origin).routes := by
  have hfold : ∀ (l : List (Σ _ : LsaKey, LsaRecord)) (t : RouteTable), P t →
      (∀ e ∈ l, e.1.origin = origin) →
      P (l.foldl (fun t e => (t.removeRemoteEndpoint e.1.endpointId e.1.origin).1) t) := by
    intro l
    induction l with
    | nil => exact fun t ht _ => ht
    | cons x l ih =>
      intro t ht hl
      refine ih _ ?_ fun e he => hl e (List.mem_cons_of_mem _ he)
      have hx := hstep t x.1.endpointId ht
      rw [← hl x List.mem_cons_self] at hx
      exact hx
  exact hfold _ _ h fun e he => of_decide_eq_true (List.mem_filter.mp he).2

/-- A property of routes that forgetting advertisers keeps holds after a withdrawal. -/
theorem routesWithoutDead_induct {P : RouteTable → Prop} (db : LsDb) (key : LsaKey) (r : LsaRecord)
    (h : P db.routes) (hstep : ∀ t e, P t → P (t.removeRemoteEndpoint e key.origin).1) :
    P (db.routesWithoutDead key r) := by
  unfold routesWithoutDead
  apply hstep
  cases r.lsa.body with
  | router adjs => exact removeOrigin_routes db key.origin h hstep
  | endpoint info => exact hstep _ _ h

/-- No LSA touches a listener. -/
theorem Handled.localsOf (h : Handled db w lsa c now db' w') (e : EndpointId) :
    db'.routes.localsOf e = db.routes.localsOf e := by
  cases h with
  | ignored => rfl
  | unknownDeath => exact RouteTable.localsOf_removeRemoteEndpoint _ _ _ _
  | died _ _ r =>
    exact routesWithoutDead_induct (P := fun t => t.localsOf e = db.routes.localsOf e) db lsa.key r rfl
      fun t e' ht => (t.localsOf_removeRemoteEndpoint _ _ _).trans ht
  | stored =>
    simp only [routesWith]
    cases hadd : db.routes.addRemoteEndpoint lsa.key.endpointId lsa.key.origin (db.routeInfo lsa) with
    | error err => rfl
    | ok p => exact RouteTable.localsOf_addRemoteEndpoint hadd e

/-- An LSA can only give a kind to an endpoint that had no entry. -/
theorem Handled.kindAt (h : Handled db w lsa c now db' w') {e : EndpointId} {k : RouteKind}
    (hk : db'.routes.kindAt e = some k) :
    db.routes.kindAt e = some k ∨ (lsa.dead = false ∧ e = lsa.key.endpointId ∧
      db.routes.kindAt e = none ∧ k = (db.routeInfo lsa).kind) := by
  cases h with
  | ignored => exact Or.inl hk
  | unknownDeath => exact Or.inl (RouteTable.kindAt_of_removeRemoteEndpoint hk)
  | died _ _ r =>
    refine Or.inl (routesWithoutDead_induct (P := fun t => t.kindAt e = some k →
      db.routes.kindAt e = some k) db lsa.key r id (fun t e' ht hk' => ?_) hk)
    exact ht (RouteTable.kindAt_of_removeRemoteEndpoint hk')
  | stored _ hd =>
    simp only [routesWith] at hk
    cases hadd : db.routes.addRemoteEndpoint lsa.key.endpointId lsa.key.origin (db.routeInfo lsa) with
    | error err =>
      simp only [hadd] at hk
      exact Or.inl hk
    | ok p =>
      simp only [hadd] at hk
      rcases RouteTable.kindAt_of_addRemoteEndpoint hadd hk with hold | ⟨rfl, hnone, hinfo⟩
      · exact Or.inl hold
      · exact Or.inr ⟨hd, rfl, hnone, hinfo⟩

end Handled

/-- The states a fresh database can reach when every operation satisfies a side
condition on the state, the channels and the time it meets. -/
inductive Runs (allowed : LsDb → Wires → Instant → Op → Prop) (selfId : NodeId) : LsDb → Prop where
  | new (now : Instant) : Runs allowed selfId (LsDb.new selfId now)
  | rehash {db db' : LsDb} : Runs allowed selfId db → Rehash db db' → Runs allowed selfId db'
  | step {db db' : LsDb} (w : Wires) {w' : Wires} (now : Instant) (op : Op) :
      Runs allowed selfId db → allowed db w now op → db.step w now op = some (db', w') →
      Runs allowed selfId db'

theorem Runs.selfId {allowed : LsDb → Wires → Instant → Op → Prop} {selfId : NodeId} {db : LsDb}
    (h : Runs allowed selfId db) : db.selfId = selfId := by
  induction h with
  | new now => rfl
  | rehash _ hre ih => exact hre.selfId.trans ih
  | step _ _ _ _ _ hstep ih => exact (step_change hstep).1.trans ih

/-- A list of operations that are allowed in any state reaches its result. -/
theorem runs_of_run {allowed : LsDb → Wires → Instant → Op → Prop} {selfId : NodeId} {db db' : LsDb}
    {log log' : Log} {l : List Action} (h : Runs allowed selfId db)
    (hall : ∀ a ∈ l, ∀ d w, allowed d w a.now a.op) (hrun : db.run log l = some (db', log')) :
    Runs allowed selfId db' := by
  induction l generalizing db log with
  | nil =>
    simp only [run, Option.some.injEq, Prod.mk.injEq] at hrun
    obtain ⟨rfl, _⟩ := hrun
    exact h
  | cons a l ih =>
    simp only [run] at hrun
    cases hs : db.step ⟨a.node, a.client, log⟩ a.now a.op with
    | none => simp [hs] at hrun
    | some r =>
      simp only [hs] at hrun
      have hstep := Runs.step _ a.now a.op h (hall a List.mem_cons_self _ _) hs
      exact ih hstep (fun b hb => hall b (List.mem_cons_of_mem _ hb)) hrun

end LsDb

end Anybus
