import Anybus.Db.Change
import Anybus.Router.Copies

/-!
# Listeners

Which channels an endpoint serves, and what an operation of the router writes into them.
Only a registration adds a channel and only the end of a listener takes some away. Into
a channel goes the refusal of its registration and the farewell of the router, nothing
else.
-/

namespace Anybus

/-- A listener's channel is among the routes of an endpoint. -/
def RouteTable.Serves (t : RouteTable) (e : EndpointId) (s : Sender) : Prop :=
  .loc s ∈ (t.routesOf e).map LsRoute.via

section Serves

variable {db db' : LsDb} {w w' : Wires} {now : Instant} {op : Op} {e : EndpointId} {s : Sender}

theorem RouteTable.serves_iff_localsOf (t : RouteTable) :
    t.Serves e s ↔ .loc s ∈ (t.localsOf e).map LsRoute.via := by
  unfold RouteTable.Serves RouteTable.localsOf
  simp only [List.mem_map, List.mem_filter]
  constructor
  · rintro ⟨r, hr, hv⟩
    exact ⟨r, ⟨hr, by rw [hv]; rfl⟩, hv⟩
  · rintro ⟨r, ⟨hr, _⟩, hv⟩
    exact ⟨r, hr, hv⟩

/-- Only a registration adds a listener, and only the end of one takes listeners away. -/
theorem LsDb.step_serves (h : db.step w now op = some (db', w'))
    (hadd : ∀ request, op ≠ .addEndpoint request) (hremove : ∀ e, op ≠ .removeEndpoint e)
    (hshut : op ≠ .shutdown) : db'.routes.Serves e s ↔ db.routes.Serves e s := by
  obtain ⟨_, hchange⟩ := step_change h
  generalize hp : db'.parts = p at hchange
  have hroutes : db'.routes = p.routes := congrArg Parts.routes hp
  rw [hroutes]
  cases hchange with
  | quiet | addPeer | removePeer | tick => exact Iff.rfl
  | addEndpoint => exact absurd rfl (hadd _)
  | removeEndpoint => exact absurd rfl (hremove _)
  | setAnycastCost hset =>
    unfold RouteTable.Serves
    rw [RouteTable.setAnycastCost_via hset]
  | handleLsa hh =>
    rw [RouteTable.serves_iff_localsOf, RouteTable.serves_iff_localsOf]
    simp only [parts]
    rw [hh.localsOf]
  | shutdown => exact absurd rfl hshut

/-- A registration is accepted if the route table takes it. -/
theorem LsDb.addEndpoint_routes (db : LsDb) (w : Wires) (request : RegistrationRequest)
    (now : Instant) :
    (∃ err, db.routes.addEndpoint request.endpointId request.endpointInfo request.sender =
        .error err ∧ (db.addEndpoint w request now).1 = db ∧
        (db.addEndpoint w request now).2.2 = false) ∨
      ∃ t effect, db.routes.addEndpoint request.endpointId request.endpointInfo request.sender =
        .ok (t, effect) ∧ (db.addEndpoint w request now).1.routes = t ∧
        (db.addEndpoint w request now).2.2 = true := by
  unfold LsDb.addEndpoint
  cases hadd : db.routes.addEndpoint request.endpointId request.endpointInfo request.sender with
  | error err => exact Or.inl ⟨err, rfl, rfl, rfl⟩
  | ok p =>
    obtain ⟨t, effect⟩ := p
    refine Or.inr ⟨t, effect, rfl, ?_⟩
    cases effect with
    | addLsa | removeLsa | rebuildFib | noop => exact ⟨rfl, rfl⟩
    | updateLsa e cost =>
      have hparts := (updateEndpointCost_parts { db with routes := t } w now e cost).1
      exact ⟨congrArg Parts.routes hparts, rfl⟩

/-- A registration adds its listener if it is accepted. -/
theorem LsDb.addEndpoint_serves (db : LsDb) (w : Wires) (request : RegistrationRequest)
    (now : Instant) :
    (db.addEndpoint w request now).1.routes.Serves e s ↔ db.routes.Serves e s ∨
      ((db.addEndpoint w request now).2.2 = true ∧ request.endpointInfo.kind ≠ .node ∧
        request.endpointId = e ∧ request.sender = s) := by
  rcases db.addEndpoint_routes w request now with ⟨_, _, hsame, hno⟩ | ⟨t, effect, hadd, hroutes, hyes⟩
  · rw [hsame, hno]
    simp
  · obtain ⟨_, _, rfl, _⟩ := RouteTable.addEndpoint_spec hadd
    unfold RouteTable.Serves
    rw [hroutes, hyes, RouteTable.routesOf_setEntry]
    by_cases he : e = request.endpointId
    · subst he
      rw [if_pos rfl, List.map_append, List.mem_append]
      by_cases hk : request.endpointInfo.kind = .node
      · simp [RouteTable.pushed, hk]
      · simp [RouteTable.pushed, hk, eq_comm]
    · rw [if_neg he]
      simp [Ne.symm he]

/-- The end of a listener takes away the closed ones of its endpoint. -/
theorem LsDb.removeEndpoint_serves (db : LsDb) (w : Wires) (e' : EndpointId) (now : Instant) :
    (db.removeEndpoint w e' now).1.routes.Serves e s ↔
      db.routes.Serves e s ∧ ¬ (e = e' ∧ (w.client s).closed = true) := by
  have hroutes : (db.removeEndpoint w e' now).1.routes = (db.routes.removeEndpoint w e').1 :=
    congrArg Parts.routes (removeEndpoint_parts db w now e').2
  unfold RouteTable.Serves
  rw [hroutes, RouteTable.routesOf_removeEndpoint]
  by_cases he : e = e'
  · subst he
    simp only [if_true, List.mem_map, List.mem_filter, true_and]
    constructor
    · rintro ⟨r, ⟨hr, hopen⟩, hv⟩
      refine ⟨⟨r, hr, hv⟩, fun hclosed => ?_⟩
      simp [LsRoute.staysOpen, hv, hclosed] at hopen
    · rintro ⟨⟨r, hr, hv⟩, hopen⟩
      exact ⟨r, ⟨hr, by simpa [LsRoute.staysOpen, hv] using hopen⟩, hv⟩
  · simp [he]

end Serves

section Clients

variable {db db' : LsDb} {w w' : Wires} {now : Instant}

namespace LsDb

theorem flood_client (db : LsDb) (w : Wires) (lsa : Lsa) (c : Option ConnectionId) :
    (db.floodAllNeighbors w lsa c).2.client = w.client := by
  rw [floodAllNeighbors_eq]
  exact trackAll_client _ _

theorem floodEach_client (db : LsDb) (w : Wires) (l : List Lsa) :
    (db.floodEach w l).2.client = w.client := by
  unfold floodEach
  induction l generalizing db w with
  | nil => rfl
  | cons lsa l ih => rw [List.foldl_cons, ih, flood_client]

theorem sendAck_client (db : LsDb) (w : Wires) (c : ConnectionId) (key : LsaKey) (seq : Nat) :
    (db.sendAck w c key seq).client = w.client := by
  unfold sendAck Link.sendLsaAck Link.trySend
  cases db.links.get c with
  | none => rfl
  | some link => cases hs : (w.node link.tx).trySend (.lsaAck key seq) <;> simp [hs]

theorem updateEndpointCost_client (db : LsDb) (w : Wires) (e : EndpointId) (cost : Cost)
    (now : Instant) : (db.updateEndpointCost w e cost now).2.client = w.client := by
  unfold updateEndpointCost
  simp only
  split
  · split
    · split
      · rfl
      · exact flood_client _ _ _ _
    · rfl
  · rfl

theorem dropAdjacency_client (db : LsDb) (w : Wires) (c : ConnectionId) (now : Instant) :
    (db.dropAdjacency w c now).2.client = w.client := by
  unfold dropAdjacency
  split
  · split
    · simp only
      split
      · exact flood_client _ _ _ _
      · rfl
    · rfl
  · rfl

theorem removeEndpoint_client (db : LsDb) (w : Wires) (e : EndpointId) (now : Instant) :
    (db.removeEndpoint w e now).2.client = w.client := by
  unfold LsDb.removeEndpoint
  simp only
  split
  · exact updateEndpointCost_client _ _ _ _ _
  · split
    · exact flood_client _ _ _ _
    · rfl
  · rfl

theorem changeAnycastCost_client (db : LsDb) (w : Wires) (e : EndpointId) (s : Sender) (cost : Cost)
    (now : Instant) : (db.changeAnycastCost w e s cost now).2.client = w.client := by
  unfold changeAnycastCost
  split
  · exact updateEndpointCost_client _ _ _ _ _
  · rfl
  · rfl

theorem Handled.client {lsa : Lsa} {c : ConnectionId} (h : Handled db w lsa c now db' w') :
    w'.client = w.client := by
  cases h with
  | ignored | unknownDeath => rfl
  | died | stored => exact trackAll_client _ _

theorem refreshAndPurgeLsas_client (h : db.refreshAndPurgeLsas w now = some (db', w')) :
    w'.client = w.client := by
  have hflood := floodEach_client (db.refreshAll now) w (db.refreshedLsas now)
  unfold LsDb.refreshAndPurgeLsas at h
  simp only at h
  split at h
  · split at h
    · obtain ⟨_, rfl⟩ := Prod.mk.inj (Option.some.inj h)
      exact hflood
    · cases h
  · obtain ⟨_, rfl⟩ := Prod.mk.inj (Option.some.inj h)
    exact hflood

theorem tick_client {rebuild : Bool} (h : db.tick w now = some (db', w', rebuild)) :
    w'.client = w.client := by
  unfold LsDb.tick at h
  simp only at h
  split at h
  · next d v hr =>
    have hv : v.client = w.client := by
      split at hr
      · exact refreshAndPurgeLsas_client hr
      · obtain ⟨_, rfl⟩ := Prod.mk.inj (Option.some.inj hr)
        rfl
    split at h
    · obtain ⟨_, rfl, _⟩ := h
      exact hv
    · obtain ⟨_, rfl, _⟩ := h
      exact hv
  · cases h

/-- Apart from registrations and the shutdown, no operation writes to a listener. -/
theorem step_client {op : Op} (h : db.step w now op = some (db', w'))
    (hadd : ∀ request, op ≠ .addEndpoint request) (hshut : op ≠ .shutdown) :
    w'.client = w.client := by
  cases op with
  | addEndpoint request => exact absurd rfl (hadd request)
  | removeEndpoint e =>
    obtain ⟨_, rfl⟩ := Prod.mk.inj (Option.some.inj h)
    exact removeEndpoint_client db w e now
  | setAnycastCost e s cost =>
    obtain ⟨_, rfl⟩ := Prod.mk.inj (Option.some.inj h)
    exact changeAnycastCost_client db w e s cost now
  | addPeer link =>
    have hstep : db.addPeer w link now = (db', w') := Option.some.inj h
    rcases addPeer_cases db w link now with ⟨_, _, heq⟩ | ⟨adjs, _, heq⟩
    · obtain ⟨_, rfl⟩ := Prod.mk.inj (heq.symm.trans hstep)
      rfl
    · obtain ⟨_, rfl⟩ := Prod.mk.inj (heq.symm.trans hstep)
      exact trackAll_client _ _
  | removePeer c =>
    have hstep : db.removePeer w c now = some (db', w') := h
    unfold LsDb.removePeer at hstep
    split at hstep
    · obtain ⟨_, rfl⟩ := Prod.mk.inj (Option.some.inj hstep)
      rfl
    · simp only at hstep
      split at hstep
      · obtain ⟨_, rfl⟩ := Prod.mk.inj (Option.some.inj hstep)
        exact dropAdjacency_client _ _ _ _
      · cases hstep
  | handleLsa lsa c => exact (handleLsa_handled h).client.trans (sendAck_client db w c lsa.key lsa.seq)
  | handleAck c key seq =>
    obtain ⟨_, rfl⟩ := Prod.mk.inj (Option.some.inj h)
    rfl
  | tick =>
    obtain ⟨⟨d, v, rebuild⟩, ht, heq⟩ := Option.map_eq_some_iff.mp h
    obtain ⟨rfl, rfl⟩ := Prod.mk.inj heq
    exact tick_client ht
  | buildFib =>
    obtain ⟨_, _, heq⟩ := Option.map_eq_some_iff.mp h
    obtain ⟨_, rfl⟩ := Prod.mk.inj heq
    rfl
  | shutdown => exact absurd rfl hshut

/-- A refused registration is told so, an accepted one is not told anything yet. -/
theorem addEndpoint_client (db : LsDb) (w : Wires) (request : RegistrationRequest) (now : Instant) :
    (db.addEndpoint w request now).2.1.client =
      if (db.addEndpoint w request now).2.2 then w.client
      else (w.offerClient request.sender (.failedRegistration request.endpointId "")).client := by
  unfold LsDb.addEndpoint
  cases db.routes.addEndpoint request.endpointId request.endpointInfo request.sender with
  | error err => rfl
  | ok p =>
    obtain ⟨t, effect⟩ := p
    cases effect with
    | addLsa e info => exact flood_client _ _ _ _
    | updateLsa e cost => exact updateEndpointCost_client _ _ _ _ _
    | removeLsa | rebuildFib | noop => rfl

/-- A channel in the entry of an endpoint is served. -/
theorem serves_of_listens {t : RouteTable} {e : EndpointId} {re : LsRouteEntry} {s : Sender}
    (hre : t.table.get e = some re)
    (h : s ∈ re.routes.filterMap fun fwd =>
      match fwd.via with
      | .loc sender => some sender
      | .remote _ => none) : t.Serves e s := by
  obtain ⟨fwd, hfwd, hvia⟩ := List.mem_filterMap.mp h
  refine List.mem_map.mpr ⟨fwd, ?_, ?_⟩
  · unfold RouteTable.routesOf
    rw [hre]
    exact hfwd
  · split at hvia
    · next sender hv => rw [hv, Option.some.inj hvia]
    · cases hvia

/-- A channel in some entry of the table is served. -/
theorem serves_of_mem_table {t : RouteTable} {s : Sender}
    (h : s ∈ t.table.values.flatMap fun re => re.routes.filterMap fun fwd =>
      match fwd.via with
      | .loc sender => some sender
      | .remote _ => none) : ∃ e, t.Serves e s := by
  obtain ⟨re, hre, hs⟩ := List.mem_flatMap.mp h
  obtain ⟨e, hget⟩ := HashMap.mem_values_iff.mp hre
  exact ⟨e, serves_of_listens hget hs⟩

/-- At its end the router says farewell to the channels it serves. -/
theorem shutdown_client (db : LsDb) (w : Wires) (now : Instant) :
    ∃ senders : List Sender, (∀ s ∈ senders, ∃ e, db.routes.Serves e s) ∧
      ∀ s, (db.shutdown w now).2.client s =
        (w.client s).offerAll (List.replicate (senders.count s) .shutdown) := by
  unfold LsDb.shutdown RouteTable.shutdown
  simp only
  refine ⟨_, fun s hs => serves_of_mem_table hs, fun s => ?_⟩
  cases hr : db.db.get db.selfKey with
  | none => exact (foldl_offerClient _ w .shutdown).1 s
  | some record =>
    cases hb : record.lsa.body with
    | endpoint info =>
      simp only [hb]
      exact (foldl_offerClient _ w .shutdown).1 s
    | router adjs =>
      simp only [hb]
      refine ((foldl_offerClient _ _ .shutdown).1 s).trans ?_
      rw [flood_client]
      rfl

end LsDb

end Clients

end Anybus
