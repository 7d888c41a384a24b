import Anybus.Db.Step

/-!
# What an operation hands to the links

Every operation floods some LSAs, and the exchange with a new peer hands over the whole
database. All of it goes through one list of hand-overs: what is pending afterwards and
what stands in the channels follow from that list alone.
-/

namespace Anybus

namespace LsDb

/-- The LSA that advertises another cost of an own endpoint. -/
def recostLsa (db : LsDb) (e : EndpointId) (cost : Cost) : Option Lsa :=
  match db.db.get ⟨db.selfId, e⟩ with
  | some record =>
    match record.lsa.body with
    | .endpoint body =>
      if body.cost = cost then none
      else some { record.lsa with
        seq := record.lsa.seq + 1, body := .endpoint { body with cost := cost } }
    | .router _ => none
  | none => none

/-- The withdrawal of a record. -/
def withdrawal (record : LsaRecord) : Lsa :=
  { record.lsa with dead := true, seq := record.lsa.seq + 1 }

/-- The own router LSA without a link, if the link was in it. -/
def shrunkLsa (db : LsDb) (c : ConnectionId) : Option Lsa :=
  match db.db.get db.selfKey with
  | some record =>
    match record.lsa.body with
    | .router adjacencies =>
      if (adjacencies.filter fun adj => adj.connectionId ≠ c).length < adjacencies.length then
        some { record.lsa with
          seq := record.lsa.seq + 1
          body := .router (adjacencies.filter fun adj => adj.connectionId ≠ c) }
      else none
    | .endpoint _ => none
  | none => none

/-- The LSAs that carry out an effect of the route table. -/
def effectLsas (db : LsDb) : Effects → List Lsa
  | .addLsa _ _ => []
  | .updateLsa e cost => (db.recostLsa e cost).toList
  | .removeLsa e => ((db.db.get ⟨db.selfId, e⟩).map withdrawal).toList
  | .rebuildFib => []
  | .noop => []

/-- The LSAs an operation floods, each with the connection the flood passes by. -/
def floods (db : LsDb) (w : Wires) (now : Instant) : Op → List (Lsa × Option ConnectionId)
  | .addEndpoint request =>
    match db.routes.addEndpoint request.endpointId request.endpointInfo request.sender with
    | .ok (_, .addLsa e info) => [(⟨⟨db.selfId, e⟩, 0, false, .endpoint info⟩, some 0)]
    | .ok (_, .updateLsa e cost) => (db.recostLsa e cost).toList.map (·, none)
    | _ => []
  | .removeEndpoint e => (db.effectLsas (db.routes.removeEndpoint w e).2).map (·, none)
  | .setAnycastCost e sender cost =>
    match db.routes.setAnycastCost e sender cost with
    | .ok (_, .changed _ _ (some minCost)) => (db.recostLsa e minCost).toList.map (·, none)
    | _ => []
  | .addPeer link =>
    match (db.ownRecord now).lsa.body with
    | .router adjs => [(db.advertised adjs link now, some link.connectionId)]
    | .endpoint _ => []
  | .removePeer c =>
    match db.links.get c with
    | some _ => (db.shrunkLsa c).toList.map (·, none)
    | none => []
  | .handleLsa lsa c =>
    if lsa.key.origin = db.selfId then []
    else
      match db.db.get lsa.key with
      | some r => if r.lsa.seq < lsa.seq then [(lsa, if lsa.dead then none else some c)] else []
      | none => if lsa.dead then [] else [(lsa, some c)]
  | .handleAck _ _ _ => []
  | .tick =>
    if db.lastRefresh + db.lsaTimeout / 3 < now then (db.refreshedLsas now).map (·, none) else []
  | .buildFib => []
  | .shutdown =>
    match db.db.get db.selfKey with
    | some record =>
      match record.lsa.body with
      | .router _ => [(withdrawal record, none)]
      | .endpoint _ => []
    | none => []

/-- The links the floods of an operation go to. -/
def floodLinks (db : LsDb) : Op → HashMap ConnectionId Link
  | .addPeer link => db.links.insert link.connectionId link
  | .removePeer c => db.links.erase c
  | _ => db.links

/-- The hand-overs of the floods of an operation. -/
def floodsSends (db : LsDb) (w : Wires) (now : Instant) (op : Op) : List (Link × Lsa) :=
  (db.floods w now op).flatMap fun f => ({ db with links := db.floodLinks op }).floodSends f.1 f.2

/-- All hand-overs of an operation. -/
def sends (db : LsDb) (w : Wires) (now : Instant) (op : Op) : List (Link × Lsa) :=
  db.floodsSends w now op ++
    match op with
    | .addPeer link =>
      match (db.ownRecord now).lsa.body with
      | .router adjs => (db.withPeer adjs link now).exchangeSends link
      | .endpoint _ => []
    | _ => []

/-- The channels after the acknowledgement of an LSA. -/
def acknowledged (db : LsDb) (w : Wires) : Op → Wires
  | .handleLsa lsa c => db.sendAck w c lsa.key lsa.seq
  | _ => w

/-- What is pending and what is queued is the outcome of some hand-overs. -/
def Tracks (db : LsDb) (w : Wires) (sends : List (Link × Lsa)) (db' : LsDb) (w' : Wires) : Prop :=
  db'.pendingTx = (trackAll sends (db.pendingTx, w)).1 ∧
    w'.node = (trackAll sends (db.pendingTx, w)).2.node

section Ops

variable {db db' : LsDb} {w w' : Wires} {now : Instant}

theorem Tracks.none (hp : db'.pendingTx = db.pendingTx) (hw : w'.node = w.node) :
    Tracks db w [] db' w' := ⟨hp, hw⟩

/-- A flood hands over its LSA. -/
theorem flood_tracks (d : LsDb) {lsa : Lsa} {inC : Option ConnectionId}
    (hp : d.pendingTx = db.pendingTx) (hp' : db'.pendingTx = (d.floodAllNeighbors w lsa inC).1.pendingTx)
    (hw : w'.node = (d.floodAllNeighbors w lsa inC).2.node) :
    Tracks db w (d.floodSends lsa inC) db' w' := by
  rw [floodAllNeighbors_eq, hp] at hp' hw
  exact ⟨hp', hw⟩

theorem floodEach_eq_trackAll (d : LsDb) (w : Wires) (l : List Lsa) :
    d.floodEach w l = ({ d with
      pendingTx := (trackAll (l.flatMap fun lsa => d.floodSends lsa none) (d.pendingTx, w)).1 },
      (trackAll (l.flatMap fun lsa => d.floodSends lsa none) (d.pendingTx, w)).2) := by
  unfold floodEach
  induction l generalizing d w with
  | nil => rfl
  | cons lsa l ih =>
    rw [List.foldl_cons, ih, List.flatMap_cons, trackAll_append, floodAllNeighbors_eq]
    rfl

theorem updateEndpointCost_tracks (d : LsDb) (hp : d.pendingTx = db.pendingTx)
    (e : EndpointId) (cost : Cost) :
    Tracks db w ((d.recostLsa e cost).toList.flatMap fun lsa => d.floodSends lsa none)
      (d.updateEndpointCost w e cost now).1 (d.updateEndpointCost w e cost now).2 := by
  unfold updateEndpointCost recostLsa
  cases hr : d.db.get ⟨d.selfId, e⟩ with
  | none =>
    simp only [hr]
    exact .none hp rfl
  | some record =>
    cases hb : record.lsa.body with
    | router adjs =>
      simp only [hr, hb]
      exact .none hp rfl
    | endpoint body =>
      simp only [hr, hb]
      by_cases hcost : body.cost = cost
      · rw [if_pos hcost, if_pos hcost]
        exact .none hp rfl
      · rw [if_neg hcost, if_neg hcost, Option.toList_some, List.flatMap_singleton]
        exact flood_tracks { d with db := _ } hp rfl rfl

theorem addEndpoint_tracks (request : RegistrationRequest) :
    Tracks db w (db.sends w now (.addEndpoint request)) (db.addEndpoint w request now).1
      (db.addEndpoint w request now).2.1 := by
  simp only [sends, floodsSends, floods, List.append_nil]
  unfold LsDb.addEndpoint
  cases hadd : db.routes.addEndpoint request.endpointId request.endpointInfo request.sender with
  | error err => exact .none rfl rfl
  | ok p =>
    obtain ⟨t, effect⟩ := p
    cases effect with
    | addLsa e info =>
      simp only [List.flatMap_singleton]
      refine flood_tracks { db with routes := t } ?_ ?_ ?_
      · rfl
      · rfl
      · rfl
    | updateLsa e cost =>
      simp only [List.flatMap_map]
      exact updateEndpointCost_tracks { db with routes := t } rfl e cost
    | removeLsa e => exact .none rfl rfl
    | rebuildFib => exact .none rfl rfl
    | noop => exact .none rfl rfl

theorem removeEndpoint_tracks (e : EndpointId) :
    Tracks db w (db.sends w now (.removeEndpoint e)) (db.removeEndpoint w e now).1
      (db.removeEndpoint w e now).2 := by
  simp only [sends, floodsSends, floods, List.append_nil, List.flatMap_map]
  unfold LsDb.removeEndpoint
  cases heff : (db.routes.removeEndpoint w e).2 with
  | addLsa e' info =>
    simp only [heff]
    exact .none rfl rfl
  | updateLsa e' cost =>
    simp only [heff]
    exact updateEndpointCost_tracks
      (({ db with routes := (db.routes.removeEndpoint w e).1 } : LsDb).requestRebuild now) rfl e' cost
  | removeLsa e' =>
    simp only [heff, effectLsas, requestRebuild]
    cases hr : db.db.get ⟨db.selfId, e'⟩ with
    | none => exact .none rfl rfl
    | some record =>
      simp only [Option.map_some, Option.toList_some, List.flatMap_singleton]
      refine flood_tracks { db with db := _, routes := _, rebuildRequested := _ } ?_ ?_ ?_
      · rfl
      · rfl
      · rfl
  | rebuildFib | noop =>
    simp only [heff]
    exact .none rfl rfl

theorem changeAnycastCost_tracks (e : EndpointId) (sender : Sender) (cost : Cost) :
    Tracks db w (db.sends w now (.setAnycastCost e sender cost))
      (db.changeAnycastCost w e sender cost now).1 (db.changeAnycastCost w e sender cost now).2 := by
  simp only [sends, floodsSends, floods, List.append_nil]
  unfold changeAnycastCost setAnycastCost
  cases hset : db.routes.setAnycastCost e sender cost with
  | error err => exact .none rfl rfl
  | ok p =>
    obtain ⟨t, outcome⟩ := p
    cases outcome with
    | unchanged => exact .none rfl rfl
    | changed previous current minCost =>
      cases minCost with
      | none => exact .none rfl rfl
      | some m =>
        simp only [List.flatMap_map]
        exact updateEndpointCost_tracks { db with routes := t } rfl e m

theorem addPeer_tracks (link : Link) :
    Tracks db w (db.sends w now (.addPeer link)) (db.addPeer w link now).1 (db.addPeer w link now).2 := by
  simp only [sends, floodsSends, floods]
  rcases addPeer_cases db w link now with ⟨info, hb, heq⟩ | ⟨adjs, hb, heq⟩
  · simp only [hb]
    rw [heq]
    exact .none rfl rfl
  · simp only [hb, List.flatMap_singleton]
    rw [heq]
    exact ⟨rfl, rfl⟩

theorem dropAdjacency_tracks {d : LsDb} (hp : d.pendingTx = db.pendingTx) (c : ConnectionId) :
    Tracks db w ((d.shrunkLsa c).toList.flatMap fun lsa => d.floodSends lsa none)
      (d.dropAdjacency w c now).1 (d.dropAdjacency w c now).2 := by
  unfold dropAdjacency shrunkLsa
  cases hr : d.db.get d.selfKey with
  | none => exact .none hp rfl
  | some record =>
    cases hb : record.lsa.body with
    | endpoint info =>
      simp only [hb]
      exact .none hp rfl
    | router adjs =>
      simp only [hb]
      split
      · rw [Option.toList_some, List.flatMap_singleton]
        exact flood_tracks { d with db := _ } hp rfl rfl
      · exact .none hp rfl

theorem removePeer_tracks {c : ConnectionId} (h : db.removePeer w c now = some (db', w')) :
    Tracks db w (db.sends w now (.removePeer c)) db' w' := by
  unfold removePeer at h
  simp only [sends, floodsSends, floods, List.append_nil]
  cases hl : db.links.get c with
  | none =>
    simp only [hl, Option.some.injEq, Prod.mk.injEq] at h
    obtain ⟨rfl, rfl⟩ := h
    exact .none rfl rfl
  | some link =>
    simp only [hl] at h
    split at h
    · next d hspf =>
      obtain ⟨rfl, rfl⟩ := Prod.mk.inj (Option.some.inj h)
      obtain ⟨s, _, rfl⟩ := computeSpf_eq_some_iff.mp hspf
      simp only [List.flatMap_map]
      exact dropAdjacency_tracks (d := { db with links := db.links.erase c }) rfl c
    · cases h

theorem handleLsa_tracks {lsa : Lsa} {c : ConnectionId}
    (h : db.handleLsa w lsa c now = some (db', w')) :
    Tracks db (db.sendAck w c lsa.key lsa.seq) (db.sends w now (.handleLsa lsa c)) db' w' := by
  simp only [sends, floodsSends, floods, List.append_nil]
  cases handleLsa_handled h with
  | ignored hi =>
    rcases hi with hself | ⟨r, hr, hle⟩
    · rw [if_pos hself]
      exact .none rfl rfl
    · simp only [hr, if_neg (Nat.not_lt.mpr hle), ite_self]
      exact .none rfl rfl
  | unknownDeath ho hd hn =>
    simp only [if_neg ho, hn, hd]
    exact .none rfl rfl
  | died ho hd r hr hlt =>
    simp only [if_neg ho, hr, if_pos hlt, hd, if_true, List.flatMap_singleton]
    exact ⟨rfl, rfl⟩
  | stored ho hd hnew =>
    have hflood : (match db.db.get lsa.key with
        | some r => if r.lsa.seq < lsa.seq then [(lsa, if lsa.dead then none else some c)] else []
        | none => if lsa.dead then [] else [(lsa, some c)]) = [(lsa, some c)] := by
      cases hr : db.db.get lsa.key with
      | none => simp [hd]
      | some r => simp [hd, hnew r hr]
    rw [if_neg ho, hflood, List.flatMap_singleton]
    exact ⟨rfl, rfl⟩

theorem refreshAndPurgeLsas_tracks {d : LsDb} (h : d.refreshAndPurgeLsas w now = some (db', w'))
    (hp : d.pendingTx = db.pendingTx) :
    Tracks db w ((d.refreshedLsas now).flatMap fun lsa => d.floodSends lsa none) db' w' := by
  have hflood := floodEach_eq_trackAll (d.refreshAll now) w (d.refreshedLsas now)
  have hpurge : ∀ d' : LsDb, (d'.purgeStaleLsas now).1.pendingTx = d'.pendingTx := by
    intro d'
    unfold purgeStaleLsas
    cases d'.firstStale now <;> rfl
  simp only [refreshAndPurgeLsas] at h
  split at h
  · split at h
    · next d' hspf =>
      obtain ⟨rfl, rfl⟩ := Prod.mk.inj (Option.some.inj h)
      obtain ⟨s, _, rfl⟩ := computeSpf_eq_some_iff.mp hspf
      refine ⟨(hpurge _).trans ?_, ?_⟩
      · rw [hflood, ← hp]
        rfl
      · rw [hflood, ← hp]
        rfl
    · cases h
  · obtain ⟨rfl, rfl⟩ := Prod.mk.inj (Option.some.inj h)
    refine ⟨(hpurge _).trans ?_, ?_⟩
    · rw [hflood, ← hp]
      rfl
    · rw [hflood, ← hp]
      rfl

theorem tick_tracks {b : Bool} (h : db.tick w now = some (db', w', b)) :
    Tracks db w (db.sends w now .tick) db' w' := by
  simp only [sends, floodsSends, floods, List.append_nil]
  unfold tick at h
  simp only at h
  split at h
  · next d w'' hd =>
    have heq : db'.pendingTx = d.pendingTx ∧ w' = w'' := by
      split at h
      · obtain ⟨rfl, heq⟩ := Prod.mk.inj (Option.some.inj h)
        exact ⟨rfl, (Prod.mk.inj heq).1.symm⟩
      · obtain ⟨rfl, heq⟩ := Prod.mk.inj (Option.some.inj h)
        exact ⟨rfl, (Prod.mk.inj heq).1.symm⟩
    obtain ⟨hpend, rfl⟩ := heq
    split at hd
    · next hdue =>
      rw [if_pos hdue, List.flatMap_map]
      have ht : Tracks db w _ d w' := refreshAndPurgeLsas_tracks hd rfl
      exact ⟨hpend.trans ht.1, ht.2⟩
    · next hdue =>
      rw [if_neg hdue]
      obtain ⟨rfl, rfl⟩ := Prod.mk.inj (Option.some.inj hd)
      exact .none hpend rfl
  · cases h

/-- Telling the listeners to shut down leaves the links alone. -/
theorem foldl_shutdown_node (senders : List Sender) (w : Wires) :
    (senders.foldl (fun w sender => w.offerClient sender .shutdown) w).node = w.node := by
  induction senders generalizing w with
  | nil => rfl
  | cons s l ih =>
    rw [List.foldl_cons, ih]
    rfl

theorem shutdown_tracks :
    Tracks db w (db.sends w now .shutdown) (db.shutdown w now).1 (db.shutdown w now).2 := by
  simp only [sends, floodsSends, floods, List.append_nil]
  unfold LsDb.shutdown
  cases hr : db.db.get db.selfKey with
  | none => exact .none rfl (foldl_shutdown_node _ w)
  | some record =>
    obtain ⟨⟨key, seq, dead, body⟩, updatedAt⟩ := record
    cases body with
    | endpoint info => exact .none rfl (foldl_shutdown_node _ w)
    | router adjs =>
      simp only [List.flatMap_singleton]
      refine flood_tracks { db with db := _ } ?_ ?_ (foldl_shutdown_node _ _)
      · rfl
      · rfl

/-- Every operation but an acknowledgement leaves pending and queued what its hand-overs do. -/
theorem step_tracks {op : Op} (h : db.step w now op = some (db', w'))
    (hack : ∀ c k s, op ≠ .handleAck c k s) :
    Tracks db (db.acknowledged w op) (db.sends w now op) db' w' := by
  cases op with
  | addEndpoint request =>
    obtain ⟨rfl, rfl⟩ := Prod.mk.inj (Option.some.inj h)
    exact addEndpoint_tracks request
  | removeEndpoint e =>
    obtain ⟨rfl, rfl⟩ := Prod.mk.inj (Option.some.inj h)
    exact removeEndpoint_tracks e
  | setAnycastCost e sender cost =>
    obtain ⟨rfl, rfl⟩ := Prod.mk.inj (Option.some.inj h)
    exact changeAnycastCost_tracks e sender cost
  | addPeer link =>
    obtain ⟨rfl, rfl⟩ := Prod.mk.inj (Option.some.inj h)
    exact addPeer_tracks link
  | removePeer c => exact removePeer_tracks h
  | handleLsa lsa c => exact handleLsa_tracks h
  | handleAck c k s => exact absurd rfl (hack c k s)
  | tick =>
    obtain ⟨⟨d, v, b⟩, htick, heq⟩ := Option.map_eq_some_iff.mp h
    cases heq
    exact tick_tracks htick
  | buildFib =>
    obtain ⟨⟨d, fib⟩, hfib, heq⟩ := Option.map_eq_some_iff.mp h
    cases heq
    obtain ⟨s, _, rfl, _⟩ := buildFib_eq_some_iff.mp hfib
    exact .none rfl rfl
  | shutdown =>
    obtain ⟨rfl, rfl⟩ := Prod.mk.inj (Option.some.inj h)
    exact shutdown_tracks

end Ops

end LsDb

end Anybus
