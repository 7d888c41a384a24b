import Anybus.Db.Exchange
import Anybus.Db.Newest
import Anybus.Db.Change

/-!
# What an operation does to the node's own records

Apart from fresh records, an operation hands out an own record only as it is stored
afterwards or as the withdrawal of what was stored before, and a stored own record
changes only under a greater number. Every operation also keeps the maps of the
database in agreement with what they store.
-/

namespace Anybus

/-- What an operation does to the records of its own node: what it hands out is stored
afterwards or withdraws what was stored, and stored records change upwards or are
created afresh. -/
structure OwnStep (selfId : NodeId) (m m' : HashMap LsaKey LsaRecord) (out : Log)
    (fresh : LsaKey → Prop) : Prop where
  sent : ∀ x ∈ out, x.2.key.origin = selfId →
    (∃ r, m'.get x.2.key = some r ∧ r.lsa = x.2) ∨
    (m'.get x.2.key = none ∧ ∃ r, m.get x.2.key = some r ∧
      x.2 = { r.lsa with dead := true, seq := r.lsa.seq + 1 })
  kept : ∀ k r', k.origin = selfId → m'.get k = some r' →
    fresh k ∨ ∃ r, m.get k = some r ∧ (r'.lsa = r.lsa ∨ r.lsa.seq < r'.lsa.seq)

namespace LsDb

/-- One operation of a well-formed database, as far as its own records go. -/
structure Advances (db : LsDb) (w : Wires) (db' : LsDb) (w' : Wires) (fresh : LsaKey → Prop) :
    Prop where
  self_eq : db'.selfId = db.selfId
  ok : db'.Ok
  own : ∃ out : Log, w'.handed = w.handed ++ out ∧ OwnStep db.selfId db.db db'.db out fresh

section Advances

variable {db db' : LsDb} {w w' : Wires} {lsa : Lsa} {now : Instant} {fresh : LsaKey → Prop}

/-- Own records stay as they are and none is handed out. -/
theorem Advances.of_keep (hself : db'.selfId = db.selfId) (hok : db'.Ok)
    (hkeep : ∀ k, k.origin = db.selfId → db'.db.get k = db.db.get k)
    (hout : ∃ out : Log, w'.handed = w.handed ++ out ∧
      ∀ x ∈ out, x.2.key.origin ≠ db.selfId) : Advances db w db' w' fresh := by
  obtain ⟨out, hw, hnot⟩ := hout
  refine ⟨hself, hok, out, hw, fun x hx ho => absurd ho (hnot x hx), fun k r' ho hr => ?_⟩
  exact Or.inr ⟨r', hkeep k ho ▸ hr, Or.inl rfl⟩

/-- Nothing happens to the records at all. -/
theorem Advances.refl (hok : db.Ok) : Advances db w db w fresh :=
  .of_keep rfl hok (fun _ _ => rfl) ⟨[], by simp, by simp⟩

/-- A record is written, afresh or under a greater number, and only stored own records
are handed out. -/
theorem Advances.of_write (lsa : Lsa) (now : Instant) (hok : db.Ok) (hself : db'.selfId = db.selfId)
    (hdb : db'.db = db.db.insert lsa.key ⟨lsa, now⟩)
    (hlinks : ∀ c link, db'.links.get c = some link → link.connectionId = c)
    (hnew : fresh lsa.key ∨ ∃ r, db.db.get lsa.key = some r ∧ r.lsa.seq < lsa.seq)
    (hout : ∃ out : Log, w'.handed = w.handed ++ out ∧
      ∀ x ∈ out, x.2.key.origin = db.selfId → ∃ r, db'.db.get x.2.key = some r ∧ r.lsa = x.2) :
    Advances db w db' w' fresh := by
  obtain ⟨out, hw, hsent⟩ := hout
  refine ⟨hself, ⟨fun k r hr => ?_, hlinks⟩, out, hw, fun x hx ho => Or.inl (hsent x hx ho),
    fun k r' _ hr => ?_⟩
  · rw [hdb, HashMap.get_insert] at hr
    split at hr
    · next heq =>
      cases hr
      exact heq.symm
    · exact hok.record_key k r hr
  · rw [hdb, HashMap.get_insert] at hr
    split at hr
    · next heq =>
      cases hr
      rw [heq]
      rcases hnew with hf | ⟨r, hr, hlt⟩
      · exact Or.inl hf
      · exact Or.inr ⟨r, hr, Or.inr hlt⟩
    · exact Or.inr ⟨r', hr, Or.inl rfl⟩

/-- A flood of the record just written. -/
theorem handed_of_flood {d : LsDb} {c : Option ConnectionId} (hdb : ∃ r, db'.db.get lsa.key = some r ∧ r.lsa = lsa)
    (hw : w' = (d.floodAllNeighbors w lsa c).2) :
    ∃ out : Log, w'.handed = w.handed ++ out ∧
      ∀ x ∈ out, x.2.key.origin = db.selfId → ∃ r, db'.db.get x.2.key = some r ∧ r.lsa = x.2 := by
  obtain ⟨out, hout, hall⟩ := d.flood_handed w lsa c
  refine ⟨out, hw ▸ hout, fun x hx _ => ?_⟩
  rw [hall x hx]
  exact hdb

/-- A stored record is written again under the next number and flooded. -/
theorem Advances.of_rewrite {d : LsDb} {c : Option ConnectionId} {key : LsaKey}
    {record : LsaRecord} (body : LsaBody) (now : Instant) (hok : db.Ok)
    (hr : db.db.get key = some record) (hself : db'.selfId = db.selfId)
    (hlinks : db'.links = db.links)
    (hdb : db'.db = db.db.insert key ⟨{ record.lsa with seq := record.lsa.seq + 1, body := body }, now⟩)
    (hw : w' = (d.floodAllNeighbors w
      { record.lsa with seq := record.lsa.seq + 1, body := body } c).2) :
    Advances db w db' w' fresh := by
  have hkey : record.lsa.key = key := hok.record_key key record hr
  subst hkey
  refine .of_write { record.lsa with seq := record.lsa.seq + 1, body := body } now hok hself hdb
    (hlinks ▸ hok.link_id) (Or.inr ⟨record, hr, Nat.lt_succ_self _⟩) ?_
  refine handed_of_flood ⟨⟨_, now⟩, ?_, rfl⟩ hw
  rw [hdb, HashMap.get_insert, if_pos rfl]

/-- Records are forgotten, and one of them may be withdrawn. -/
theorem Advances.of_forget (lsa : Lsa) (r : LsaRecord) (hself : db'.selfId = db.selfId) (hok : db'.Ok)
    (hsub : ∀ k r', db'.db.get k = some r' → db.db.get k = some r')
    (hgone : db'.db.get lsa.key = none) (hr : db.db.get lsa.key = some r)
    (hlsa : lsa = { r.lsa with dead := true, seq := r.lsa.seq + 1 })
    (hout : ∃ out : Log, w'.handed = w.handed ++ out ∧ ∀ x ∈ out, x.2 = lsa) :
    Advances db w db' w' fresh := by
  obtain ⟨out, hw, hall⟩ := hout
  refine ⟨hself, hok, out, hw, fun x hx _ => ?_, fun k r' _ hr' => ?_⟩
  · rw [hall x hx]
    exact Or.inr ⟨hgone, r, hr, hlsa⟩
  · exact Or.inr ⟨r', hsub k r' hr', Or.inl rfl⟩

end Advances

section Ops

variable {db : LsDb} (hok : db.Ok) (w : Wires) (now : Instant)
include hok

theorem updateEndpointCost_advances (e : EndpointId) (cost : Cost) (fresh : LsaKey → Prop) :
    Advances db w (db.updateEndpointCost w e cost now).1 (db.updateEndpointCost w e cost now).2
      fresh := by
  unfold updateEndpointCost
  simp only
  split
  · next record hr =>
    split
    · next body hb =>
      split
      · exact .refl hok
      · exact .of_rewrite (.endpoint { body with cost := cost }) now hok hr rfl rfl rfl rfl
    · exact .refl hok
  · exact .refl hok

/-- A registration creates a record afresh when the route table asks for one. -/
theorem addEndpoint_advances (request : RegistrationRequest) :
    Advances db w (db.addEndpoint w request now).1 (db.addEndpoint w request now).2.1
      fun k => (∃ t info, db.routes.addEndpoint request.endpointId request.endpointInfo
        request.sender = .ok (t, .addLsa k.endpointId info)) ∧ k.origin = db.selfId := by
  unfold addEndpoint
  cases hadd : db.routes.addEndpoint request.endpointId request.endpointInfo request.sender with
  | error e =>
    refine .of_keep rfl hok (fun _ _ => rfl) ⟨[], ?_, by simp⟩
    simp [Wires.offerClient]
  | ok p =>
    obtain ⟨routes, effect⟩ := p
    have hok' : ({ db with routes := routes } : LsDb).Ok := ⟨hok.record_key, hok.link_id⟩
    cases effect with
    | addLsa e info =>
      refine .of_write ⟨⟨db.selfId, e⟩, 0, false, .endpoint info⟩ now hok rfl rfl
        hok.link_id (Or.inl ⟨⟨routes, info, rfl⟩, rfl⟩) (handed_of_flood ⟨⟨_, now⟩, ?_, rfl⟩ rfl)
      change HashMap.get (db.db.insert _ _) _ = _
      rw [HashMap.get_insert, if_pos rfl]
    | updateLsa e cost =>
      have h := updateEndpointCost_advances hok' w now e cost
        fun k => (∃ t info, Except.ok (routes, Effects.updateLsa e cost) =
          (.ok (t, .addLsa k.endpointId info) : Except RouteTableError _)) ∧ k.origin = db.selfId
      exact ⟨h.self_eq, h.ok, h.own⟩
    | removeLsa e => exact .of_keep rfl ⟨hok.record_key, hok.link_id⟩ (fun _ _ => rfl) ⟨[], by simp, by simp⟩
    | rebuildFib => exact .of_keep rfl ⟨hok.record_key, hok.link_id⟩ (fun _ _ => rfl) ⟨[], by simp, by simp⟩
    | noop => exact .of_keep rfl ⟨hok.record_key, hok.link_id⟩ (fun _ _ => rfl) ⟨[], by simp, by simp⟩

theorem removeEndpoint_advances (e : EndpointId) (fresh : LsaKey → Prop) :
    Advances db w (db.removeEndpoint w e now).1 (db.removeEndpoint w e now).2 fresh := by
  unfold removeEndpoint
  simp only
  generalize db.routes.removeEndpoint w e = p
  obtain ⟨routes, effect⟩ := p
  have hok' : (({ db with routes := routes } : LsDb).requestRebuild now).Ok :=
    ⟨hok.record_key, hok.link_id⟩
  cases effect with
  | updateLsa e cost =>
    have h := updateEndpointCost_advances hok' w now e cost fresh
    exact ⟨h.self_eq, h.ok, h.own⟩
  | removeLsa e =>
    simp only
    cases hr : db.db.get ⟨db.selfId, e⟩ with
    | none =>
      simp only [requestRebuild, hr]
      exact .of_keep rfl ⟨hok.record_key, hok.link_id⟩ (fun _ _ => rfl) ⟨[], by simp, by simp⟩
    | some record =>
      have hkey := hok.record_key _ record hr
      simp only [requestRebuild, hr]
      have hsub : ∀ k r', (db.db.erase ⟨db.selfId, e⟩).get k = some r' → db.db.get k = some r' := by
        intro k r' hk
        rw [HashMap.get_erase] at hk
        split at hk
        · cases hk
        · exact hk
      refine .of_forget { record.lsa with dead := true, seq := record.lsa.seq + 1 } record rfl
        ⟨fun k r hk => hok.record_key k r (hsub k r hk), hok.link_id⟩ hsub ?_ ?_ rfl
        (flood_handed _ _ _ _)
      · change HashMap.get (db.db.erase ⟨db.selfId, e⟩) record.lsa.key = none
        rw [HashMap.get_erase, if_pos hkey]
      · exact hkey ▸ hr
  | addLsa e info => exact .of_keep rfl ⟨hok.record_key, hok.link_id⟩ (fun _ _ => rfl) ⟨[], by simp, by simp⟩
  | rebuildFib => exact .of_keep rfl ⟨hok.record_key, hok.link_id⟩ (fun _ _ => rfl) ⟨[], by simp, by simp⟩
  | noop => exact .of_keep rfl ⟨hok.record_key, hok.link_id⟩ (fun _ _ => rfl) ⟨[], by simp, by simp⟩

theorem changeAnycastCost_advances (e : EndpointId) (sender : Sender) (cost : Cost)
    (fresh : LsaKey → Prop) :
    Advances db w (db.changeAnycastCost w e sender cost now).1
      (db.changeAnycastCost w e sender cost now).2 fresh := by
  unfold changeAnycastCost setAnycastCost
  cases db.routes.setAnycastCost e sender cost with
  | error err => exact .refl hok
  | ok p =>
    obtain ⟨routes, outcome⟩ := p
    have hok' : ({ db with routes := routes } : LsDb).Ok := ⟨hok.record_key, hok.link_id⟩
    have hkeep : Advances db w { db with routes := routes } w fresh :=
      .of_keep rfl hok' (fun _ _ => rfl) ⟨[], by simp, by simp⟩
    cases outcome with
    | unchanged => exact hkeep
    | changed previous new advertise =>
      cases advertise with
      | none => exact hkeep
      | some minCost =>
        have h := updateEndpointCost_advances hok' w now e minCost fresh
        exact ⟨h.self_eq, h.ok, h.own⟩

/-- A new link creates the own router record only in its absence. -/
theorem addPeer_advances (link : Link) :
    Advances db w (db.addPeer w link now).1 (db.addPeer w link now).2
      fun k => k = db.selfKey ∧ db.db.get db.selfKey = none := by
  rcases addPeer_cases db w link now with ⟨info, _, heq⟩ | ⟨adjs, _, heq⟩
  · rw [heq]
    exact .refl hok
  · have hkey : (db.advertised adjs link now).key = db.selfKey := by
      unfold advertised ownRecord
      cases hr : db.db.get db.selfKey with
      | none => rfl
      | some r => exact hok.record_key _ r hr
    have hwritten : (db.withPeer adjs link now).db =
        db.db.insert (db.advertised adjs link now).key ⟨db.advertised adjs link now, now⟩ := by
      rw [hkey]
      rfl
    have hok' : (db.withPeer adjs link now).Ok := hok.withPeer
    rw [heq]
    refine .of_write (db.advertised adjs link now) now hok rfl hwritten
      hok'.link_id ?_ ⟨_, trackAll_handed _ _, fun x hx _ => ?_⟩
    · rw [hkey]
      unfold advertised ownRecord
      cases hr : db.db.get db.selfKey with
      | none => exact Or.inl ⟨rfl, rfl⟩
      | some r => exact Or.inr ⟨r, rfl, Nat.lt_succ_self _⟩
    · -- The advertisement is stored, and the exchange hands out stored records.
      change ∃ r, (db.withPeer adjs link now).db.get x.2.key = some r ∧ r.lsa = x.2
      obtain ⟨⟨l, lsa⟩, hs, rfl⟩ := List.mem_map.mp hx
      rcases List.mem_append.mp hs with hs | hs
      · obtain ⟨rfl, _⟩ := mem_floodSends.mp hs
        exact ⟨_, by rw [hwritten, HashMap.get_insert, if_pos rfl], rfl⟩
      · obtain ⟨record, hrec, hpair⟩ := List.mem_map.mp hs
        obtain ⟨rfl, rfl⟩ := Prod.mk.inj hpair
        obtain ⟨k, hk⟩ := HashMap.mem_values_iff.mp hrec
        exact ⟨record, (hok'.record_key k record hk) ▸ hk, rfl⟩

theorem dropAdjacency_advances (c : ConnectionId) (fresh : LsaKey → Prop) :
    Advances db w (db.dropAdjacency w c now).1 (db.dropAdjacency w c now).2 fresh := by
  unfold dropAdjacency
  split
  · next record hr =>
    split
    · next adjs hb =>
      simp only
      split
      · exact .of_rewrite (.router (adjs.filter fun adj => adj.connectionId ≠ c)) now hok hr rfl rfl
          rfl rfl
      · exact .refl hok
    · exact .refl hok
  · exact .refl hok

theorem removePeer_advances {db' : LsDb} {w' : Wires} (c : ConnectionId) (fresh : LsaKey → Prop)
    (h : db.removePeer w c now = some (db', w')) : Advances db w db' w' fresh := by
  unfold removePeer at h
  cases hc : db.links.get c with
  | none =>
    simp only [hc, Option.some.injEq, Prod.mk.injEq] at h
    obtain ⟨rfl, rfl⟩ := h
    exact .refl hok
  | some link =>
    have hok' : ({ db with links := db.links.erase c } : LsDb).Ok := by
      refine ⟨hok.record_key, fun c' l hl => ?_⟩
      rw [HashMap.get_erase] at hl
      split at hl
      · cases hl
      · exact hok.link_id c' l hl
    have hdrop := dropAdjacency_advances hok' w now c fresh
    simp only [hc] at h
    cases hspf : LsDb.computeSpf ((({ db with links := db.links.erase c } : LsDb).dropAdjacency w c now).1)
        (({ db with links := db.links.erase c } : LsDb).dropAdjacency w c now).1.selfId with
    | none => simp [hspf] at h
    | some d =>
      simp only [hspf, Option.some.injEq, Prod.mk.injEq] at h
      obtain ⟨rfl, rfl⟩ := h
      unfold computeSpf at hspf
      split at hspf
      · obtain rfl := Option.some.inj hspf
        exact ⟨hdrop.self_eq, ⟨hdrop.ok.record_key, hdrop.ok.link_id⟩, hdrop.own⟩
      · cases hspf

theorem handleLsa_advances {db' : LsDb} {w' : Wires} {lsa : Lsa} {c : ConnectionId}
    (fresh : LsaKey → Prop) (h : db.handleLsa w lsa c now = some (db', w')) :
    Advances db w db' w' fresh := by
  have hack : (db.sendAck w c lsa.key lsa.seq).handed = w.handed := by
    unfold sendAck Link.sendLsaAck Link.trySend
    split
    · rfl
    · next link _ => cases (w.node link.tx).trySend (.lsaAck lsa.key lsa.seq) <;> simp
  have hh := handleLsa_handled h
  obtain ⟨hself, hlinks, hown⟩ := hh.frame
  have hlink : ∀ c link, db'.links.get c = some link → link.connectionId = c := by
    rw [hlinks]
    exact hok.link_id
  have hsent : ∀ (inC : Option ConnectionId), lsa.key.origin ≠ db.selfId →
      ∃ out : Log, (trackAll (db.floodSends lsa inC)
        (db.pendingTx, db.sendAck w c lsa.key lsa.seq)).2.handed = w.handed ++ out ∧
          ∀ x ∈ out, x.2.key.origin ≠ db.selfId := by
    intro inC ho
    refine ⟨(db.floodSends lsa inC).map fun s => (s.1.connectionId, s.2), ?_, fun x hx => ?_⟩
    · rw [trackAll_handed, hack]
    · obtain ⟨⟨link, lsa'⟩, hs, rfl⟩ := List.mem_map.mp hx
      rw [(mem_floodSends.mp hs).1]
      exact ho
  cases hh with
  | ignored =>
    refine .of_keep hself ⟨hok.record_key, hlink⟩ hown ⟨[], ?_, by simp⟩
    rw [hack, List.append_nil]
  | unknownDeath =>
    refine .of_keep hself ⟨hok.record_key, hlink⟩ hown ⟨[], ?_, by simp⟩
    rw [hack, List.append_nil]
  | died ho _ r hr _ =>
    refine .of_keep hself ⟨fun k r' hk => hok.record_key k r' ?_, hlink⟩ hown (hsent none ho)
    simp only [withoutDead] at hk
    cases hb : r.lsa.body with
    | router adjs =>
      simp only [hb, HashMap.get_retain] at hk
      exact (Option.filter_eq_some_iff.mp hk).1
    | endpoint info =>
      simp only [hb, HashMap.get_erase] at hk
      split at hk
      · cases hk
      · exact hk
  | stored ho =>
    refine .of_keep hself ⟨fun k r' hk => ?_, hlink⟩ hown (hsent (some c) ho)
    simp only [HashMap.get_insert] at hk
    split at hk
    · next heq =>
      cases hk
      exact heq.symm
    · exact hok.record_key k r' hk

theorem computeSpf_advances {db' : LsDb} {root : NodeId} (fresh : LsaKey → Prop)
    (h : db.computeSpf root = some db') : Advances db w db' w fresh := by
  obtain ⟨s, _, rfl⟩ := computeSpf_eq_some_iff.mp h
  exact .of_keep rfl ⟨hok.record_key, hok.link_id⟩ (fun _ _ => rfl) ⟨[], by simp, by simp⟩

end Ops

/-- A refreshed record is unchanged or carries the next number. -/
theorem refreshed_lsa (db : LsDb) (now : Instant) (r : LsaRecord) :
    (db.refreshed now r).lsa = r.lsa ∨ (db.refreshed now r).lsa = { r.lsa with seq := r.lsa.seq + 1 } := by
  unfold refreshed
  split
  · exact Or.inr rfl
  · exact Or.inl rfl

theorem refreshed_key (db : LsDb) (now : Instant) (r : LsaRecord) :
    (db.refreshed now r).lsa.key = r.lsa.key := by
  rcases db.refreshed_lsa now r with h | h <;> rw [h]

theorem refreshed_body (db : LsDb) (now : Instant) (r : LsaRecord) :
    (db.refreshed now r).lsa.body = r.lsa.body := by
  rcases db.refreshed_lsa now r with h | h <;> rw [h]

/-- A refreshed own record is never stale: it was due long before. -/
theorem refreshed_not_stale (db : LsDb) (now : Instant) {r : LsaRecord}
    (ho : r.lsa.key.origin = db.selfId) :
    now ≤ (db.refreshed now r).updatedAt + db.lsaTimeout := by
  have hdiv := Nat.div_le_self db.lsaTimeout 3
  unfold refreshed dueForRefresh
  by_cases hdue : r.updatedAt + db.lsaTimeout / 3 < now
  · simp [ho, hdue]
  · simp only [ho, hdue, decide_true, decide_false, Bool.and_false, Bool.false_eq_true, if_false]
    exact (Nat.le_of_not_lt hdue).trans (Nat.add_le_add_left hdiv _)

/-- No own record is ever stale. -/
theorem Ok.not_stale {db : LsDb} (hok : db.Ok) {now : Instant} {key : LsaKey}
    (ho : key.origin = db.selfId) : ¬ db.Stale now key := by
  rintro ⟨r', hr', hstale⟩
  simp only [refreshAll, HashMap.get_mapValues] at hr'
  obtain ⟨r, hr, rfl⟩ := Option.map_eq_some_iff.mp hr'
  have hfresh := db.refreshed_not_stale now (r := r) (by rw [hok.record_key _ r hr]; exact ho)
  exact absurd hstale (Nat.not_lt.mpr hfresh)

/-- The purge forgets at most one record, and none of the node itself. -/
theorem purgeStaleLsas_refreshAll {db : LsDb} (hok : db.Ok) (now : Instant)
    (p : HashMap (ConnectionId × LsaKey) Nat) :
    ∃ m, (({ db.refreshAll now with pendingTx := p } : LsDb).purgeStaleLsas now).1 =
        { db.refreshAll now with pendingTx := p, db := m } ∧
      (∀ k r, m.get k = some r → (db.refreshAll now).db.get k = some r) ∧
      ∀ k, k.origin = db.selfId → m.get k = (db.refreshAll now).db.get k := by
  obtain ⟨-, heq⟩ | ⟨key, ⟨r', hr', hstale⟩, heq⟩ :=
    purgeStaleLsas_cases { db.refreshAll now with pendingTx := p } now
  · rw [heq]
    exact ⟨_, rfl, fun _ _ h => h, fun _ _ => rfl⟩
  · rw [heq]
    refine ⟨_, rfl, fun k r hk => ?_, fun k ho => ?_⟩
    · rw [HashMap.get_erase] at hk
      split at hk
      · cases hk
      · exact hk
    · rw [HashMap.get_erase, if_neg]
      rintro rfl
      simp only [refreshAll, HashMap.get_mapValues] at hr'
      obtain ⟨r, hr, rfl⟩ := Option.map_eq_some_iff.mp hr'
      have hnot := db.refreshed_not_stale now (r := r) (by rw [hok.record_key _ r hr]; exact ho)
      exact absurd hstale (Nat.not_lt.mpr hnot)

/-- What the refresh does: it hands out the refreshed LSAs and leaves the refreshed
records, less perhaps one of another node. -/
theorem refreshAndPurgeLsas_spec {db db' : LsDb} {w w' : Wires} {now : Instant} (hok : db.Ok)
    (h : db.refreshAndPurgeLsas w now = some (db', w')) :
    (db'.selfId = db.selfId ∧ db'.links = db.links ∧ db'.routes = db.routes) ∧
      (∃ out : Log, w'.handed = w.handed ++ out ∧ ∀ x ∈ out, x.2 ∈ db.refreshedLsas now) ∧
      (∀ k r, db'.db.get k = some r → (db.refreshAll now).db.get k = some r) ∧
      ∀ k, k.origin = db.selfId → db'.db.get k = (db.refreshAll now).db.get k := by
  obtain ⟨⟨p, hp⟩, hout⟩ := (db.refreshAll now).floodEach_spec w (db.refreshedLsas now)
  obtain ⟨m, hm, hsub, hown⟩ := purgeStaleLsas_refreshAll hok now p
  unfold refreshAndPurgeLsas at h
  simp only [hp] at h
  split at h
  · cases hspf : (({ db.refreshAll now with pendingTx := p } : LsDb).purgeStaleLsas now).1.computeSpf
        (({ db.refreshAll now with pendingTx := p } : LsDb).purgeStaleLsas now).1.selfId with
    | none => simp [hspf] at h
    | some d =>
      simp only [hspf, Option.some.injEq, Prod.mk.injEq] at h
      obtain ⟨rfl, rfl⟩ := h
      obtain ⟨s, _, rfl⟩ := computeSpf_eq_some_iff.mp hspf
      rw [hm]
      exact ⟨⟨rfl, rfl, rfl⟩, hout, hsub, hown⟩
  · simp only [Option.some.injEq, Prod.mk.injEq] at h
    obtain ⟨rfl, rfl⟩ := h
    rw [hm]
    exact ⟨⟨rfl, rfl, rfl⟩, hout, hsub, hown⟩

theorem refreshAndPurgeLsas_advances {db db' : LsDb} {w w' : Wires} {now : Instant} (hok : db.Ok)
    (fresh : LsaKey → Prop) (h : db.refreshAndPurgeLsas w now = some (db', w')) :
    Advances db w db' w' fresh := by
  obtain ⟨⟨hself, hlinks, _⟩, ⟨out, hout, hmem⟩, hsub, hown⟩ := refreshAndPurgeLsas_spec hok h
  refine ⟨hself, ⟨fun k r hr => ?_, hlinks ▸ hok.link_id⟩, out, hout, fun x hx ho => ?_,
    fun k r' ho hr => ?_⟩
  · have hr' := hsub k r hr
    simp only [refreshAll, HashMap.get_mapValues] at hr'
    obtain ⟨r₀, hr₀, rfl⟩ := Option.map_eq_some_iff.mp hr'
    rw [refreshed_key]
    exact hok.record_key k r₀ hr₀
  · obtain ⟨r, hr, hlsa⟩ := List.mem_map.mp (hmem x hx)
    obtain ⟨k, hk⟩ := HashMap.mem_values_iff.mp (List.mem_filter.mp hr).1
    have hkey : x.2.key = k := by
      rw [← hlsa, refreshed_key]
      exact hok.record_key k r hk
    refine Or.inl ⟨db.refreshed now r, ?_, hlsa⟩
    rw [hown _ ho, hkey]
    simp [refreshAll, hk]
  · rw [hown k ho] at hr
    simp only [refreshAll, HashMap.get_mapValues] at hr
    obtain ⟨r, hget, rfl⟩ := Option.map_eq_some_iff.mp hr
    refine Or.inr ⟨r, hget, ?_⟩
    rcases db.refreshed_lsa now r with heq | heq
    · exact Or.inl heq
    · exact Or.inr (by rw [heq]; exact Nat.lt_succ_self _)

theorem tick_advances {db db' : LsDb} {w w' : Wires} {now : Instant} {b : Bool} (hok : db.Ok)
    (fresh : LsaKey → Prop) (h : db.tick w now = some (db', w', b)) :
    Advances db w db' w' fresh := by
  have hok' : ({ db with lastTick := now } : LsDb).Ok := ⟨hok.record_key, hok.link_id⟩
  have hrest : ∀ {d : LsDb} {v : Wires}, Advances db w d v fresh →
      (if d.rebuildRequested.isSome then some ({ d with rebuildRequested := none }, v, true)
        else some (d, v, false)) = some (db', w', b) → Advances db w db' w' fresh := by
    intro d v hadv heq
    split at heq
    · simp only [Option.some.injEq, Prod.mk.injEq] at heq
      obtain ⟨rfl, rfl, _⟩ := heq
      exact ⟨hadv.self_eq, ⟨hadv.ok.record_key, hadv.ok.link_id⟩, hadv.own⟩
    · simp only [Option.some.injEq, Prod.mk.injEq] at heq
      obtain ⟨rfl, rfl, _⟩ := heq
      exact hadv
  unfold tick at h
  simp only at h
  by_cases hdue : db.lastRefresh + db.lsaTimeout / 3 < now
  · rw [if_pos hdue] at h
    cases hr : ({ db with lastTick := now } : LsDb).refreshAndPurgeLsas w now with
    | none => simp [hr] at h
    | some r =>
      obtain ⟨d, v⟩ := r
      simp only [hr] at h
      have hadv := refreshAndPurgeLsas_advances hok' fresh hr
      exact hrest ⟨hadv.self_eq, hadv.ok, hadv.own⟩ h
  · rw [if_neg hdue] at h
    have hkeep : Advances db w { db with lastTick := now } w fresh :=
      .of_keep rfl hok' (fun _ _ => rfl) ⟨[], by simp, by simp⟩
    exact hrest hkeep h

theorem shutdown_advances {db : LsDb} (hok : db.Ok) (w : Wires) (now : Instant)
    (fresh : LsaKey → Prop) : Advances db w (db.shutdown w now).1 (db.shutdown w now).2 fresh := by
  have hclients : ∀ (senders : List Sender) (v : Wires),
      (senders.foldl (fun w sender => w.offerClient sender .shutdown) v).handed = v.handed := by
    intro senders
    induction senders with
    | nil => exact fun v => rfl
    | cons s l ih =>
      intro v
      rw [List.foldl_cons, ih]
      rfl
  have hempty : ({ db with db := ∅, links := ∅ } : LsDb).Ok := by
    constructor <;> intro _ _ hget <;> simp at hget
  have hgone : ∀ k r', (∅ : HashMap LsaKey LsaRecord).get k = some r' → db.db.get k = some r' := by
    intro k r' hk
    simp at hk
  unfold shutdown
  cases hr : db.db.get db.selfKey with
  | none =>
    refine ⟨rfl, ⟨hempty.record_key, hempty.link_id⟩, [], ?_, by simp, fun k r' _ hk => ?_⟩
    · simp only [RouteTable.shutdown, hclients, List.append_nil]
    · exact Or.inr ⟨r', hgone k r' hk, Or.inl rfl⟩
  | some record =>
    have hkey := hok.record_key _ record hr
    cases hb : record.lsa.body with
    | endpoint info =>
      simp only [hb]
      refine ⟨rfl, ⟨hempty.record_key, hempty.link_id⟩, [], ?_, by simp, fun k r' _ hk => ?_⟩
      · simp only [RouteTable.shutdown, hclients, List.append_nil]
      · exact Or.inr ⟨r', hgone k r' hk, Or.inl rfl⟩
    | router adjs =>
      simp only [hb]
      refine .of_forget ⟨record.lsa.key, record.lsa.seq + 1, true, .router adjs⟩ record rfl
        ⟨hempty.record_key, hempty.link_id⟩ hgone rfl (hkey ▸ hr) (by rw [← hb]) ?_
      simp only [RouteTable.shutdown, hclients]
      exact flood_handed _ _ _ _

/-- The keys an operation creates afresh. -/
def Freshens (db : LsDb) : Op → LsaKey → Prop
  | .addEndpoint request, k =>
    (∃ t info, db.routes.addEndpoint request.endpointId request.endpointInfo request.sender =
      .ok (t, .addLsa k.endpointId info)) ∧ k.origin = db.selfId
  | .addPeer _, k => k = db.selfKey ∧ db.db.get db.selfKey = none
  | _, _ => False

/-- Every operation advances the own records, apart from those it creates afresh. -/
theorem step_advances {db db' : LsDb} {w w' : Wires} {now : Instant} {op : Op} (hok : db.Ok)
    (h : db.step w now op = some (db', w')) : Advances db w db' w' (db.Freshens op) := by
  cases op with
  | addEndpoint request =>
    obtain ⟨rfl, rfl⟩ := Prod.mk.inj (Option.some.inj h)
    exact addEndpoint_advances hok w now request
  | removeEndpoint e =>
    have hadv := removeEndpoint_advances hok w now e (db.Freshens (.removeEndpoint e))
    rwa [Option.some.inj h] at hadv
  | setAnycastCost e sender cost =>
    have hadv := changeAnycastCost_advances hok w now e sender cost
      (db.Freshens (.setAnycastCost e sender cost))
    rwa [Option.some.inj h] at hadv
  | addPeer link =>
    have hadv := addPeer_advances hok w now link
    rw [Option.some.inj h] at hadv
    exact hadv
  | removePeer c => exact removePeer_advances hok w now c _ h
  | handleLsa lsa c => exact handleLsa_advances hok w now _ h
  | handleAck c key seq =>
    obtain ⟨rfl, rfl⟩ := Prod.mk.inj (Option.some.inj h)
    unfold handleAck
    split
    · split
      · exact .of_keep rfl ⟨hok.record_key, hok.link_id⟩ (fun _ _ => rfl) ⟨[], by simp, by simp⟩
      · exact .of_keep rfl ⟨hok.record_key, hok.link_id⟩ (fun _ _ => rfl) ⟨[], by simp, by simp⟩
    · exact .refl hok
  | tick =>
    obtain ⟨⟨d, v, b⟩, htick, heq⟩ := Option.map_eq_some_iff.mp h
    cases heq
    exact tick_advances hok _ htick
  | buildFib =>
    obtain ⟨⟨d, fib⟩, hfib, heq⟩ := Option.map_eq_some_iff.mp h
    cases heq
    unfold buildFib at hfib
    cases hspf : db.computeSpf db.selfId with
    | none => simp [hspf] at hfib
    | some d' =>
      simp only [hspf, Option.map_eq_some_iff, Prod.mk.injEq] at hfib
      obtain ⟨_, _, rfl, _⟩ := hfib
      have hadv := computeSpf_advances hok w (db.Freshens .buildFib) hspf
      exact ⟨hadv.self_eq, ⟨hadv.ok.record_key, hadv.ok.link_id⟩, hadv.own⟩
  | shutdown =>
    have hadv := shutdown_advances hok w now (db.Freshens .shutdown)
    rwa [Option.some.inj h] at hadv

theorem Ok.new (selfId : NodeId) (now : Instant) : (new selfId now).Ok := by
  refine ⟨fun k r hk => ?_, fun c l hc => ?_⟩
  · simp only [LsDb.new, HashMap.get_insert, HashMap.get_empty] at hk
    split at hk
    · next heq =>
      cases hk
      exact heq.symm
    · cases hk
  · change (∅ : HashMap ConnectionId Link).get c = some l at hc
    simp at hc

theorem Ok.rehash {db db' : LsDb} (hok : db.Ok) (h : Rehash db db') : db'.Ok :=
  ⟨fun k r hk => hok.record_key k r (h.get_record k ▸ hk),
    fun c l hc => hok.link_id c l (h.get_link c ▸ hc)⟩

end LsDb

end Anybus
