import Anybus.Db.Advances
import Anybus.Db.Change

/-!
# The realm an endpoint is advertised with

The realm of an advertisement is that of the first listener. Listeners that join or
leave later change at most its cost, so the advertisement is right only while no
global listener joins one of a narrower realm and no other listener outlives the last
one of the advertised realm.
-/

namespace Anybus

/-- Endpoints that may have several listeners at one node. -/
def RouteKind.Shared (k : RouteKind) : Prop := k = .anycast ∨ k = .broadcast

/-- The realm a record is advertised with, if it describes an endpoint. -/
def LsaRecord.realm (r : LsaRecord) : Option Realm :=
  match r.lsa.body with
  | .endpoint info => some info.realm
  | .router _ => none

/-- An operation on the listeners of an endpoint. -/
def Op.OnListeners : Op → Prop
  | .addEndpoint _ | .removeEndpoint _ | .setAnycastCost _ _ _ => True
  | _ => False

/-- The endpoint a record describes. -/
def LsaRecord.info (r : LsaRecord) : Option EndpointInfo :=
  match r.lsa.body with
  | .endpoint info => some info
  | .router _ => none

theorem LsaRecord.realm_eq (r : LsaRecord) : r.realm = r.info.map EndpointInfo.realm := by
  unfold realm info
  cases r.lsa.body <;> rfl

namespace LsDb

/-- The node's own description of an endpoint. -/
def infoAt (db : LsDb) (e : EndpointId) : Option EndpointInfo :=
  (db.db.get ⟨db.selfId, e⟩).bind LsaRecord.info

/-- The realm the node advertises an endpoint with. -/
def realmAt (db : LsDb) (e : EndpointId) : Option Realm :=
  (db.db.get ⟨db.selfId, e⟩).bind LsaRecord.realm

/-- The realm of an advertisement suits the realms of the listeners. -/
def Suits (realm : Realm) (realms : List Realm) : Prop :=
  realm ∈ realms ∧ (.global ∈ realms → realm = .global)

/-- Every shared endpoint with listeners is advertised with a realm that suits them. -/
def RealmsLive (db : LsDb) : Prop :=
  ∀ e k, db.routes.kindAt e = some k → k.Shared → db.routes.HasLocal e →
    ∃ realm, db.realmAt e = some realm ∧
      Suits realm ((db.routes.localsOf e).map LsRoute.realm)

/-- No global listener joins an endpoint advertised with another realm, and no listener
outlives the last one of the advertised realm. -/
def RealmKept (db : LsDb) (w : Wires) : Op → Prop
  | .addEndpoint request => db.routes.kindAt request.endpointId = some request.endpointInfo.kind →
      request.endpointInfo.kind.Shared → db.routes.HasLocal request.endpointId →
      request.endpointInfo.realm = .global → db.realmAt request.endpointId = some .global
  | .removeEndpoint e => ∀ k realm, db.routes.kindAt e = some k → k.Shared →
      db.realmAt e = some realm → (∃ r ∈ db.routes.localsOf e, r.staysOpen w) →
      ∃ r ∈ db.routes.localsOf e, r.staysOpen w ∧ r.realm = realm
  | _ => True

theorem realm_recosted (db : LsDb) (e : EndpointId) (cost : Cost) (now : Instant) (k : LsaKey) :
    ((db.recosted e cost now).get k).bind LsaRecord.realm = (db.db.get k).bind LsaRecord.realm := by
  unfold recosted
  split
  · next record hr =>
    split
    · next body hb =>
      split
      · rfl
      · rw [HashMap.get_insert]
        split
        · next heq => simp [heq, hr, LsaRecord.realm, hb]
        · rfl
    · rfl
  · rfl

/-- What keeps the advertised realms suitable for an endpoint. -/
theorem RealmsLive.of_frame {db db' : LsDb} (h : db.RealmsLive)
    (hrec : ∀ e realm, db.realmAt e = some realm → db'.realmAt e = some realm)
    (hkind : ∀ e k, db'.routes.kindAt e = some k → db.routes.HasLocal e → db.routes.kindAt e = some k)
    (hlocal : ∀ e, (db'.routes.localsOf e).map LsRoute.realm =
      (db.routes.localsOf e).map LsRoute.realm) : db'.RealmsLive := by
  intro e k hk hs hl
  have hhas : db.routes.HasLocal e := by
    by_contra hno
    have hnil := hlocal e
    rw [RouteTable.localsOf_eq_nil_iff.mpr hno, List.map_nil, List.map_eq_nil_iff] at hnil
    exact RouteTable.localsOf_eq_nil_iff.mp hnil hl
  obtain ⟨realm, hr, hsuits⟩ := h e k (hkind e k hk hhas) hs hhas
  exact ⟨realm, hrec e realm hr, hlocal e ▸ hsuits⟩

section Step

variable {db db' : LsDb} {w : Wires} {now : Instant}

/-- A registration. -/
theorem RealmsLive.addEndpoint {request : RegistrationRequest} {t : RouteTable} {effect : Effects}
    (h : db.RealmsLive) (hself : db'.selfId = db.selfId)
    (hadd : db.routes.addEndpoint request.endpointId request.endpointInfo request.sender =
      .ok (t, effect)) (hkept : db.RealmKept w (.addEndpoint request))
    (hdb : db'.db = db.carriedOut now effect) (hroutes : db'.routes = t) : db'.RealmsLive := by
  intro e k hk hs hl
  rw [hroutes] at hk hl ⊢
  have hlocals := RouteTable.localsOf_addEndpoint hadd e
  rw [RouteTable.kindAt_addEndpoint hadd] at hk
  obtain ⟨hsame, _, _, heff⟩ := RouteTable.addEndpoint_spec hadd
  unfold realmAt
  rw [hself, hdb]
  by_cases he : e = request.endpointId
  · subst he
    rw [if_pos rfl, Option.some.injEq] at hk
    rw [if_pos rfl] at hlocals
    have hnode : request.endpointInfo.kind ≠ .node := by
      rw [hk]
      rintro rfl
      rcases hs with hs | hs <;> cases hs
    rcases heff with ⟨hn, _⟩ | ⟨_, hno, rfl⟩ | ⟨_, hhas, heff⟩
    · exact absurd hn hnode
    · refine ⟨request.endpointInfo.realm, ?_, ?_⟩
      · simp [carriedOut, LsaRecord.realm]
      · rw [hlocals, RouteTable.localsOf_eq_nil_iff.mpr hno, RouteTable.pushed, if_neg hnode]
        simp [Suits, eq_comm]
    · -- The endpoint has listeners already, so its advertisement keeps its realm.
      have hold : db.routes.kindAt request.endpointId = some request.endpointInfo.kind := by
        obtain ⟨r, hr, _⟩ := hhas
        obtain ⟨entry, hentry⟩ := RouteTable.entry_of_mem_routesOf hr
        rw [RouteTable.kindAt, hentry, Option.map_some, hsame entry hentry]
      obtain ⟨realm, hrealm, hmem, hglobal⟩ := h _ _ hold (hk ▸ hs) hhas
      refine ⟨realm, ?_, ?_⟩
      · rw [← hrealm]
        rcases heff with rfl | rfl
        · rfl
        · exact realm_recosted db _ _ now _
      · rw [hlocals, RouteTable.pushed, if_neg hnode, List.map_append, List.map_singleton]
        refine ⟨List.mem_append_left _ hmem, fun hg => ?_⟩
        rcases List.mem_append.mp hg with hg | hg
        · exact hglobal hg
        · have hreq := hkept hold (hk ▸ hs) hhas (List.mem_singleton.mp hg).symm
          exact Option.some.inj (hrealm.symm.trans hreq)
  · rw [if_neg he] at hk hlocals
    have hhas : db.routes.HasLocal e := by
      by_contra hno
      rw [RouteTable.localsOf_eq_nil_iff.mpr hno] at hlocals
      exact RouteTable.localsOf_eq_nil_iff.mp hlocals hl
    obtain ⟨realm, hrealm, hsuits⟩ := h e k hk hs hhas
    refine ⟨realm, ?_, hlocals ▸ hsuits⟩
    rw [← hrealm]
    rcases heff with ⟨_, rfl⟩ | ⟨_, _, rfl⟩ | ⟨_, _, rfl | rfl⟩
    · rfl
    · simp [carriedOut, realmAt, he]
    · rfl
    · exact realm_recosted db _ _ now _

/-- Closed listeners are dropped. -/
theorem RealmsLive.removeEndpoint {e : EndpointId} (h : db.RealmsLive)
    (hself : db'.selfId = db.selfId) (hkept : db.RealmKept w (.removeEndpoint e))
    (hdb : db'.db = db.carriedOut now (db.routes.removeEndpoint w e).2)
    (hroutes : db'.routes = (db.routes.removeEndpoint w e).1) : db'.RealmsLive := by
  intro e' k hk hs hl
  rw [hroutes] at hk hl ⊢
  have hlocals := db.routes.localsOf_removeEndpoint w e e'
  have hkind := RouteTable.kindAt_of_removeEndpoint hk
  have hhas : db.routes.HasLocal e' := by
    by_contra hno
    have hnil := RouteTable.localsOf_eq_nil_iff.mpr hno
    refine RouteTable.localsOf_eq_nil_iff.mp ?_ hl
    rw [hlocals]
    split
    · next heq => rw [← heq, hnil, List.filter_nil]
    · exact hnil
  obtain ⟨realm, hrealm, hmem, hglobal⟩ := h e' k hkind hs hhas
  have hrec : ((db.carriedOut now (db.routes.removeEndpoint w e).2).get ⟨db.selfId, e'⟩).bind
      LsaRecord.realm = db.realmAt e' := by
    rcases db.routes.removeEndpoint_cases w e with ⟨_, heq⟩ | ⟨hr, ⟨heq, hnil⟩ | ⟨heff, _⟩⟩
    · rw [heq]
      rfl
    · -- The advertisement goes with the last route, so another endpoint is meant.
      have hne : e' ≠ e := by
        rintro rfl
        refine RouteTable.localsOf_eq_nil_iff.mp ?_ hl
        rw [RouteTable.localsOf, hr, if_pos rfl, hnil, List.filter_nil]
      rw [heq, carriedOut]
      split
      · rw [HashMap.get_erase, if_neg fun hkey => hne (LsaKey.mk.inj hkey).2]
        rfl
      · rfl
    · rcases heff with heff | heff | ⟨c, heff⟩
      · rw [heff]
        rfl
      · rw [heff]
        rfl
      · rw [heff]
        exact realm_recosted db _ _ now _
  refine ⟨realm, ?_, ?_⟩
  · rw [realmAt, hself, hdb, hrec, hrealm]
  · rw [hlocals]
    split
    · next heq =>
      subst heq
      have hopen : ∃ r ∈ db.routes.localsOf e', r.staysOpen w := by
        rw [if_pos rfl] at hlocals
        by_contra hnone
        refine RouteTable.localsOf_eq_nil_iff.mp ?_ hl
        rw [hlocals, List.filter_eq_nil_iff]
        exact fun r hr ho => hnone ⟨r, hr, ho⟩
      obtain ⟨r, hr, ho, hrr⟩ := hkept k realm hkind hs hrealm hopen
      refine ⟨List.mem_map.mpr ⟨r, List.mem_filter.mpr ⟨hr, ho⟩, hrr⟩, fun hg => hglobal ?_⟩
      obtain ⟨g, hgm, hgr⟩ := List.mem_map.mp hg
      exact List.mem_map.mpr ⟨g, (List.mem_filter.mp hgm).1, hgr⟩
    · exact ⟨hmem, hglobal⟩

/-- Writing the own router record leaves the descriptions of the endpoints. -/
theorem info_insert_selfKey {r : LsaRecord} (hown : ∀ r', db.db.get db.selfKey = some r' → r'.info = none)
    {e : EndpointId} {info : EndpointInfo} (h : db.infoAt e = some info) :
    ((db.db.insert db.selfKey r).get ⟨db.selfId, e⟩).bind LsaRecord.info = some info := by
  obtain ⟨r', hr', hinfo⟩ := Option.bind_eq_some_iff.mp h
  have hkey : (⟨db.selfId, e⟩ : LsaKey) ≠ db.selfKey := by
    intro hkey
    rw [hkey] at hr'
    rw [hown r' hr'] at hinfo
    cases hinfo
  rw [HashMap.get_insert, if_neg hkey]
  exact h

theorem info_eq_none_of_router {r : LsaRecord} {adjs : List Adjacency} (hb : r.lsa.body = .router adjs) :
    r.info = none := by
  simp [LsaRecord.info, hb]

/-- No other operation touches the descriptions of the own endpoints, short of a shutdown. -/
theorem infoAt_of_change {op : Op} (hok : db.Ok) (hself : db'.selfId = db.selfId)
    (hchange : Change db w now op db'.parts) (hop : ¬ op.OnListeners) (hshut : op ≠ .shutdown)
    {e : EndpointId} {info : EndpointInfo} (h : db.infoAt e = some info) : db'.infoAt e = some info := by
  generalize hparts : db'.parts = p at hchange
  have hdb : db'.db = p.records := congrArg Parts.records hparts
  rw [infoAt, hself, hdb]
  cases hchange with
  | quiet => exact h
  | addEndpoint _ => exact absurd trivial hop
  | removeEndpoint _ => exact absurd trivial hop
  | setAnycastCost _ _ => exact absurd trivial hop
  | addPeer hbody =>
    refine info_insert_selfKey (fun r hr => ?_) h
    rw [ownRecord, hr, Option.getD_some] at hbody
    exact info_eq_none_of_router hbody
  | removePeer =>
    simp only [withoutAdjacency]
    split
    · next r hown =>
      split
      · next adjs hb =>
        split
        · refine info_insert_selfKey (fun r' hr' => ?_) h
          obtain rfl := Option.some.inj (hown.symm.trans hr')
          exact info_eq_none_of_router hb
        · exact h
      · exact h
    · exact h
  | handleLsa hh =>
    have hown := hh.frame.2.2 ⟨db.selfId, e⟩ rfl
    change ((LsDb.db _).get _).bind _ = _
    rw [hown]
    exact h
  | tick hm =>
    have hget : (HashMap.get ((db.refreshAll now).db) ⟨db.selfId, e⟩).bind LsaRecord.info =
        some info := by
      rw [← h, infoAt, refreshAll, HashMap.get_mapValues]
      cases db.db.get ⟨db.selfId, e⟩ with
      | none => rfl
      | some r => simp [LsaRecord.info, refreshed_body]
    rcases hm with rfl | ⟨key, hstale, rfl⟩
    · exact hget
    · simp only
      rw [HashMap.get_erase, if_neg]
      · exact hget
      · rintro rfl
        exact hok.not_stale rfl hstale
  | shutdown => exact absurd rfl hshut

theorem realmAt_eq (db : LsDb) (e : EndpointId) : db.realmAt e = (db.infoAt e).map EndpointInfo.realm := by
  unfold realmAt infoAt
  cases db.db.get ⟨db.selfId, e⟩ with
  | none => rfl
  | some r => exact r.realm_eq

/-- One operation. -/
theorem RealmsLive.step {w' : Wires} {op : Op} (h : db.RealmsLive) (hok : db.Ok)
    (hkept : db.RealmKept w op) (hstep : db.step w now op = some (db', w')) : db'.RealmsLive := by
  obtain ⟨hself, hchange⟩ := step_change hstep
  have hrec : ¬ op.OnListeners → op ≠ .shutdown → ∀ e realm, db.realmAt e = some realm →
      db'.realmAt e = some realm := by
    intro hop hshut e realm hr
    rw [realmAt_eq] at hr ⊢
    obtain ⟨info, hi, rfl⟩ := Option.map_eq_some_iff.mp hr
    rw [infoAt_of_change hok hself hchange hop hshut hi]
    rfl
  generalize hparts : db'.parts = p at hchange
  have hdb : db'.db = p.records := congrArg Parts.records hparts
  have hroutes : db'.routes = p.routes := congrArg Parts.routes hparts
  cases hchange with
  | quiet =>
    refine h.of_frame (fun e realm hr => ?_) (fun e k hk _ => ?_) fun e => ?_
    · rw [realmAt, hself, hdb]
      exact hr
    · rw [hroutes] at hk
      exact hk
    · rw [hroutes]
      rfl
  | addEndpoint hadd => exact h.addEndpoint hself hadd hkept hdb hroutes
  | removeEndpoint e => exact h.removeEndpoint hself hkept hdb hroutes
  | setAnycastCost hset hm =>
    refine h.of_frame (fun e realm hr => ?_) (fun e k hk _ => ?_) fun e => ?_
    · rw [realmAt, hself, hdb, ← hr]
      rcases hm with rfl | ⟨c, rfl⟩
      · rfl
      · exact realm_recosted db _ _ now _
    · rwa [hroutes, RouteTable.kindAt_setAnycastCost hset] at hk
    · rw [hroutes]
      exact (RouteTable.setAnycastCost_frame hset e).1
  | addPeer hbody =>
    refine h.of_frame (hrec nofun nofun) (fun e k hk _ => ?_) fun e => ?_
    · rw [hroutes] at hk
      exact hk
    · rw [hroutes]
  | removePeer =>
    refine h.of_frame (hrec nofun nofun) (fun e k hk _ => ?_) fun e => ?_
    · rw [hroutes] at hk
      exact hk
    · rw [hroutes]
  | handleLsa hh =>
    refine h.of_frame (hrec nofun nofun) (fun e k hk hl => ?_) fun e => ?_
    · rw [hroutes] at hk
      rcases hh.kindAt hk with hold | ⟨_, _, hnone, _⟩
      · exact hold
      · obtain ⟨r, hr, _⟩ := hl
        rw [RouteTable.routesOf_eq_nil_of_kindAt hnone] at hr
        cases hr
    · rw [hroutes]
      exact congrArg _ (hh.localsOf e)
  | tick hm =>
    refine h.of_frame (hrec nofun nofun) (fun e k hk _ => ?_) fun e => ?_
    · rw [hroutes] at hk
      exact hk
    · rw [hroutes]
  | shutdown =>
    intro e k hk
    rw [hroutes] at hk
    cases hk

end Step

/-- In a run that keeps the advertised realms, every anycast or broadcast endpoint with
listeners is advertised with the realm of one of them, and globally if any is global. -/
theorem advertised_realm_live (selfId : NodeId) (db : LsDb)
    (h : Runs (fun db w _ op => db.RealmKept w op) selfId db) (e : EndpointId) (k : RouteKind)
    (hk : db.routes.kindAt e = some k) (hs : k = .anycast ∨ k = .broadcast)
    (hl : db.routes.HasLocal e) (r : LsaRecord) (hr : db.db.get ⟨selfId, e⟩ = some r) :
    ∃ info, r.lsa.body = .endpoint info ∧
      (∃ route ∈ db.routes.localsOf e, route.realm = info.realm) ∧
      ((∃ route ∈ db.routes.localsOf e, route.realm = .global) → info.realm = .global) := by
  have hinv : db.RealmsLive ∧ db.Ok := by
    clear hk hs hl hr
    induction h with
    | new now =>
      refine ⟨fun e k hk => ?_, Ok.new selfId now⟩
      cases hk
    | rehash _ hre ih =>
      refine ⟨ih.1.of_frame (fun e realm hrealm => ?_) (fun e k hk _ => ?_) fun e => ?_,
        ih.2.rehash hre⟩
      · rw [realmAt, hre.selfId, hre.get_record]
        exact hrealm
      · rwa [RouteTable.kindAt, hre.get_route] at hk
      · rw [RouteTable.localsOf, RouteTable.routesOf, hre.get_route]
        rfl
    | step w now op _ hkept hstep ih => exact ⟨ih.1.step ih.2 hkept hstep, (step_advances ih.2 hstep).ok⟩
  obtain ⟨realm, hrealm, hmem, hglobal⟩ := hinv.1 e k hk hs hl
  rw [realmAt, h.selfId, hr, Option.bind_some, LsaRecord.realm] at hrealm
  cases hb : r.lsa.body with
  | router adjs => simp [hb] at hrealm
  | endpoint info =>
    simp only [hb, Option.some.injEq] at hrealm
    subst hrealm
    refine ⟨info, rfl, List.mem_map.mp hmem, fun hg => hglobal (List.mem_map.mpr hg)⟩

end LsDb

/-- A listener on an anycast endpoint of the given realm. -/
def anycastIn (realm : Realm) (sender : Sender) : RegistrationRequest :=
  ⟨5, ⟨.anycast, realm, 0⟩, sender⟩

/-- A global listener that joins a process listener is never advertised. -/
theorem global_listener_hidden :
    ¬ ∀ (selfId : NodeId) (db : LsDb), LsDb.Runs (fun _ _ _ _ => True) selfId db →
      ∀ (e : EndpointId) (k : RouteKind), db.routes.kindAt e = some k →
        k = .anycast ∨ k = .broadcast → db.routes.HasLocal e →
        ∀ r, db.db.get ⟨selfId, e⟩ = some r → ∃ info, r.lsa.body = .endpoint info ∧
          (∃ route ∈ db.routes.localsOf e, route.realm = info.realm) ∧
          ((∃ route ∈ db.routes.localsOf e, route.realm = .global) → info.realm = .global) := by
  intro h
  have hbad : ((LsDb.new 1 0).run [] [.at false (.addEndpoint (anycastIn .process 7)),
      .at false (.addEndpoint (anycastIn .global 8))]).map (fun r =>
        (r.1.routes.kindAt 5, (r.1.routes.localsOf 5).map LsRoute.realm, r.1.db.get ⟨1, 5⟩)) =
      some (some .anycast, [.process, .global],
        some ⟨⟨⟨1, 5⟩, 0, false, .endpoint ⟨.anycast, .process, 0⟩⟩, 0⟩) := by
    decide +kernel
  obtain ⟨⟨db, log⟩, hrun, heq⟩ := Option.map_eq_some_iff.mp hbad
  simp only [Prod.mk.injEq] at heq
  obtain ⟨hk, hrealms, hrec⟩ := heq
  have hglobal : ∃ route ∈ db.routes.localsOf 5, route.realm = .global := by
    refine List.mem_map.mp ?_
    rw [hrealms]
    simp
  have hlocal : db.routes.HasLocal 5 := by
    by_contra hno
    rw [RouteTable.localsOf_eq_nil_iff.mpr hno] at hrealms
    cases hrealms
  obtain ⟨info, hb, _, hg⟩ := h 1 db (LsDb.runs_of_run (.new 0) (fun _ _ _ _ => trivial) hrun) 5
    .anycast hk (Or.inl rfl) hlocal _ hrec
  cases hb
  exact absurd (hg hglobal) (by decide)

/-- A process listener that joins a global one does not change the advertisement. -/
theorem global_listener_first :
    ∃ db, LsDb.Runs (fun db w _ op => db.RealmKept w op) 1 db ∧
      (db.routes.localsOf 5).map LsRoute.realm = [.global, .process] ∧
      ∃ r info, db.db.get ⟨1, 5⟩ = some r ∧ r.lsa.body = .endpoint info ∧
        (∃ route ∈ db.routes.localsOf 5, route.realm = info.realm) ∧
        ((∃ route ∈ db.routes.localsOf 5, route.realm = .global) → info.realm = .global) := by
  have h₀ : LsDb.Runs (fun db w _ op => db.RealmKept w op) 1 (LsDb.new 1 0) := .new 0
  have h₁ := h₀.step (.idle 32) 0 (.addEndpoint (anycastIn .global 7)) (fun hk => by cases hk) rfl
  have h₂ := h₁.step (.idle 32) 0 (.addEndpoint (anycastIn .process 8))
    (fun _ _ _ hg => by cases hg) rfl
  have hlocals : (((LsDb.new 1 0).addEndpoint (.idle 32) (anycastIn .global 7) 0).1.addEndpoint
      (.idle 32) (anycastIn .process 8) 0).1.routes.localsOf 5 =
        [⟨.loc 7, 0, .global, .anycast⟩, ⟨.loc 8, 0, .process, .anycast⟩] := by decide +kernel
  have hhas : (((LsDb.new 1 0).addEndpoint (.idle 32) (anycastIn .global 7) 0).1.addEndpoint
      (.idle 32) (anycastIn .process 8) 0).1.routes.HasLocal 5 := by
    by_contra hno
    rw [RouteTable.localsOf_eq_nil_iff.mpr hno] at hlocals
    cases hlocals
  have hrec : (((LsDb.new 1 0).addEndpoint (.idle 32) (anycastIn .global 7) 0).1.addEndpoint
      (.idle 32) (anycastIn .process 8) 0).1.db.get ⟨1, 5⟩ =
        some ⟨⟨⟨1, 5⟩, 0, false, .endpoint ⟨.anycast, .global, 0⟩⟩, 0⟩ := by decide +kernel
  obtain ⟨info, hb, hlive⟩ := LsDb.advertised_realm_live 1 _ h₂ 5 .anycast (by decide +kernel)
    (Or.inl rfl) hhas _ hrec
  exact ⟨_, h₂, by rw [hlocals]; rfl, _, info, hrec, hb, hlive⟩

end Anybus
