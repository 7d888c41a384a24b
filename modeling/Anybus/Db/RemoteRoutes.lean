import Anybus.Db.Advances
import Anybus.Db.Change

/-!
# Remote routes and records of other nodes

The route table holds one route per record of another node. Both are kept in step by
hand: storing a record learns its route, a withdrawal forgets it, and the death of a
router forgets all records and routes of its origin. This works out as long as every
endpoint id is used with one kind and a unicast endpoint has one advertiser at a time.
-/

namespace Anybus

namespace LsDb

/-- What the routes of an endpoint to one node should be, given its record. -/
def RouteMatches (r : Option LsaRecord) (routes : List LsRoute) : Prop :=
  match r with
  | some r => ∃ route, routes = [route] ∧ ∀ info, r.lsa.body = .endpoint info →
      route.cost = info.cost ∧ route.realm = info.realm ∧ route.kind = info.kind
  | none => routes = []

/-- Every record of another node has exactly one route, which describes it, and there
are no other routes to other nodes. -/
def RoutesAgree (db : LsDb) : Prop :=
  ∀ e origin, origin ≠ db.selfId →
    RouteMatches (db.db.get ⟨origin, e⟩) (db.routes.remotesOf e origin)

/-- What holds along a run in which every endpoint id has its kind. -/
structure Agrees (kindOf : EndpointId → RouteKind) (db : LsDb) : Prop where
  routes : db.RoutesAgree
  no_self : ∀ e, db.routes.remotesOf e db.selfId = []
  entry_kind : ∀ e k, db.routes.kindAt e = some k → k = kindOf e
  route_kind : ∀ e origin, ∀ r ∈ db.routes.remotesOf e origin, r.kind = kindOf e

/-- An operation uses every endpoint id with its kind, an alive router LSA has the key of
its origin, a unicast endpoint gets no second advertiser, nothing is purged, and the
node does not shut down. -/
def UsesKinds (kindOf : EndpointId → RouteKind) (db : LsDb) (now : Instant) : Op → Prop
  | .addEndpoint request => request.endpointInfo.kind = kindOf request.endpointId
  | .handleLsa lsa _ => lsa.dead = false → lsa.key.origin ≠ db.selfId →
      (∀ info, lsa.body = .endpoint info → info.kind = kindOf lsa.key.endpointId) ∧
      (∀ adjs, lsa.body = .router adjs →
        lsa.key.endpointId = lsa.key.origin ∧ kindOf lsa.key.endpointId = .node) ∧
      (kindOf lsa.key.endpointId = .unicast → ¬ db.routes.HasLocal lsa.key.endpointId ∧
        ∀ origin, origin ≠ lsa.key.origin → origin ≠ db.selfId →
          db.db.get ⟨origin, lsa.key.endpointId⟩ = none)
  | .tick => ∀ key, ¬ db.Stale now key
  | .shutdown => False
  | _ => True

section Agrees

variable {kindOf : EndpointId → RouteKind} {db db' : LsDb}

/-- Records that keep their body and routes that stay are in step as before. -/
theorem Agrees.of_frame (h : Agrees kindOf db) (hself : db'.selfId = db.selfId)
    (hrec : ∀ k, k.origin ≠ db.selfId →
      (db'.db.get k).map (fun r => r.lsa.body) = (db.db.get k).map fun r => r.lsa.body)
    (hremote : ∀ e origin, db'.routes.remotesOf e origin = db.routes.remotesOf e origin)
    (hkind : ∀ e k, db'.routes.kindAt e = some k → db.routes.kindAt e = some k ∨ k = kindOf e) :
    Agrees kindOf db' := by
  refine ⟨fun e origin ho => ?_, fun e => ?_, fun e k hk => ?_, fun e origin r hr => ?_⟩
  · rw [hself] at ho
    have hold := h.routes e origin ho
    have hbody := hrec ⟨origin, e⟩ ho
    rw [hremote]
    cases hr : db.db.get ⟨origin, e⟩ with
    | none =>
      rw [hr, Option.map_none, Option.map_eq_none_iff] at hbody
      rw [hr] at hold
      rw [hbody]
      exact hold
    | some r =>
      rw [hr, Option.map_some] at hbody
      obtain ⟨r', hr', hb⟩ := Option.map_eq_some_iff.mp hbody
      rw [hr] at hold
      obtain ⟨route, hroute, hinfo⟩ := hold
      rw [hr']
      exact ⟨route, hroute, fun info hi => hinfo info (hb ▸ hi)⟩
  · rw [hself, hremote]
    exact h.no_self e
  · rcases hkind e k hk with hold | hnew
    · exact h.entry_kind e k hold
    · exact hnew
  · rw [hremote] at hr
    exact h.route_kind e origin r hr

/-- Forgetting an origin forgets the routes of its records. -/
theorem remotesOf_removeOrigin (db : LsDb) (origin : NodeId) (e : EndpointId) (origin' : NodeId) :
    (db.removeOrigin origin).routes.remotesOf e origin' =
      if origin' = origin ∧ (db.db.get ⟨origin, e⟩).isSome then []
      else db.routes.remotesOf e origin' := by
  have hfold : ∀ (l : List (Σ _ : LsaKey, LsaRecord)) (t : RouteTable),
      (l.foldl (fun t x => (t.removeRemoteEndpoint x.1.endpointId x.1.origin).1) t).remotesOf e
          origin' =
        if ∃ x ∈ l, x.1 = ⟨origin', e⟩ then [] else t.remotesOf e origin' := by
    intro l
    induction l with
    | nil => simp
    | cons x l ih =>
      intro t
      rw [List.foldl_cons, ih, RouteTable.remotesOf_removeRemoteEndpoint]
      by_cases hl : ∃ y ∈ l, y.1 = ⟨origin', e⟩
      · rw [if_pos hl, if_pos]
        obtain ⟨y, hy, heq⟩ := hl
        exact ⟨y, List.mem_cons_of_mem _ hy, heq⟩
      · rw [if_neg hl]
        by_cases hx : x.1 = ⟨origin', e⟩
        · rw [if_pos ⟨by rw [hx], by rw [hx]⟩, if_pos ⟨x, List.mem_cons_self, hx⟩]
        · rw [if_neg, if_neg]
          · rintro ⟨y, hy, heq⟩
            rcases List.mem_cons.mp hy with rfl | hy
            · exact hx heq
            · exact hl ⟨y, hy, heq⟩
          · rintro ⟨he, ho⟩
            exact hx (by cases hk : x.1; simp [hk] at he ho; rw [he, ho])
  unfold removeOrigin
  rw [hfold]
  refine if_congr ?_ rfl rfl
  constructor
  · rintro ⟨⟨k, r⟩, hx, hk⟩
    obtain ⟨hmem, ho⟩ := List.mem_filter.mp hx
    simp only at hk
    subst hk
    have ho' : origin' = origin := of_decide_eq_true ho
    subst ho'
    exact ⟨rfl, by rw [HashMap.mem_entries_iff.mp hmem]; rfl⟩
  · rintro ⟨rfl, hsome⟩
    obtain ⟨r, hr⟩ := Option.isSome_iff_exists.mp hsome
    exact ⟨⟨⟨origin', e⟩, r⟩, List.mem_filter.mpr ⟨HashMap.mem_entries_iff.mpr hr, by simp⟩, rfl⟩

/-- A node without any route to others and without a listener has no route at all. -/
theorem Agrees.routesOf_eq_nil (h : Agrees kindOf db) {e : EndpointId}
    (hlocal : ¬ db.routes.HasLocal e)
    (hrec : ∀ origin, origin ≠ db.selfId → db.db.get ⟨origin, e⟩ = none) :
    db.routes.routesOf e = [] := by
  rw [List.eq_nil_iff_forall_not_mem]
  intro r hr
  cases hv : r.via with
  | loc s => exact hlocal ⟨r, hr, by rw [hv]; rfl⟩
  | remote origin =>
    have hmem : r ∈ db.routes.remotesOf e origin :=
      List.mem_filter.mpr ⟨hr, by simp [LsRoute.isRemoteOf, hv]⟩
    have hnil : db.routes.remotesOf e origin = [] := by
      by_cases ho : origin = db.selfId
      · rw [ho]
        exact h.no_self e
      · have hmatch := h.routes e origin ho
        rw [hrec origin ho] at hmatch
        exact hmatch
    rw [hnil] at hmem
    cases hmem

/-- Storing an LSA learns its route. -/
theorem Agrees.stored {lsa : Lsa} {now : Instant} {c : ConnectionId} (h : Agrees kindOf db)
    (ho : lsa.key.origin ≠ db.selfId) (hd : lsa.dead = false)
    (huses : db.UsesKinds kindOf now (.handleLsa lsa c)) (hself : db'.selfId = db.selfId)
    (hdb : db'.db = db.db.insert lsa.key ⟨lsa, now⟩) (hroutes : db'.routes = db.routesWith lsa) :
    Agrees kindOf db' := by
  obtain ⟨hinfo, hrouter, huni⟩ := huses hd ho
  have hkind : (db.routeInfo lsa).kind = kindOf lsa.key.endpointId := by
    unfold routeInfo
    cases hb : lsa.body with
    | router adjs => exact (hrouter adjs hb).2.symm
    | endpoint info => exact hinfo info hb
  have hmatch := h.routes lsa.key.endpointId lsa.key.origin ho
  have hone : (db.routes.remotesOf lsa.key.endpointId lsa.key.origin).length ≤ 1 := by
    cases hr : db.db.get lsa.key with
    | none =>
      rw [show (⟨lsa.key.origin, lsa.key.endpointId⟩ : LsaKey) = lsa.key from rfl, hr] at hmatch
      rw [hmatch]
      exact Nat.zero_le 1
    | some r =>
      rw [show (⟨lsa.key.origin, lsa.key.endpointId⟩ : LsaKey) = lsa.key from rfl, hr] at hmatch
      obtain ⟨route, hroute, _⟩ := hmatch
      rw [hroute, List.length_singleton]
  -- The entry is of the right kind, and a unicast entry holds no other route.
  obtain ⟨t, eff, hadd⟩ : ∃ t eff, db.routes.addRemoteEndpoint lsa.key.endpointId lsa.key.origin
      (db.routeInfo lsa) = .ok (t, eff) := by
    refine RouteTable.addRemoteEndpoint_ok (fun entry he => ?_) fun hu => ?_
    · rw [hkind]
      exact h.entry_kind _ _ (by rw [RouteTable.kindAt, he, Option.map_some])
    · obtain ⟨hlocal, hothers⟩ := huni (hkind ▸ hu)
      cases hr : db.db.get lsa.key with
      | none =>
        refine Or.inl (h.routesOf_eq_nil hlocal fun origin hne => ?_)
        by_cases hsame : origin = lsa.key.origin
        · rw [hsame]
          exact hr
        · exact hothers origin hsame hne
      | some r =>
        rw [show (⟨lsa.key.origin, lsa.key.endpointId⟩ : LsaKey) = lsa.key from rfl, hr] at hmatch
        obtain ⟨route, hroute, _⟩ := hmatch
        have hmem : route ∈ db.routes.remotesOf lsa.key.endpointId lsa.key.origin := by
          rw [hroute]
          exact List.mem_singleton_self _
        obtain ⟨hin, hv⟩ := List.mem_filter.mp hmem
        exact Or.inr ⟨route, hin, of_decide_eq_true hv⟩
  have ht : db'.routes = t := by rw [hroutes, routesWith, hadd]
  have hremote : ∀ e origin, t.remotesOf e origin =
      if e = lsa.key.endpointId ∧ origin = lsa.key.origin then
        [⟨.remote lsa.key.origin, (db.routeInfo lsa).cost, (db.routeInfo lsa).realm,
          (db.routeInfo lsa).kind⟩]
      else db.routes.remotesOf e origin := by
    intro e origin
    rw [RouteTable.remotesOf, RouteTable.routesOf_addRemoteEndpoint hadd]
    by_cases he : e = lsa.key.endpointId
    · rw [if_pos he, RouteTable.remotesOf_learned origin hone fun r hr hv => ?_]
      · simp only [he, true_and]
        rfl
      · rw [hkind]
        exact h.route_kind _ _ r (List.mem_filter.mpr ⟨hr, hv⟩)
    · rw [if_neg he, if_neg fun hboth => he hboth.1]
      rfl
  refine ⟨fun e origin hne => ?_, fun e => ?_, fun e k hk => ?_, fun e origin r hr => ?_⟩
  · rw [hself] at hne
    rw [hdb, ht, hremote, HashMap.get_insert]
    by_cases hkey : (⟨origin, e⟩ : LsaKey) = lsa.key
    · rw [if_pos hkey, if_pos ⟨by rw [← hkey], by rw [← hkey]⟩]
      refine ⟨_, rfl, fun info hb => ?_⟩
      have hroute : db.routeInfo lsa = info := by
        change lsa.body = .endpoint info at hb
        rw [routeInfo, hb]
      rw [hroute]
      exact ⟨rfl, rfl, rfl⟩
    · rw [if_neg hkey, if_neg]
      · exact h.routes e origin hne
      · rintro ⟨rfl, rfl⟩
        exact hkey rfl
  · rw [hself, ht, hremote, if_neg]
    · exact h.no_self e
    · rintro ⟨_, hsame⟩
      exact ho hsame.symm
  · rw [ht] at hk
    rcases RouteTable.kindAt_of_addRemoteEndpoint hadd hk with hold | ⟨rfl, _, hnew⟩
    · exact h.entry_kind e k hold
    · rw [hnew, hkind]
  · rw [ht, hremote] at hr
    split at hr
    · next hboth =>
      rw [List.mem_singleton.mp hr, hboth.1]
      exact hkind
    · exact h.route_kind e origin r hr

/-- A withdrawal forgets records and their routes together. -/
theorem Agrees.died {lsa : Lsa} {r : LsaRecord} (h : Agrees kindOf db)
    (ho : lsa.key.origin ≠ db.selfId) (hself : db'.selfId = db.selfId)
    (hdb : db'.db = db.withoutDead lsa.key r)
    (hroutes : db'.routes = db.routesWithoutDead lsa.key r) : Agrees kindOf db' := by
  -- Which records are gone: those of the origin for a router, else the withdrawn one.
  have hgone : ∀ e origin, origin ≠ db.selfId →
      (db'.db.get ⟨origin, e⟩ = none ∧ db'.routes.remotesOf e origin = []) ∨
      (db'.db.get ⟨origin, e⟩ = db.db.get ⟨origin, e⟩ ∧
        db'.routes.remotesOf e origin = db.routes.remotesOf e origin) := by
    intro e origin hne
    rw [hdb, hroutes, withoutDead, routesWithoutDead, RouteTable.remotesOf_removeRemoteEndpoint]
    cases hb : r.lsa.body with
    | router adjs =>
      simp only [HashMap.get_retain, remotesOf_removeOrigin]
      by_cases hsame : origin = lsa.key.origin
      · left
        subst hsame
        have hmatch := h.routes e lsa.key.origin ho
        cases hrec : db.db.get ⟨lsa.key.origin, e⟩ with
        | none =>
          rw [hrec] at hmatch
          have hnil : db.routes.remotesOf e lsa.key.origin = [] := hmatch
          simp [hnil]
        | some r' => simp [Option.filter]
      · right
        refine ⟨?_, ?_⟩
        · cases db.db.get ⟨origin, e⟩ <;> simp [Option.filter, hsame]
        · simp [hsame]
    | endpoint info =>
      simp only [HashMap.get_erase, RouteTable.remotesOf_removeRemoteEndpoint]
      by_cases hkey : (⟨origin, e⟩ : LsaKey) = lsa.key
      · exact Or.inl ⟨if_pos hkey, if_pos ⟨by rw [← hkey], by rw [← hkey]⟩⟩
      · have hboth : ¬ (e = lsa.key.endpointId ∧ origin = lsa.key.origin) := by
          rintro ⟨rfl, rfl⟩
          exact hkey rfl
        exact Or.inr ⟨if_neg hkey, by rw [if_neg hboth, if_neg hboth]⟩
  have hsub : ∀ e origin, ∀ x ∈ db'.routes.remotesOf e origin, x ∈ db.routes.remotesOf e origin := by
    rw [hroutes]
    refine routesWithoutDead_induct (P := fun t => ∀ e origin, ∀ x ∈ t.remotesOf e origin,
      x ∈ db.routes.remotesOf e origin) db lsa.key r (fun _ _ _ hx => hx) ?_
    intro t e' ht e origin x hx
    rw [RouteTable.remotesOf_removeRemoteEndpoint] at hx
    split at hx
    · cases hx
    · exact ht e origin x hx
  refine ⟨fun e origin hne => ?_, fun e => ?_, fun e k hk => ?_, fun e origin x hx => ?_⟩
  · rw [hself] at hne
    rcases hgone e origin hne with ⟨hnone, hnil⟩ | ⟨hsame, hroute⟩
    · rw [hnone, hnil]
      exact rfl
    · rw [hsame, hroute]
      exact h.routes e origin hne
  · rw [hself, List.eq_nil_iff_forall_not_mem]
    intro x hx
    have hold := hsub e db.selfId x hx
    rw [h.no_self e] at hold
    cases hold
  · rw [hroutes] at hk
    refine h.entry_kind e k (routesWithoutDead_induct (P := fun t => t.kindAt e = some k →
      db.routes.kindAt e = some k) db lsa.key r id (fun t e' ht hk' => ?_) hk)
    exact ht (RouteTable.kindAt_of_removeRemoteEndpoint hk')
  · exact h.route_kind e origin x (hsub e origin x hx)

/-- One LSA from a neighbour. -/
theorem Agrees.handled {lsa : Lsa} {w w' : Wires} {c : ConnectionId} {now : Instant}
    (h : Agrees kindOf db) (huses : db.UsesKinds kindOf now (.handleLsa lsa c))
    (hh : Handled db w lsa c now db' w') : Agrees kindOf db' := by
  cases hh with
  | ignored => exact h
  | unknownDeath ho _ hn =>
    refine h.of_frame rfl (fun _ _ => rfl) (fun e origin => ?_) fun e k hk => ?_
    · simp only [RouteTable.remotesOf_removeRemoteEndpoint]
      split
      · next hboth =>
        have hmatch := h.routes lsa.key.endpointId lsa.key.origin ho
        rw [show (⟨lsa.key.origin, lsa.key.endpointId⟩ : LsaKey) = lsa.key from rfl, hn] at hmatch
        rw [hboth.1, hboth.2, hmatch]
      · rfl
    · exact Or.inl (RouteTable.kindAt_of_removeRemoteEndpoint hk)
  | died ho _ r _ => exact h.died ho rfl rfl rfl
  | stored ho hd => exact h.stored ho hd huses rfl rfl rfl

/-- One operation. -/
theorem Agrees.step {w w' : Wires} {now : Instant} {op : Op} (h : Agrees kindOf db)
    (huses : db.UsesKinds kindOf now op) (hstep : db.step w now op = some (db', w')) :
    Agrees kindOf db' := by
  obtain ⟨hself, hchange⟩ := step_change hstep
  generalize hparts : db'.parts = p at hchange
  have hdb : db'.db = p.records := congrArg Parts.records hparts
  have hroutes : db'.routes = p.routes := congrArg Parts.routes hparts
  cases hchange with
  | quiet =>
    refine h.of_frame hself (fun k _ => ?_) (fun e origin => ?_) fun e k hk => ?_
    · rw [hdb]
      rfl
    · rw [hroutes]
      rfl
    · rw [hroutes] at hk
      exact Or.inl hk
  | addEndpoint hadd =>
    refine h.of_frame hself (fun k hk => ?_) (fun e origin => ?_) fun e k hk => ?_
    · rw [hdb]
      exact congrArg _ (get_carriedOut_of_ne db now _ hk)
    · rw [hroutes]
      exact RouteTable.remotesOf_addEndpoint hadd e origin
    · rw [hroutes, RouteTable.kindAt_addEndpoint hadd] at hk
      split at hk
      · next heq =>
        right
        rw [heq, ← Option.some.inj hk]
        exact huses
      · exact Or.inl hk
  | removeEndpoint e =>
    refine h.of_frame hself (fun k hk => ?_) (fun e' origin => ?_) fun e' k hk => ?_
    · rw [hdb]
      exact congrArg _ (get_carriedOut_of_ne db now _ hk)
    · rw [hroutes]
      exact db.routes.remotesOf_removeEndpoint w e e' origin
    · rw [hroutes] at hk
      exact Or.inl (RouteTable.kindAt_of_removeEndpoint hk)
  | setAnycastCost hset hm =>
    refine h.of_frame hself (fun k hk => ?_) (fun e origin => ?_) fun e k hk => ?_
    · rw [hdb]
      rcases hm with rfl | ⟨c, rfl⟩
      · rfl
      · exact congrArg _ (get_recosted_of_ne db _ _ now hk)
    · rw [hroutes]
      exact (RouteTable.setAnycastCost_frame hset e).2 origin
    · rw [hroutes, RouteTable.kindAt_setAnycastCost hset] at hk
      exact Or.inl hk
  | addPeer =>
    refine h.of_frame hself (fun k hk => ?_) (fun e origin => ?_) fun e k hk => ?_
    · rw [hdb, HashMap.get_insert, if_neg]
      rintro rfl
      exact hk rfl
    · rw [hroutes]
    · rw [hroutes] at hk
      exact Or.inl hk
  | removePeer =>
    refine h.of_frame hself (fun k hk => ?_) (fun e origin => ?_) fun e k hk => ?_
    · rw [hdb]
      exact congrArg _ (get_withoutAdjacency_of_ne db _ now hk)
    · rw [hroutes]
    · rw [hroutes] at hk
      exact Or.inl hk
  | @handleLsa lsa c d v hh =>
    refine (h.handled huses hh).of_frame (hself.trans hh.frame.1.symm) (fun k _ => ?_)
      (fun e origin => ?_) fun e k hk => ?_
    · rw [hdb]
      rfl
    · rw [hroutes]
      rfl
    · rw [hroutes] at hk
      exact Or.inl hk
  | tick hm =>
    refine h.of_frame hself (fun k _ => ?_) (fun e origin => ?_) fun e k hk => ?_
    · rcases hm with rfl | ⟨key, hstale, _⟩
      · rw [hdb]
        simp only [refreshAll, HashMap.get_mapValues, Option.map_map]
        refine congrArg (fun f => (db.db.get k).map f) ?_
        funext r
        exact db.refreshed_body now r
      · exact absurd hstale (huses key)
    · rw [hroutes]
    · rw [hroutes] at hk
      exact Or.inl hk
  | shutdown => exact absurd huses id

theorem Agrees.rehash (h : Agrees kindOf db) (hre : Rehash db db') : Agrees kindOf db' := by
  refine h.of_frame hre.selfId (fun k _ => ?_) (fun e origin => ?_) fun e k hk => ?_
  · rw [hre.get_record]
  · rw [RouteTable.remotesOf, RouteTable.routesOf, hre.get_route]
    rfl
  · rw [RouteTable.kindAt, hre.get_route] at hk
    exact Or.inl hk

end Agrees

/-- In every run that uses each endpoint id with one kind, gives no unicast endpoint two
advertisers, purges nothing and does not shut down, the routes to other nodes agree with
their records; and the death of a router leaves neither records nor routes of it. -/
theorem routes_agree (kindOf : EndpointId → RouteKind) (selfId : NodeId) (db : LsDb)
    (h : Runs (fun db _ now op => db.UsesKinds kindOf now op) selfId db) :
    (∀ e origin, origin ≠ selfId →
      RouteMatches (db.db.get ⟨origin, e⟩) (db.routes.remotesOf e origin)) ∧
    ∀ (w : Wires) (lsa : Lsa) (c : ConnectionId) (now : Instant) (db' : LsDb) (w' : Wires)
      (r : LsaRecord) (adjs : List Adjacency),
      lsa.dead = true → lsa.key.endpointId = lsa.key.origin → lsa.key.origin ≠ selfId →
      db.db.get lsa.key = some r → r.lsa.body = .router adjs → r.lsa.seq < lsa.seq →
      db.handleLsa w lsa c now = some (db', w') →
      (∀ k, k.origin = lsa.key.origin → db'.db.get k = none) ∧
        ∀ e, ¬ db'.routes.HasRemote e lsa.key.origin := by
  have hself := h.selfId
  have hinv : Agrees kindOf db := by
    clear hself
    induction h with
    | new now =>
      refine ⟨fun e origin ho => ?_, fun _ => rfl, fun e k hk => ?_, fun e origin r hr => ?_⟩
      · have hne : (⟨origin, e⟩ : LsaKey) ≠ ⟨selfId, selfId⟩ :=
          fun hk => ho (LsaKey.mk.inj hk).1
        have hnone : (LsDb.new selfId now).db.get ⟨origin, e⟩ = none := by
          rw [LsDb.new, HashMap.get_insert, if_neg hne]
          rfl
        rw [hnone]
        exact rfl
      · cases hk
      · cases hr
    | rehash _ hre ih => exact ih.rehash hre
    | step w now op _ huses hstep ih => exact ih.step huses hstep
  refine ⟨fun e origin ho => hinv.routes e origin (hself.symm ▸ ho), ?_⟩
  intro w lsa c now db' w' r adjs hdead _ ho hr hb hlt hstep
  rw [← hself] at ho
  have hh := handleLsa_handled hstep
  have huses : db.UsesKinds kindOf now (.handleLsa lsa c) := by
    intro halive
    rw [hdead] at halive
    cases halive
  have hafter := hinv.handled huses hh
  have hnone : ∀ k, k.origin = lsa.key.origin → db'.db.get k = none := by
    intro k hk
    cases hh with
    | ignored hi =>
      obtain ⟨r', hr', hle⟩ := hi.resolve_left ho
      rw [hr] at hr'
      cases hr'
      exact absurd hlt (Nat.not_lt.mpr hle)
    | unknownDeath _ _ hn =>
      rw [hr] at hn
      cases hn
    | died _ _ r' hr' _ =>
      rw [hr] at hr'
      cases hr'
      simp only [withoutDead, hb, HashMap.get_retain]
      cases db.db.get k <;> simp [Option.filter, hk]
    | stored _ hd =>
      rw [hdead] at hd
      cases hd
  refine ⟨hnone, fun e hhas => ?_⟩
  obtain ⟨route, hroute, hv⟩ := hhas
  have hmatch := hafter.routes e lsa.key.origin (hh.frame.1.symm ▸ ho)
  rw [hnone ⟨lsa.key.origin, e⟩ rfl] at hmatch
  have hmem : route ∈ db'.routes.remotesOf e lsa.key.origin :=
    List.mem_filter.mpr ⟨hroute, by simp [LsRoute.isRemoteOf, hv]⟩
  rw [hmatch] at hmem
  cases hmem

end LsDb

/-- The advertisement of a unicast endpoint by node 2. -/
def unicastOfTwo : Lsa := ⟨⟨2, 5⟩, 0, false, .endpoint ⟨.unicast, .global, ⟨3, by decide⟩⟩⟩

/-- After its advertisement a unicast endpoint has one route, at the advertised cost. -/
theorem routes_agree_after_advertisement :
    ∃ db, LsDb.Runs (fun db _ now op => db.UsesKinds (fun _ => .unicast) now op) 1 db ∧
      LsDb.RouteMatches (db.db.get ⟨2, 5⟩) (db.routes.remotesOf 5 2) ∧
      db.db.get ⟨2, 5⟩ = some ⟨unicastOfTwo, 0⟩ ∧
      db.routes.remotesOf 5 2 = [⟨.remote 2, ⟨3, by decide⟩, .global, .unicast⟩] := by
  have h₀ : LsDb.Runs (fun db _ now op => db.UsesKinds (fun _ => .unicast) now op) 1 (LsDb.new 1 0) :=
    .new 0
  have huses : (LsDb.new 1 0).UsesKinds (fun _ => .unicast) 0 (.handleLsa unicastOfTwo 1) := by
    intro _ _
    refine ⟨fun info hi => ?_, fun adjs hb => ?_, fun _ => ⟨?_, fun origin _ ho => ?_⟩⟩
    · cases hi
      rfl
    · cases hb
    · rintro ⟨route, hroute, _⟩
      cases hroute
    · exact (HashMap.get_insert _ _ _ _).trans (if_neg fun hk => ho (LsaKey.mk.inj hk).1)
  have h₁ := h₀.step (.idle 32) 0 (.handleLsa unicastOfTwo 1) huses rfl
  exact ⟨_, h₁, (LsDb.routes_agree _ 1 _ h₁).1 5 2 (by decide), by decide +kernel, by decide +kernel⟩

end Anybus
