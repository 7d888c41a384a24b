import Anybus.Db.Advances

/-!
# Advertised endpoints and served endpoints

A node should advertise an endpoint exactly while it has a listener for it. The
route table decides about the withdrawal by whether any route is left, remote ones
included, so closing the last listener of an endpoint that another node also
advertises leaves a stale record behind. Without such a step the two agree in every
reachable state.
-/

namespace Anybus

namespace LsDb

/-- An endpoint other than the node itself is advertised exactly if it has a listener. -/
def AdvertisesServed (db : LsDb) : Prop :=
  ∀ e, e ≠ db.selfId → ((∃ r, db.db.get ⟨db.selfId, e⟩ = some r) ↔ db.routes.HasLocal e)

/-- All listeners of an endpoint are gone, there were some, and another node advertises
the endpoint too. -/
def StaleWithdrawal (db : LsDb) (w : Wires) (e : EndpointId) : Prop :=
  db.routes.HasLocal e ∧
    (∀ r ∈ db.routes.routesOf e, ∀ s, r.via = .loc s → (w.client s).closed = true) ∧
      ∃ origin, db.routes.HasRemote e origin

/-- Neither the advertised nor the served endpoints change. -/
structure Stays (db db' : LsDb) : Prop where
  self_eq : db'.selfId = db.selfId
  records : ∀ e, e ≠ db.selfId → ((∃ r, db'.db.get ⟨db.selfId, e⟩ = some r) ↔
    ∃ r, db.db.get ⟨db.selfId, e⟩ = some r)
  locals : ∀ e, db'.routes.HasLocal e ↔ db.routes.HasLocal e

theorem AdvertisesServed.stays {db db' : LsDb} (h : db.AdvertisesServed) (hs : Stays db db') :
    db'.AdvertisesServed := by
  intro e he
  rw [hs.self_eq] at he ⊢
  rw [hs.records e he, hs.locals e]
  exact h e he

section Stays

variable {db db' : LsDb} {w w' : Wires} {now : Instant}

theorem Stays.of_eq (hself : db'.selfId = db.selfId) (hdb : db'.db = db.db)
    (hroutes : db'.routes = db.routes) : Stays db db' :=
  ⟨hself, fun _ _ => by rw [hdb], fun _ => by rw [hroutes]⟩

theorem Stays.trans {db'' : LsDb} (h : Stays db db') (h' : Stays db' db'') : Stays db db'' := by
  refine ⟨h'.self_eq.trans h.self_eq, fun e he => ?_, fun e => (h'.locals e).trans (h.locals e)⟩
  have hrec := h'.records e (h.self_eq.symm ▸ he)
  rw [h.self_eq] at hrec
  exact hrec.trans (h.records e he)

/-- Writing the own router record does not concern endpoints. -/
theorem Stays.of_selfKey {r : LsaRecord} (hself : db'.selfId = db.selfId)
    (hdb : db'.db = db.db.insert db.selfKey r) (hroutes : db'.routes = db.routes) : Stays db db' := by
  refine ⟨hself, fun e he => ?_, fun _ => by rw [hroutes]⟩
  rw [hdb, HashMap.get_insert, if_neg]
  intro heq
  exact he (LsaKey.mk.inj heq).2

/-- Writing over a present record keeps it present. -/
theorem Stays.of_overwrite {k : LsaKey} {r r' : LsaRecord} (hself : db'.selfId = db.selfId)
    (hr : db.db.get k = some r) (hdb : db'.db = db.db.insert k r') (hroutes : db'.routes = db.routes) :
    Stays db db' := by
  refine ⟨hself, fun e _ => ?_, fun _ => by rw [hroutes]⟩
  rw [hdb, HashMap.get_insert]
  split
  · next heq => simp [heq, hr]
  · rfl

theorem updateEndpointCost_stays (db : LsDb) (w : Wires) (e : EndpointId) (cost : Cost)
    (now : Instant) : Stays db (db.updateEndpointCost w e cost now).1 := by
  unfold updateEndpointCost
  simp only
  split
  · next record hr =>
    split
    · split
      · exact .of_eq rfl rfl rfl
      · exact .of_overwrite rfl hr rfl rfl
    · exact .of_eq rfl rfl rfl
  · exact .of_eq rfl rfl rfl

theorem addPeer_stays (db : LsDb) (w : Wires) (link : Link) (now : Instant) :
    Stays db (db.addPeer w link now).1 := by
  rcases addPeer_cases db w link now with ⟨_, _, heq⟩ | ⟨adjs, _, heq⟩
  · rw [heq]
    exact .of_eq rfl rfl rfl
  · rw [heq]
    exact .of_selfKey (r := ⟨db.advertised adjs link now, now⟩) rfl rfl rfl

theorem computeSpf_stays {root : NodeId} (h : db.computeSpf root = some db') : Stays db db' := by
  obtain ⟨s, _, rfl⟩ := computeSpf_eq_some_iff.mp h
  exact .of_eq rfl rfl rfl

theorem dropAdjacency_stays (db : LsDb) (w : Wires) (c : ConnectionId) (now : Instant) :
    Stays db (db.dropAdjacency w c now).1 := by
  unfold dropAdjacency
  split
  · split
    · simp only
      split
      · exact .of_selfKey rfl rfl rfl
      · exact .of_eq rfl rfl rfl
    · exact .of_eq rfl rfl rfl
  · exact .of_eq rfl rfl rfl

theorem removePeer_stays {c : ConnectionId} (h : db.removePeer w c now = some (db', w')) :
    Stays db db' := by
  unfold removePeer at h
  cases hc : db.links.get c with
  | none =>
    simp only [hc, Option.some.injEq, Prod.mk.injEq] at h
    exact .of_eq (by rw [h.1]) (by rw [h.1]) (by rw [h.1])
  | some link =>
    simp only [hc] at h
    split at h
    · next d hspf =>
      simp only [Option.some.injEq, Prod.mk.injEq] at h
      obtain ⟨rfl, _⟩ := h
      have hdrop := dropAdjacency_stays { db with links := db.links.erase c } w c now
      have herase : Stays db { db with links := db.links.erase c } := .of_eq rfl rfl rfl
      exact (herase.trans hdrop).trans (computeSpf_stays hspf)
    · cases h

theorem Handled.stays {lsa : Lsa} {c : ConnectionId} (h : Handled db w lsa c now db' w') :
    Stays db db' := by
  obtain ⟨hself, _, hown⟩ := h.frame
  refine ⟨hself, fun e _ => by rw [hown _ rfl], fun e => ?_⟩
  rw [← not_iff_not, ← RouteTable.localsOf_eq_nil_iff, ← RouteTable.localsOf_eq_nil_iff, h.localsOf e]

/-- The timer refreshes own records and never purges them. -/
theorem tick_stays {b : Bool} (hok : db.Ok) (h : db.tick w now = some (db', w', b)) :
    Stays db db' := by
  have hrest : ∀ {d : LsDb} {v : Wires}, Stays db d →
      (if d.rebuildRequested.isSome then some ({ d with rebuildRequested := none }, v, true)
        else some (d, v, false)) = some (db', w', b) → Stays db db' := by
    intro d v hd heq
    split at heq
    · simp only [Option.some.injEq, Prod.mk.injEq] at heq
      obtain ⟨rfl, _⟩ := heq
      exact hd.trans (.of_eq rfl rfl rfl)
    · simp only [Option.some.injEq, Prod.mk.injEq] at heq
      obtain ⟨rfl, _⟩ := heq
      exact hd
  unfold tick at h
  simp only at h
  by_cases hdue : db.lastRefresh + db.lsaTimeout / 3 < now
  · rw [if_pos hdue] at h
    cases hr : ({ db with lastTick := now } : LsDb).refreshAndPurgeLsas w now with
    | none => simp [hr] at h
    | some r =>
      obtain ⟨d, v⟩ := r
      simp only [hr] at h
      have hok' : ({ db with lastTick := now } : LsDb).Ok := ⟨hok.record_key, hok.link_id⟩
      obtain ⟨⟨hself, _, hroutes⟩, _, _, hown⟩ := refreshAndPurgeLsas_spec hok' hr
      refine hrest ⟨hself, fun e _ => ?_, fun _ => by rw [hroutes]⟩ h
      rw [hown _ rfl]
      simp [refreshAll]
  · rw [if_neg hdue] at h
    exact hrest (d := { db with lastTick := now }) (.of_eq rfl rfl rfl) h

theorem changeAnycastCost_stays (db : LsDb) (w : Wires) (e : EndpointId) (sender : Sender)
    (cost : Cost) (now : Instant) : Stays db (db.changeAnycastCost w e sender cost now).1 := by
  unfold changeAnycastCost setAnycastCost
  cases hset : db.routes.setAnycastCost e sender cost with
  | error err => exact .of_eq rfl rfl rfl
  | ok p =>
    obtain ⟨routes, outcome⟩ := p
    have hkeep : Stays db { db with routes := routes } := by
      refine ⟨rfl, fun _ _ => Iff.rfl, fun e' => ?_⟩
      rw [RouteTable.hasLocal_iff_mem, RouteTable.hasLocal_iff_mem,
        RouteTable.setAnycastCost_via hset]
    cases outcome with
    | unchanged => exact hkeep
    | changed previous new advertise =>
      cases advertise with
      | none => exact hkeep
      | some minCost => exact hkeep.trans (updateEndpointCost_stays _ w e minCost now)

end Stays

section Local

variable {db : LsDb} (h : db.AdvertisesServed) (w : Wires) (now : Instant)
include h

/-- A registration advertises the endpoint with its first listener. -/
theorem AdvertisesServed.addEndpoint (request : RegistrationRequest) :
    (db.addEndpoint w request now).1.AdvertisesServed := by
  unfold LsDb.addEndpoint
  cases hadd : db.routes.addEndpoint request.endpointId request.endpointInfo request.sender with
  | error err => exact h
  | ok p =>
    obtain ⟨t, effect⟩ := p
    rcases RouteTable.addEndpoint_cases hadd with ⟨rfl, hlocal⟩ | ⟨hlocal, hcase⟩
    · exact h.stays ⟨rfl, fun _ _ => Iff.rfl, hlocal⟩
    · rcases hcase with ⟨rfl, _⟩ | ⟨heff, hhas⟩
      · intro e he
        change (∃ r, HashMap.get (db.db.insert ⟨db.selfId, request.endpointId⟩ _) ⟨db.selfId, e⟩ =
          some r) ↔ t.HasLocal e
        rw [hlocal, HashMap.get_insert]
        by_cases heq : e = request.endpointId
        · simp [heq]
        · rw [if_neg fun hk => heq (LsaKey.mk.inj hk).2, h e he]
          simp [heq]
      · -- The endpoint already had a listener, so its record is there.
        have hkeep : Stays db { db with routes := t } := by
          refine ⟨rfl, fun _ _ => Iff.rfl, fun e => (hlocal e).trans ⟨?_, Or.inr⟩⟩
          rintro (rfl | he)
          · exact hhas
          · exact he
        rcases heff with rfl | rfl
        · exact h.stays (hkeep.trans (.of_eq rfl rfl rfl))
        · exact h.stays (hkeep.trans (updateEndpointCost_stays _ w _ _ now))

/-- Dropping closed listeners withdraws the endpoint with the last route. -/
theorem AdvertisesServed.removeEndpoint {e : EndpointId} (hstale : ¬ db.StaleWithdrawal w e) :
    (db.removeEndpoint w e now).1.AdvertisesServed := by
  rcases db.routes.removeEndpoint_cases w e with ⟨_, heq⟩ | ⟨hroutes, hcase⟩
  · unfold LsDb.removeEndpoint
    simp only [heq]
    exact h.stays (.of_eq rfl rfl rfl)
  have hother : ∀ e', e' ≠ e → ((db.routes.removeEndpoint w e).1.HasLocal e' ↔
      db.routes.HasLocal e') := by
    intro e' hne
    unfold RouteTable.HasLocal
    rw [hroutes, if_neg hne]
  rcases hcase with ⟨heff, hnil⟩ | ⟨heff, hne⟩
  · have hgone : ¬ (db.routes.removeEndpoint w e).1.HasLocal e := by
      unfold RouteTable.HasLocal
      rw [hroutes, if_pos rfl, hnil]
      simp
    have hafter : ∀ d : LsDb, d.selfId = db.selfId → d.routes = (db.routes.removeEndpoint w e).1 →
        d.db.get ⟨db.selfId, e⟩ = none →
        (∀ e', e' ≠ e → d.db.get ⟨db.selfId, e'⟩ = db.db.get ⟨db.selfId, e'⟩) →
        d.AdvertisesServed := by
      intro d hself hr hnone hrest e' he'
      rw [hself] at he' ⊢
      rw [hr]
      by_cases heq : e' = e
      · subst heq
        simp [hnone, hgone]
      · rw [hrest e' heq, hother e' heq]
        exact h e' he'
    unfold LsDb.removeEndpoint
    simp only [heff, requestRebuild]
    cases hrec : db.db.get ⟨db.selfId, e⟩ with
    | none => exact hafter _ rfl rfl hrec fun _ _ => rfl
    | some record =>
      refine hafter _ rfl rfl ?_ fun e' hne' => ?_
      · simp
      · simp [hne']
  · -- A listener survives, or there was none: otherwise only remote routes are left.
    have hkeep : (db.routes.removeEndpoint w e).1.HasLocal e ↔ db.routes.HasLocal e := by
      unfold RouteTable.HasLocal
      rw [hroutes, if_pos rfl]
      constructor
      · rintro ⟨r, hr, hl⟩
        exact ⟨r, (List.mem_filter.mp hr).1, hl⟩
      · intro hhas
        by_contra hnone
        refine hstale ⟨hhas, fun r hr s hv => ?_, ?_⟩
        · by_contra hopen
          refine hnone ⟨r, List.mem_filter.mpr ⟨hr, ?_⟩, by rw [hv]; rfl⟩
          simp only [LsRoute.staysOpen, hv]
          simpa using hopen
        · obtain ⟨r, hr⟩ := List.exists_mem_of_ne_nil _ hne
          cases hv : r.via with
          | loc s => exact absurd ⟨r, hr, by rw [hv]; rfl⟩ hnone
          | remote o => exact ⟨o, r, (List.mem_filter.mp hr).1, hv⟩
    have hstays : Stays db (({ db with routes := (db.routes.removeEndpoint w e).1 } :
        LsDb).requestRebuild now) := by
      refine ⟨rfl, fun _ _ => Iff.rfl, fun e' => ?_⟩
      by_cases heq : e' = e
      · rw [heq]
        exact hkeep
      · exact hother e' heq
    unfold LsDb.removeEndpoint
    rcases heff with heff | heff | ⟨c, heff⟩
    · simp only [heff]
      exact h.stays hstays
    · simp only [heff]
      exact h.stays hstays
    · simp only [heff]
      exact h.stays (hstays.trans (updateEndpointCost_stays _ w e c now))

end Local

/-- Every operation but a shutdown and a stale withdrawal keeps advertised and served endpoints
in agreement. -/
theorem AdvertisesServed.step {db db' : LsDb} {w w' : Wires} {now : Instant} {op : Op}
    (h : db.AdvertisesServed) (hok : db.Ok) (hshut : op ≠ .shutdown)
    (hstale : ∀ e, op = .removeEndpoint e → ¬ db.StaleWithdrawal w e)
    (hstep : db.step w now op = some (db', w')) : db'.AdvertisesServed := by
  cases op with
  | addEndpoint request =>
    obtain ⟨rfl, _⟩ := Prod.mk.inj (Option.some.inj hstep)
    exact h.addEndpoint w now request
  | removeEndpoint e =>
    have hres := h.removeEndpoint w now (hstale e rfl)
    rwa [Option.some.inj hstep] at hres
  | setAnycastCost e sender cost =>
    have hres := changeAnycastCost_stays db w e sender cost now
    rw [Option.some.inj hstep] at hres
    exact h.stays hres
  | addPeer link =>
    have hres := addPeer_stays db w link now
    rw [Option.some.inj hstep] at hres
    exact h.stays hres
  | removePeer c => exact h.stays (removePeer_stays hstep)
  | handleLsa lsa c => exact h.stays (handleLsa_handled hstep).stays
  | handleAck c key seq =>
    obtain ⟨rfl, _⟩ := Prod.mk.inj (Option.some.inj hstep)
    obtain ⟨p, hp⟩ := handleAck_frame db c key seq
    rw [hp]
    exact h.stays (.of_eq rfl rfl rfl)
  | tick =>
    obtain ⟨⟨d, v, b⟩, htick, heq⟩ := Option.map_eq_some_iff.mp hstep
    cases heq
    exact h.stays (tick_stays hok htick)
  | buildFib =>
    obtain ⟨⟨d, fib⟩, hfib, heq⟩ := Option.map_eq_some_iff.mp hstep
    cases heq
    obtain ⟨s, _, rfl, _⟩ := buildFib_eq_some_iff.mp hfib
    exact h.stays (.of_eq rfl rfl rfl)
  | shutdown => exact absurd rfl hshut

theorem AdvertisesServed.rehash {db db' : LsDb} (h : db.AdvertisesServed) (hre : Rehash db db') :
    db'.AdvertisesServed := by
  refine h.stays ⟨hre.selfId, fun e _ => ?_, fun e => ?_⟩
  · rw [hre.get_record]
  · simp only [RouteTable.HasLocal, RouteTable.routesOf, hre.get_route]

theorem AdvertisesServed.new (selfId : NodeId) (now : Instant) : (new selfId now).AdvertisesServed := by
  intro e he
  change e ≠ selfId at he
  simp [LsDb.new, he, RouteTable.HasLocal, RouteTable.routesOf, RouteTable.new]

/-- In a run without shutdown and without a stale withdrawal, a node advertises exactly
the endpoints it serves. -/
theorem advertises_exactly_served (selfId : NodeId) (db : LsDb) (log : Log)
    (h : Reaches (fun db w op => op ≠ .shutdown ∧
      ∀ e, op = .removeEndpoint e → ¬ db.StaleWithdrawal w e) selfId db log)
    (e : EndpointId) (he : e ≠ selfId) :
    (∃ r, db.db.get ⟨selfId, e⟩ = some r) ↔ db.routes.HasLocal e := by
  suffices hinv : db.selfId = selfId ∧ db.Ok ∧ db.AdvertisesServed by
    obtain ⟨rfl, _, hserved⟩ := hinv
    exact hserved e he
  clear he
  induction h with
  | new now => exact ⟨rfl, Ok.new selfId now, .new selfId now⟩
  | rehash _ hre ih =>
    obtain ⟨hself, hok, hserved⟩ := ih
    exact ⟨hre.selfId.trans hself, hok.rehash hre, hserved.rehash hre⟩
  | step now op _ hallowed hstep ih =>
    obtain ⟨hself, hok, hserved⟩ := ih
    have hadv := step_advances hok hstep
    exact ⟨hadv.self_eq.trans hself, hadv.ok, hserved.step hok hallowed.1 hallowed.2 hstep⟩

end LsDb

/-- A listener of node 1 on the anycast endpoint that node 2 also has. -/
def anycastFive : RegistrationRequest := ⟨5, ⟨.anycast, .global, 0⟩, 7⟩

/-- Closing the last listener while another node advertises the endpoint leaves the
record behind. -/
theorem advertises_without_serving :
    ¬ ∀ (selfId : NodeId) (db : LsDb) (log : Log),
      LsDb.Reaches (fun _ _ op => op ≠ .shutdown) selfId db log → ∀ e, e ≠ selfId →
        ((∃ r, db.db.get ⟨selfId, e⟩ = some r) ↔ db.routes.HasLocal e) := by
  intro h
  have hbad : ((LsDb.new 1 0).run [] [.at false (.addEndpoint anycastFive),
      .at false (.handleLsa (versionOf 0 false) 0), .at true (.removeEndpoint 5)]).map
        (fun r => ((r.1.db.get ⟨1, 5⟩).isSome,
          (r.1.routes.routesOf 5).any fun route => route.via.isLocal)) = some (true, false) := by
    decide +kernel
  obtain ⟨⟨db, log⟩, hrun, heq⟩ := Option.map_eq_some_iff.mp hbad
  obtain ⟨hrec, hnone⟩ := Prod.mk.inj heq
  have hreach : LsDb.Reaches (fun _ _ op => op ≠ .shutdown) 1 db log :=
    LsDb.reaches_of_run (.new 0) (by simp [LsDb.Action.at]) hrun
  obtain ⟨r, hr, hl⟩ := (h 1 db log hreach 5 (by decide)).mp (Option.isSome_iff_exists.mp hrec)
  have hlocal := List.any_eq_false.mp hnone r hr
  exact hlocal hl

/-- A node with one listener advertises its endpoint. -/
theorem advertises_one_listener :
    ∃ db log, LsDb.Reaches (fun db w op => op ≠ .shutdown ∧
        ∀ e, op = .removeEndpoint e → ¬ db.StaleWithdrawal w e) 1 db log ∧
      ((∃ r, db.db.get ⟨1, 5⟩ = some r) ↔ db.routes.HasLocal 5) ∧ db.routes.HasLocal 5 := by
  have h₀ : LsDb.Reaches (fun db w op => op ≠ .shutdown ∧
      ∀ e, op = .removeEndpoint e → ¬ db.StaleWithdrawal w e) 1 (LsDb.new 1 0)
        (Wires.idle 32).handed := .new 0
  have h₁ := h₀.step 0 (.addEndpoint anycastFive)
    ⟨by simp, fun _ heq => by cases heq⟩ rfl
  refine ⟨_, _, h₁, LsDb.advertises_exactly_served 1 _ _ h₁ 5 (by decide), ?_⟩
  exact ⟨⟨.loc 7, 0, .global, .anycast⟩, by decide, rfl⟩

end Anybus
