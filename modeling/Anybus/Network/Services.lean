import Anybus.Db.Advertise
import Anybus.Db.RemoteRoutes
import Anybus.Network.Changes

/-!
# Where services are known

A node advertises what it serves, LSAs reach every node, and the routes of a node to others
follow the LSAs it holds. Together: in a network at rest in which listeners come and go, every
node has a route to a service exactly while it is served, with the cost, the realm and the kind
that its own node advertises.
-/

namespace Anybus

namespace LsDb

section Settle

variable {kindOf : EndpointId → RouteKind} {db db' : LsDb}

/-- Which routes match a record does not depend on when it was stored. -/
theorem RouteMatches.congr {r r' : Option LsaRecord} {routes : List LsRoute} (h : RouteMatches r routes)
    (heq : r'.map LsaRecord.lsa = r.map LsaRecord.lsa) : RouteMatches r' routes := by
  cases r with
  | none =>
    cases r' with
    | none => exact h
    | some x => cases heq
  | some y =>
    cases r' with
    | none => cases heq
    | some x =>
      obtain ⟨route, hroutes, hinfo⟩ := h
      refine ⟨route, hroutes, fun info hb => hinfo info ?_⟩
      rw [← Option.some.inj heq]
      exact hb

/-- There is a route exactly if there is a record. -/
theorem RouteMatches.exists_iff {r : Option LsaRecord} {routes : List LsRoute} (h : RouteMatches r routes) :
    (∃ route, routes = [route]) ↔ ∃ x, r = some x := by
  cases r with
  | none =>
    obtain rfl : routes = [] := h
    simp
  | some x =>
    obtain ⟨route, hroutes, -⟩ := h
    exact ⟨fun _ => ⟨x, rfl⟩, fun _ => ⟨route, hroutes⟩⟩

/-- A node that settles keeps its routes in step with its records. -/
theorem Agrees.settles (h : Agrees kindOf db) (hs : Settles db db') : Agrees kindOf db' := by
  induction hs with
  | refl => exact h
  | rehash _ hre ih => exact ih.rehash hre
  | buildFib _ hfib ih =>
    obtain ⟨s, -, rfl, -⟩ := buildFib_eq_some_iff.mp hfib
    exact ih.of_frame rfl (fun _ _ => rfl) (fun _ _ => rfl) fun _ _ hk => .inl hk

/-- It still advertises what it serves. -/
theorem AdvertisesServed.settles (h : db.AdvertisesServed) (hs : Settles db db') :
    db'.AdvertisesServed := by
  induction hs with
  | refl => exact h
  | rehash _ hre ih => exact ih.rehash hre
  | buildFib _ hfib ih =>
    obtain ⟨s, -, rfl, -⟩ := buildFib_eq_some_iff.mp hfib
    exact ih.stays (.of_eq rfl rfl rfl)

end Settle

end LsDb

namespace Net

variable {ι : Type*} [DecidableEq ι]

/-- The runs of a network at rest in which moreover every endpoint id has one kind, a unicast
endpoint has one advertiser, and the node of the service does not lose its last listener of
an endpoint that another node serves too. -/
inductive Services (kindOf : EndpointId → RouteKind) (wire : Wiring ι) (o : ι) (e : EndpointId)
    (s₀ : Net ι) : Net ι → Prop where
  | start : Services kindOf wire o e s₀ s₀
  | act {s s₁ : Net ι} {db' : LsDb} {w w' : Wires} (now : Instant) (i : ι) (op : Op)
      (h : Services kindOf wire o e s₀ s) (ha : s.Happens i op s₁)
      (hturn : i = o → op.endpoint = some e → s.InTurn o e op)
      (huses : (s.db i).UsesKinds kindOf now op)
      (hstale : i = o → ∀ e', op = .removeEndpoint e' → ¬ (s.db i).StaleWithdrawal w e')
      (hw : w.Drained) (hstep : (s.db i).step w now op = some (db', w'))
      (hroom : (s.db i).NeverFull db' w w') :
      Services kindOf wire o e s₀ (s₁.post wire i (db', w'))
  | settle {s s' : Net ι} (i : ι) (h : Services kindOf wire o e s₀ s) (hs : SettlesAt i s s') :
      Services kindOf wire o e s₀ s'

section Services

variable {kindOf : EndpointId → RouteKind} {wire : Wiring ι} {o : ι} {e : EndpointId}
  {fib : ι → ForwardingTable} {s₀ s s₁ : Net ι}

theorem Services.changes (h : Services kindOf wire o e s₀ s) : Changes wire o e s₀ s := by
  induction h with
  | start => exact .start
  | act now i op _ ha hturn _ _ hw hstep hroom ih => exact .act now i op ih ha hturn hw hstep hroom
  | settle i _ hs ih => exact .settle i ih hs

theorem Services.carryOut {i : ι} {op : Op} {w : Wires} (h : Services kindOf wire o e s₀ s)
    (ha : s.Happens i op s₁) (hturn : i = o → op.endpoint = some e → s.InTurn o e op)
    (huses : (s.db i).UsesKinds kindOf 0 op)
    (hstale : i = o → ∀ e', op = .removeEndpoint e' → ¬ (s.db i).StaleWithdrawal w e')
    (hw : w.Drained) (hroom : s.HasRoom w i op) :
    Services kindOf wire o e s₀ (s₁.post wire i (s.carriedOut w i op)) := by
  obtain ⟨db', w', hout, hstep, hfree⟩ := hroom.step
  rw [hout]
  exact .act 0 i op h ha hturn huses hstale hw hstep hfree

/-- All nodes keep their routes in step with their records. -/
theorem Services.agrees (h : Services kindOf wire o e s₀ s) (hagrees : ∀ i, (s₀.db i).Agrees kindOf) :
    ∀ i, (s.db i).Agrees kindOf := by
  induction h with
  | start => exact hagrees
  | act now i op _ ha _ huses _ _ hstep _ ih =>
    exact ha.forall_post (p := fun _ d => d.Agrees kindOf) ((ih i).step huses hstep) ih
  | settle i _ hs ih =>
    obtain ⟨d, hsettles, rfl⟩ := hs
    exact (Function.forall_update_iff _ fun _ d => LsDb.Agrees kindOf d).mpr
      ⟨(ih i).settles hsettles, fun j _ => ih j⟩

/-- The node of the service advertises what it serves. -/
theorem Services.advertises (h : Services kindOf wire o e s₀ s) (start : AllKnow wire o e fib s₀)
    (hserved : (s₀.db o).AdvertisesServed) : (s.db o).AdvertisesServed := by
  induction h with
  | start => exact hserved
  | act now i op h ha _ _ hstale _ hstep _ ih =>
    have hok := (h.changes.phase start).1.ok
    have hshut : op ≠ .shutdown := by
      rintro rfl
      cases ha with
      | change hop => cases hop
    refine ha.forall_post (p := fun j d => j = o → d.AdvertisesServed) (fun hi => ?_) (fun j hj => ?_) o rfl
    · subst hi
      exact ih.step (hok i) hshut (hstale rfl) hstep
    · rw [hj]
      exact ih
  | settle i _ hs ih =>
    obtain ⟨d, hsettles, rfl⟩ := hs
    refine (Function.forall_update_iff _ fun j d => j = o → LsDb.AdvertisesServed d).mpr
      ⟨fun hi => ?_, fun j _ hj => ?_⟩ o rfl
    · subst hi
      exact ih.settles hsettles
    · rw [hj]
      exact ih

/-- Whenever nothing of a service is on its way, every other node has one route to it, which is
what its own node advertises, if the node serves it, and none if it does not. -/
theorem known_where_served (start : AllKnow wire o e fib s₀) (hagrees : ∀ i, (s₀.db i).Agrees kindOf)
    (hserved : (s₀.db o).AdvertisesServed) (h : Services kindOf wire o e s₀ s)
    (hq : s.Quiet ⟨(s.db o).selfId, e⟩) (i : ι) (hi : i ≠ o) :
    LsDb.RouteMatches ((s.db o).db.get ⟨(s.db o).selfId, e⟩)
        ((s.db i).routes.remotesOf e (s.db o).selfId) ∧
      ((∃ route, (s.db i).routes.remotesOf e (s.db o).selfId = [route]) ↔
        (s.db o).routes.HasLocal e) := by
  obtain ⟨hsteady, hphase⟩ := h.changes.phase start
  have hself : ∀ j, (s.db j).selfId = (s₀.db j).selfId := fun j => (hsteady.alike j).self
  rw [hself o] at hq
  obtain ⟨l, hagreed, -⟩ := hphase.settled start hsteady hq
  have hne : (s.db o).selfId ≠ (s.db i).selfId := by
    rw [hself, hself]
    exact fun heq => hi (start.ids heq.symm)
  have hmatch : LsDb.RouteMatches ((s.db o).db.get ⟨(s.db o).selfId, e⟩)
      ((s.db i).routes.remotesOf e (s.db o).selfId) := by
    refine ((h.agrees hagrees i).routes e _ hne).congr ?_
    rw [hself o]
    exact (hagreed.same o).trans (hagreed.same i).symm
  refine ⟨hmatch, hmatch.exists_iff.trans (h.advertises start hserved e ?_)⟩
  rw [hself o]
  exact start.other

end Services

end Net

/-- Endpoint 9 is unicast, the others stand for nodes. -/
def squareKind (e : EndpointId) : RouteKind := if e = 9 then .unicast else .node

/-- Every route of a corner is that to the listener at node 4, or follows a record of another
corner. -/
theorem squareRoutes_cases {i : Fin 4} {e : EndpointId} {entry : LsRouteEntry}
    (h : (squareDb i).routes.table.get e = some entry) : entry.kind = squareKind e ∧
      ∀ r ∈ entry.routes, r.kind = squareKind e ∧ ((r.via = .loc 7 ∧ i = 3 ∧ e = 9) ∨
        ∃ origin, (∃ x, squareLsas.get ⟨origin, e⟩ = some x) ∧ r.via = .remote origin ∧
          origin ≠ squareId i) := by
  have hall : ∀ i, ∀ x ∈ (squareRoutes i).entries, x.2.kind = squareKind x.1 ∧
      ∀ r ∈ x.2.routes, r.kind = squareKind x.1 ∧ ((r.via = .loc 7 ∧ i = 3 ∧ x.1 = 9) ∨
        ∃ y ∈ squareLsas.entries, y.1.endpointId = x.1 ∧ r.via = .remote y.1.origin ∧
          y.1.origin ≠ squareId i) := by
    decide +kernel
  obtain ⟨hkind, hroutes⟩ := hall i ⟨e, entry⟩ (HashMap.mem_entries_iff.mpr h)
  refine ⟨hkind, fun r hr => ?_⟩
  obtain ⟨hrk, hloc | ⟨⟨⟨origin, e'⟩, x⟩, hy, rfl, hvia, hne⟩⟩ := hroutes r hr
  · exact ⟨hrk, .inl hloc⟩
  · exact ⟨hrk, .inr ⟨origin, ⟨x, HashMap.mem_entries_iff.mp hy⟩, hvia, hne⟩⟩

theorem squareRoutes_remote {i : Fin 4} {e : EndpointId} {origin : NodeId} {r : LsRoute}
    (h : r ∈ (squareDb i).routes.remotesOf e origin) : r.kind = squareKind e ∧
      (∃ x, squareLsas.get ⟨origin, e⟩ = some x) ∧ origin ≠ squareId i := by
  obtain ⟨hmem, hremote⟩ := List.mem_filter.mp h
  unfold RouteTable.routesOf at hmem
  cases he : (squareDb i).routes.table.get e with
  | none =>
    rw [he] at hmem
    cases hmem
  | some entry =>
    rw [he] at hmem
    obtain ⟨hkind, ⟨hvia, -⟩ | ⟨origin', hx, hvia, hne⟩⟩ := (squareRoutes_cases he).2 r hmem
    · simp [LsRoute.isRemoteOf, hvia] at hremote
    · obtain rfl : origin' = origin := by simpa [LsRoute.isRemoteOf, hvia] using hremote
      exact ⟨hkind, hx, hne⟩

/-- Every corner has the routes that its records ask for. -/
theorem square_agrees (i : Fin 4) : (squareDb i).Agrees squareKind where
  routes e origin ho := by
    have hall : ∀ i, ∀ x ∈ squareLsas.entries, x.1.origin ≠ squareId i →
        (squareDb i).routes.remotesOf x.1.endpointId x.1.origin =
          [⟨.remote x.1.origin, 0, .global, squareKind x.1.endpointId⟩] := by
      decide +kernel
    cases hx : (squareDb i).db.get ⟨origin, e⟩ with
    | none =>
      refine List.eq_nil_iff_forall_not_mem.mpr fun r hr => ?_
      obtain ⟨-, ⟨x, hsome⟩, -⟩ := squareRoutes_remote hr
      cases hsome.symm.trans hx
    | some x =>
      refine ⟨_, hall i ⟨⟨origin, e⟩, x⟩ (HashMap.mem_entries_iff.mpr hx) ho, fun info hb => ?_⟩
      rcases mem_squareLsas hx with rfl | ⟨j, -, rfl⟩
      · obtain rfl := LsaBody.endpoint.inj hb
        obtain ⟨rfl, rfl⟩ := LsaKey.mk.inj ((squareNet_allKnow.ok i).record_key _ _ hx)
        exact ⟨rfl, rfl, rfl⟩
      · cases hb
  no_self e := by
    refine List.eq_nil_iff_forall_not_mem.mpr fun r hr => ?_
    exact (squareRoutes_remote hr).2.2 rfl
  entry_kind e k hk := by
    obtain ⟨entry, hentry, rfl⟩ := Option.map_eq_some_iff.mp hk
    exact (squareRoutes_cases hentry).1
  route_kind e origin r hr := (squareRoutes_remote hr).1

/-- Node 4 advertises what it serves. -/
theorem square_advertises : (squareDb 3).AdvertisesServed := by
  intro e he
  constructor
  · rintro ⟨x, hx⟩
    rcases mem_squareLsas hx with rfl | ⟨j, hk, -⟩
    · obtain ⟨-, rfl⟩ := LsaKey.mk.inj ((squareNet_allKnow.ok 3).record_key _ _ hx)
      exact ⟨⟨.loc 7, 0, .global, .unicast⟩, by decide +kernel, rfl⟩
    · obtain ⟨hj, rfl⟩ := LsaKey.mk.inj hk
      exact absurd hj.symm he
  · rintro ⟨r, hr, hlocal⟩
    unfold RouteTable.routesOf at hr
    cases hentry : (squareDb 3).routes.table.get e with
    | none =>
      rw [hentry] at hr
      cases hr
    | some entry =>
      rw [hentry] at hr
      obtain ⟨-, ⟨-, -, rfl⟩ | ⟨origin, -, hvia, -⟩⟩ := (squareRoutes_cases hentry).2 r hr
      · exact ⟨squareEndpoint, by decide +kernel⟩
      · rw [hvia] at hlocal
        cases hlocal

theorem squareGone_services : Net.Services squareKind squareWire 3 9 squareNet squareGone := by
  refine squareGone_induct ?_ fun s i c h hmem hroom => ?_
  · refine Net.Services.start.carryOut (.change rfl (by decide)) (fun _ _ => squareNet_inTurn) trivial
      (fun _ e' hop => ?_) (fun _ => rfl) (by decide +kernel)
    -- No other node advertises the endpoint.
    obtain rfl := Op.removeEndpoint.inj hop
    rintro ⟨-, -, origin, r, hr, hvia⟩
    have hall : ∀ r ∈ (squareDb 3).routes.routesOf 9, r.via = .loc 7 := by decide +kernel
    rw [hall r hr] at hvia
    cases hvia
  · refine h.carryOut (.lsa hmem) (fun _ hop => by cases hop) (fun halive => ?_) (fun _ e' hop => ?_)
      (Wires.drained_idle 32) hroom
    · cases halive
    · cases hop

/-- When the service at node 4 is gone, no other corner has a route to it. -/
theorem square_route_gone : (squareDb 0).routes.remotesOf 9 4 ≠ [] ∧
    ¬ (squareGone.db 3).routes.HasLocal 9 ∧ ∀ i, i ≠ 3 →
      LsDb.RouteMatches ((squareGone.db 3).db.get ⟨(squareGone.db 3).selfId, 9⟩)
          ((squareGone.db i).routes.remotesOf 9 (squareGone.db 3).selfId) ∧
        ((∃ route, (squareGone.db i).routes.remotesOf 9 (squareGone.db 3).selfId = [route]) ↔
          (squareGone.db 3).routes.HasLocal 9) := by
  refine ⟨by decide +kernel, ?_, Net.known_where_served squareNet_allKnow square_agrees
    square_advertises squareGone_services squareGone_quiet⟩
  rw [← RouteTable.localsOf_eq_nil_iff]
  decide +kernel

end Anybus
