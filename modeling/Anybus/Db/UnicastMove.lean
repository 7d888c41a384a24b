import Anybus.Db.RemoteRoutes
import Mathlib.Data.List.Permutation

/-!
# A unicast endpoint moves

A unicast endpoint has at most one route. When it moves to another node, its old route
goes away and a new advertisement comes in, in either order. A node that hears of the
new advertiser first refuses the route and never comes back to the record.
-/

namespace Anybus

namespace LsDb

/-- A unicast endpoint has one route at most. -/
def UnicastSingle (db : LsDb) : Prop :=
  ∀ e, db.routes.kindAt e = some .unicast → (db.routes.routesOf e).length ≤ 1

/-- The only route of an endpoint goes away: its advertiser withdraws it, or its
listener at this node has closed and is removed. -/
inductive Leaves (db : LsDb) (e : EndpointId) : NodeId → Action → Prop where
  | withdrawn {a : Action} (lsa : Lsa) (c : ConnectionId) (hop : a.op = .handleLsa lsa c)
      (he : lsa.key.endpointId = e) (hself : lsa.key.origin ≠ db.selfId) (hdead : lsa.dead = true)
      (hroute : db.routes.HasRemote e lsa.key.origin)
      (hnew : ∀ r, db.db.get lsa.key = some r → r.lsa.seq < lsa.seq) :
      Leaves db e lsa.key.origin a
  | closed {a : Action} (hop : a.op = .removeEndpoint e) (hroute : db.routes.HasLocal e)
      (hclosed : ∀ r ∈ db.routes.localsOf e, ∀ sender, r.via = .loc sender →
        (a.client sender).closed = true) : Leaves db e db.selfId a

/-- Another node advertises an endpoint as unicast, which is news. -/
inductive Arrives (db : LsDb) (e : EndpointId) : NodeId → Action → Prop where
  | intro {a : Action} (lsa : Lsa) (c : ConnectionId) (info : EndpointInfo)
      (hop : a.op = .handleLsa lsa c) (he : lsa.key.endpointId = e)
      (hself : lsa.key.origin ≠ db.selfId) (halive : lsa.dead = false)
      (hbody : lsa.body = .endpoint info) (hkind : info.kind = .unicast)
      (hnew : ∀ r, db.db.get lsa.key = some r → r.lsa.seq < lsa.seq) :
      Arrives db e lsa.key.origin a

/-- All routes of an endpoint lead to one node. -/
def RoutesTo (db : LsDb) (e : EndpointId) (origin : NodeId) : Prop :=
  (db.routes.routesOf e).map LsRoute.via = [.remote origin]

section Single

variable {db db' : LsDb}

/-- Removing routes keeps a unicast endpoint single. -/
theorem single_removeRemoteEndpoint {t : RouteTable} (e : EndpointId) (origin : NodeId)
    (h : ∀ e', t.kindAt e' = some .unicast → (t.routesOf e').length ≤ 1) :
    ∀ e', (t.removeRemoteEndpoint e origin).1.kindAt e' = some .unicast →
      ((t.removeRemoteEndpoint e origin).1.routesOf e').length ≤ 1 := by
  intro e' hk
  have hold := h e' (RouteTable.kindAt_of_removeRemoteEndpoint hk)
  rw [RouteTable.routesOf_removeRemoteEndpoint]
  split
  · next heq =>
    rw [heq] at hold
    exact (List.length_filter_le _ _).trans hold
  · exact hold

theorem single_addRemoteEndpoint {t t' : RouteTable} {e : EndpointId} {origin : NodeId}
    {info : EndpointInfo} {eff : Effects} (hadd : t.addRemoteEndpoint e origin info = .ok (t', eff))
    (h : ∀ e', t.kindAt e' = some .unicast → (t.routesOf e').length ≤ 1) :
    ∀ e', t'.kindAt e' = some .unicast → (t'.routesOf e').length ≤ 1 := by
  intro e' hk
  rcases RouteTable.addRemoteEndpoint_via hadd e' with hsame | ⟨rfl, hlonger⟩
  · rw [← List.length_map LsRoute.via, hsame, List.length_map]
    rcases RouteTable.kindAt_of_addRemoteEndpoint hadd hk with hold | ⟨rfl, hnone, _⟩
    · exact h e' hold
    · simp [RouteTable.routesOf_eq_nil_of_kindAt hnone]
  · -- The route was added, so a unicast endpoint had none.
    have hnew : ¬ t.HasRemote e' origin → t.routesOf e' = [] := by
      intro hno
      by_contra hne
      have hkind : info.kind = .unicast := by
        rw [RouteTable.kindAt, (RouteTable.addRemoteEndpoint_spec hadd).2, if_pos rfl] at hk
        exact Option.some.inj hk
      obtain ⟨err, herr⟩ := RouteTable.addRemoteEndpoint_refused hkind hne hno
      rw [herr] at hadd
      cases hadd
    rw [← List.length_map LsRoute.via, hlonger]
    by_cases hhas : t.HasRemote e' origin
    · -- A known advertiser is not added a second time.
      have hany : (t.routesOf e').any (fun r => r.isRemoteOf origin) = true := by
        obtain ⟨r, hr, hv⟩ := hhas
        exact List.any_eq_true.mpr ⟨r, hr, by simp [LsRoute.isRemoteOf, hv]⟩
      rw [RouteTable.routesOf_addRemoteEndpoint hadd, if_pos rfl, RouteTable.learned, if_pos hany,
        RouteTable.map_via_modifyFirst (by exact fun _ => rfl)] at hlonger
      simp at hlonger
    · simp [hnew hhas]

theorem UnicastSingle.step {w w' : Wires} {now : Instant} {op : Op} (h : db.UnicastSingle)
    (hstep : db.step w now op = some (db', w')) : db'.UnicastSingle := by
  obtain ⟨_, hchange⟩ := step_change hstep
  generalize hp : db'.parts = p at hchange
  have hroutes : db'.routes = p.routes := by rw [← hp]; rfl
  unfold UnicastSingle
  rw [hroutes]
  cases hchange with
  | quiet => exact h
  | @addEndpoint request t effect hadd =>
    intro e hk
    obtain ⟨_, hempty, rfl, _⟩ := RouteTable.addEndpoint_spec hadd
    rw [RouteTable.kindAt_setEntry] at hk
    rw [RouteTable.routesOf_setEntry]
    by_cases heq : e = request.endpointId
    · rw [if_pos heq] at hk ⊢
      rw [hempty (Option.some.inj hk), List.nil_append, RouteTable.pushed]
      split <;> simp
    · rw [if_neg heq] at hk ⊢
      exact h e hk
  | removeEndpoint e =>
    intro e' hk
    have hold := h e' (RouteTable.kindAt_of_removeEndpoint hk)
    simp only [RouteTable.routesOf_removeEndpoint]
    split
    · next heq =>
      rw [heq] at hold
      exact (List.length_filter_le _ _).trans hold
    · exact hold
  | setAnycastCost hset =>
    intro e hk
    rw [RouteTable.kindAt_setAnycastCost hset] at hk
    simp only
    rw [← List.length_map LsRoute.via, RouteTable.setAnycastCost_via hset, List.length_map]
    exact h e hk
  | addPeer => exact h
  | removePeer => exact h
  | @handleLsa lsa c d v hh =>
    cases hh with
    | ignored => exact h
    | unknownDeath => exact single_removeRemoteEndpoint _ _ h
    | died _ _ r =>
      exact routesWithoutDead_induct (P := fun t => ∀ e, t.kindAt e = some .unicast →
        (t.routesOf e).length ≤ 1) db lsa.key r h fun t e ht => single_removeRemoteEndpoint e _ ht
    | stored =>
      simp only [parts, routesWith]
      cases hadd : db.routes.addRemoteEndpoint lsa.key.endpointId lsa.key.origin (db.routeInfo lsa) with
      | error err => exact h
      | ok t => exact single_addRemoteEndpoint hadd h
  | tick => exact h
  | shutdown =>
    intro e hk
    cases hk

/-- In every run, a unicast endpoint has at most one route. -/
theorem Runs.unicastSingle {allowed : LsDb → Wires → Instant → Op → Prop} {selfId : NodeId}
    (h : Runs allowed selfId db) : db.UnicastSingle := by
  induction h with
  | new now =>
    intro e hk
    cases hk
  | rehash _ hre ih =>
    intro e hk
    rw [RouteTable.kindAt, hre.get_route] at hk
    rw [RouteTable.routesOf, hre.get_route]
    exact ih e hk
  | step _ _ _ _ _ hstep ih => exact ih.step hstep

end Single

section Steps

variable {db : LsDb} {e : EndpointId} {origin : NodeId} {a : Action}

/-- A withdrawal leaves exactly the routes of other advertisers. -/
theorem routesOf_routesWithoutDead (db : LsDb) (key : LsaKey) (r : LsaRecord) :
    (db.routesWithoutDead key r).routesOf key.endpointId =
      (db.routes.routesOf key.endpointId).filter fun r => !r.isRemoteOf key.origin := by
  have hrest : ((db.routesWithoutDead key r).routesOf key.endpointId).filter
      (fun r => !r.isRemoteOf key.origin) =
      (db.routes.routesOf key.endpointId).filter fun r => !r.isRemoteOf key.origin := by
    refine routesWithoutDead_induct (P := fun t => (t.routesOf key.endpointId).filter
      (fun r => !r.isRemoteOf key.origin) =
      (db.routes.routesOf key.endpointId).filter fun r => !r.isRemoteOf key.origin) db key r rfl
      fun t e ht => ?_
    rw [RouteTable.routesOf_removeRemoteEndpoint]
    split
    · next heq =>
      rw [← heq, List.filter_filter, ← ht]
      exact List.filter_congr fun r _ => Bool.and_self _
    · exact ht
  rw [← hrest, routesWithoutDead, RouteTable.routesOf_removeRemoteEndpoint, if_pos rfl,
    List.filter_filter]
  exact List.filter_congr fun r _ => (Bool.and_self _).symm

/-- What holds of some route of a single one holds of all. -/
theorem forall_of_exists_of_length_le_one {routes : List LsRoute} (hone : routes.length ≤ 1)
    (P : LsRoute → Prop) (h : ∃ r ∈ routes, P r) : ∀ r ∈ routes, P r := by
  obtain ⟨r, hr, hP⟩ := h
  intro r' hr'
  have hlength : routes.length = 1 := by
    have hpos := List.length_pos_of_mem hr
    omega
  obtain ⟨route, hroute⟩ := List.length_eq_one_iff.mp hlength
  rw [hroute, List.mem_singleton] at hr hr'
  rw [hr', ← hr]
  exact hP

/-- When its only route goes away, a unicast endpoint has none, and records of other
nodes stay. -/
theorem Leaves.step (h : db.Leaves e origin a) (log : Log) (hk : db.routes.kindAt e = some .unicast)
    (hone : (db.routes.routesOf e).length ≤ 1) :
    ∃ d w, db.step ⟨a.node, a.client, log⟩ a.now a.op = some (d, w) ∧ d.selfId = db.selfId ∧
      d.routes.routesOf e = [] ∧ (∀ k, d.routes.kindAt e = some k → k = .unicast) ∧
      ∀ k, k.origin ≠ origin → d.db.get k = db.db.get k := by
  have hall := forall_of_exists_of_length_le_one hone
  cases h with
  | withdrawn lsa c hop he hself hdead hroute hnew =>
    subst he
    rw [hop]
    cases hs : db.handleLsa ⟨a.node, a.client, log⟩ lsa c a.now with
    | none =>
      have hpanic := handleLsa_eq_none hs
      rw [hdead] at hpanic
      cases hpanic.1
    | some p =>
      obtain ⟨d, w⟩ := p
      have hgone : (db.routes.routesOf lsa.key.endpointId).filter
          (fun r => !r.isRemoteOf lsa.key.origin) = [] := by
        rw [List.filter_eq_nil_iff]
        intro r hr
        simp [LsRoute.isRemoteOf, hall _ hroute r hr]
      have hh := handleLsa_handled hs
      refine ⟨d, w, hs, hh.frame.1, ?_, fun k hk' => ?_, fun k hko => ?_⟩
      · cases hh with
        | ignored hi =>
          obtain ⟨r, hr, hle⟩ := hi.resolve_left hself
          exact absurd (hnew r hr) (Nat.not_lt.mpr hle)
        | unknownDeath =>
          simp only [RouteTable.routesOf_removeRemoteEndpoint, if_true]
          exact hgone
        | died _ _ r => exact (db.routesOf_routesWithoutDead lsa.key r).trans hgone
        | stored _ hd =>
          rw [hdead] at hd
          cases hd
      · rcases hh.kindAt hk' with hold | ⟨hd, _⟩
        · rw [hk] at hold
          exact (Option.some.inj hold).symm
        · rw [hdead] at hd
          cases hd
      · cases hh with
        | ignored => rfl
        | unknownDeath => rfl
        | died _ _ r => exact db.get_withoutDead_of_ne r hko
        | stored _ hd =>
          rw [hdead] at hd
          cases hd
  | closed hop hroute hclosed =>
    rw [hop]
    obtain ⟨hself, hparts⟩ := removeEndpoint_parts db ⟨a.node, a.client, log⟩ a.now e
    have hroutes := congrArg Parts.routes hparts
    have hrecords := congrArg Parts.records hparts
    simp only [parts] at hroutes hrecords
    refine ⟨(db.removeEndpoint ⟨a.node, a.client, log⟩ e a.now).1,
      (db.removeEndpoint ⟨a.node, a.client, log⟩ e a.now).2, rfl, hself, ?_, fun k hk' => ?_,
      fun k hko => ?_⟩
    · rw [hroutes, RouteTable.routesOf_removeEndpoint, if_pos rfl, List.filter_eq_nil_iff]
      intro r hr
      have hloc := hall _ hroute r hr
      cases hv : r.via with
      | loc sender =>
        have hmem : r ∈ db.routes.localsOf e := List.mem_filter.mpr ⟨hr, hloc⟩
        simp [LsRoute.staysOpen, hv, hclosed r hmem sender hv]
      | remote node =>
        rw [hv] at hloc
        cases hloc
    · rw [hroutes] at hk'
      have hold := RouteTable.kindAt_of_removeEndpoint hk'
      rw [hk] at hold
      exact (Option.some.inj hold).symm
    · rw [hrecords]
      exact db.get_carriedOut_of_ne a.now _ hko

/-- The only route of a unicast endpoint is not one to its next node. -/
theorem Leaves.not_hasRemote (h : db.Leaves e origin a) (hone : (db.routes.routesOf e).length ≤ 1)
    {next : NodeId} (hne : origin ≠ next) : ¬ db.routes.HasRemote e next := by
  rintro ⟨r, hr, hv⟩
  have hall := forall_of_exists_of_length_le_one hone
  cases h with
  | withdrawn lsa c hop he hself hdead hroute hnew =>
    have hsame := hall _ hroute r hr
    rw [hv] at hsame
    exact hne (LsForwardTo.remote.inj hsame).symm
  | closed hop hroute hclosed =>
    have hloc := hall _ hroute r hr
    rw [hv] at hloc
    cases hloc

/-- A route that is about to go away still is when neither it nor its record changes. -/
theorem Leaves.after {db' : LsDb} (h : db.Leaves e origin a) (hself : db'.selfId = db.selfId)
    (hroutes : db'.routes = db.routes) (hrec : db'.db.get ⟨origin, e⟩ = db.db.get ⟨origin, e⟩) :
    db'.Leaves e origin a := by
  cases h with
  | withdrawn lsa c hop he hown hdead hroute hnew =>
    subst he
    exact .withdrawn lsa c hop rfl (hself ▸ hown) hdead (hroutes ▸ hroute) (hrec ▸ hnew)
  | closed hop hroute hclosed =>
    rw [← hself]
    exact .closed hop (hroutes ▸ hroute) (hroutes ▸ hclosed)

/-- An advertisement stays news as long as its record does not change. -/
theorem Arrives.after {db' : LsDb} (h : db.Arrives e origin a) (hself : db'.selfId = db.selfId)
    (hrec : db'.db.get ⟨origin, e⟩ = db.db.get ⟨origin, e⟩) : db'.Arrives e origin a := by
  obtain ⟨lsa, c, info, hop, rfl, hown, halive, hbody, hkind, hnew⟩ := h
  exact .intro lsa c info hop rfl (hself ▸ hown) halive hbody hkind (hrec ▸ hnew)

/-- News of an endpoint is stored, whatever becomes of its route. -/
theorem Arrives.stored (h : db.Arrives e origin a) (log : Log) :
    ∃ d w lsa, db.step ⟨a.node, a.client, log⟩ a.now a.op = some (d, w) ∧ lsa.key = ⟨origin, e⟩ ∧
      (db.routeInfo lsa).kind = .unicast ∧ d.selfId = db.selfId ∧
      d.db = db.db.insert lsa.key ⟨lsa, a.now⟩ ∧ d.routes = db.routesWith lsa := by
  obtain ⟨lsa, c, info, hop, rfl, hself, halive, hbody, hkind, hnew⟩ := h
  rw [hop]
  cases hs : db.handleLsa ⟨a.node, a.client, log⟩ lsa c a.now with
  | none =>
    obtain ⟨_, ⟨adjs, hrouter⟩, _⟩ := handleLsa_eq_none hs
    rw [hbody] at hrouter
    cases hrouter
  | some p =>
    obtain ⟨d, w⟩ := p
    have hinfo : db.routeInfo lsa = info := by simp [routeInfo, hbody]
    refine ⟨d, w, lsa, hs, rfl, hinfo ▸ hkind, ?_⟩
    cases handleLsa_handled hs with
    | ignored hi =>
      obtain ⟨r, hr, hle⟩ := hi.resolve_left hself
      exact absurd (hnew r hr) (Nat.not_lt.mpr hle)
    | unknownDeath _ hd =>
      rw [halive] at hd
      cases hd
    | died _ hd =>
      rw [halive] at hd
      cases hd
    | stored => exact ⟨rfl, rfl, rfl⟩

/-- A unicast endpoint without routes takes up an advertiser. -/
theorem Arrives.step (h : db.Arrives e origin a) (log : Log)
    (hk : ∀ k, db.routes.kindAt e = some k → k = .unicast) (hnil : db.routes.routesOf e = []) :
    ∃ d w, db.step ⟨a.node, a.client, log⟩ a.now a.op = some (d, w) ∧ d.RoutesTo e origin := by
  obtain ⟨d, w, lsa, hs, hkey, hkind, _, _, hroutes⟩ := h.stored log
  refine ⟨d, w, hs, ?_⟩
  have hsame : ∀ entry, db.routes.table.get e = some entry → entry.kind = (db.routeInfo lsa).kind := by
    intro entry he
    rw [hkind]
    exact hk entry.kind (by rw [RouteTable.kindAt, he]; rfl)
  have hok : ∃ t eff, db.routes.addRemoteEndpoint e origin (db.routeInfo lsa) = .ok (t, eff) :=
    RouteTable.addRemoteEndpoint_ok hsame fun _ => Or.inl hnil
  obtain ⟨t, eff, hadd⟩ := hok
  rw [RoutesTo, hroutes, routesWith, hkey]
  simp only [hadd]
  rw [RouteTable.routesOf_addRemoteEndpoint hadd, if_pos rfl, hnil]
  rfl

/-- A unicast endpoint with another route refuses an advertiser, although the record is
stored. -/
theorem Arrives.step_refused (h : db.Arrives e origin a) (log : Log)
    (hne : db.routes.routesOf e ≠ []) (hother : ¬ db.routes.HasRemote e origin) :
    ∃ d w, db.step ⟨a.node, a.client, log⟩ a.now a.op = some (d, w) ∧ d.selfId = db.selfId ∧
      d.routes = db.routes ∧ ∀ k, k.origin ≠ origin → d.db.get k = db.db.get k := by
  obtain ⟨d, w, lsa, hs, hkey, hkind, hself, hdb, hroutes⟩ := h.stored log
  refine ⟨d, w, hs, hself, ?_, fun k hk => ?_⟩
  · obtain ⟨err, hrefused⟩ := RouteTable.addRemoteEndpoint_refused hkind hne hother
    rw [hroutes, routesWith, hkey]
    simp only [hrefused]
  · rw [hdb, HashMap.get_insert, if_neg]
    rintro rfl
    rw [hkey] at hk
    exact hk rfl

end Steps

/-- A unicast endpoint that moves ends up at its new node exactly when the old route goes
away before the new advertisement comes in. -/
theorem unicast_moves_iff (selfId : NodeId) (db : LsDb)
    (hrun : Runs (fun _ _ _ _ => True) selfId db) (e : EndpointId)
    (hkind : db.routes.kindAt e = some .unicast) (a b : NodeId) (hab : a ≠ b)
    (leave arrive : Action) (hleave : db.Leaves e a leave) (harrive : db.Arrives e b arrive)
    (log : Log) (order : List Action) (horder : order.Perm [leave, arrive]) :
    ∃ db' log', db.run log order = some (db', log') ∧
      (db'.RoutesTo e b ↔ order = [leave, arrive]) := by
  have hone := hrun.unicastSingle e hkind
  have hne : db.routes.routesOf e ≠ [] := by
    cases hleave with
    | withdrawn _ _ _ _ _ _ hroute => exact List.ne_nil_of_mem hroute.choose_spec.1
    | closed _ hroute => exact List.ne_nil_of_mem hroute.choose_spec.1
  have hother : ¬ db.routes.HasRemote e b := hleave.not_hasRemote hone hab
  by_cases hfirst : order = [leave, arrive]
  · obtain ⟨d, w, hs, hself, hnil, hk, hrec⟩ := hleave.step log hkind hone
    obtain ⟨d', w', hs', hto⟩ := (harrive.after hself (hrec ⟨b, e⟩ hab.symm)).step w.handed hk hnil
    refine ⟨d', w'.handed, ?_, iff_of_true hto hfirst⟩
    simp [hfirst, run, hs, hs']
  · have hsecond : order = [arrive, leave] := by
      rcases List.perm_pair.mp horder with h | h
      · exact absurd h hfirst
      · exact h
    obtain ⟨d, w, hs, hself, hroutes, hrec⟩ := harrive.step_refused log hne hother
    obtain ⟨d', w', hs', _, hnil, _⟩ := (hleave.after hself hroutes (hrec ⟨a, e⟩ hab)).step w.handed
      (by rw [hroutes]; exact hkind) (by rw [hroutes]; exact hone)
    refine ⟨d', w'.handed, ?_, iff_of_false ?_ hfirst⟩
    · simp [hsecond, run, hs, hs']
    · rw [RoutesTo, hnil]
      exact List.cons_ne_nil _ _ ∘ Eq.symm

end LsDb

/-- A node that has heard of the unicast endpoint of node 2. -/
def heardOfTwo : LsDb :=
  (((LsDb.new 1 0).handleLsa (.idle 32) unicastOfTwo 1 0).map Prod.fst).getD (LsDb.new 1 0)

theorem heardOfTwo_runs : LsDb.Runs (fun _ _ _ _ => True) 1 heardOfTwo :=
  LsDb.Runs.step (.idle 32) 0 (.handleLsa unicastOfTwo 1) (.new 0) trivial rfl

def withdrawnByTwo : Lsa := ⟨⟨2, 5⟩, 1, true, .endpoint ⟨.unicast, .global, 0⟩⟩

def unicastOfThree : Lsa := ⟨⟨3, 5⟩, 0, false, .endpoint ⟨.unicast, .global, 0⟩⟩

/-- Node 2 withdraws its endpoint. -/
def leaveTwo : LsDb.Action := .at false (.handleLsa withdrawnByTwo 1)

/-- Node 3 advertises the endpoint. -/
def arriveThree : LsDb.Action := .at false (.handleLsa unicastOfThree 1)

theorem heardOfTwo_leaves : heardOfTwo.Leaves 5 2 leaveTwo := by
  have hroute : heardOfTwo.routes.HasRemote 5 2 := by
    rw [RouteTable.hasRemote_iff_mem]
    decide +kernel
  have hrec : heardOfTwo.db.get withdrawnByTwo.key = some ⟨unicastOfTwo, 0⟩ := by decide +kernel
  have hself : withdrawnByTwo.key.origin ≠ heardOfTwo.selfId := by decide +kernel
  refine .withdrawn withdrawnByTwo 1 rfl rfl hself rfl hroute fun r hr => ?_
  rw [hrec] at hr
  cases hr
  decide

theorem heardOfTwo_arrives : heardOfTwo.Arrives 5 3 arriveThree := by
  have hrec : heardOfTwo.db.get unicastOfThree.key = none := by decide +kernel
  have hself : unicastOfThree.key.origin ≠ heardOfTwo.selfId := by decide +kernel
  refine .intro unicastOfThree 1 _ rfl rfl hself rfl rfl rfl fun r hr => ?_
  rw [hrec] at hr
  cases hr

/-- The endpoint of node 2 moves to node 3, whose advertisement comes in last. -/
theorem unicast_moves_to_three :
    ∃ db log, heardOfTwo.run [] [leaveTwo, arriveThree] = some (db, log) ∧ db.RoutesTo 5 3 := by
  obtain ⟨db, log, hrun, hiff⟩ := LsDb.unicast_moves_iff 1 heardOfTwo heardOfTwo_runs 5
    (by decide +kernel) 2 3 (by decide) leaveTwo arriveThree heardOfTwo_leaves heardOfTwo_arrives []
    [leaveTwo, arriveThree] (.refl _)
  exact ⟨db, log, hrun, hiff.mpr rfl⟩

/-- When the advertisement of node 3 comes in first, the endpoint ends up nowhere. -/
theorem unicast_lost_on_the_move :
    ¬ ∀ (selfId : NodeId) (db : LsDb), LsDb.Runs (fun _ _ _ _ => True) selfId db →
      ∀ e, db.routes.kindAt e = some .unicast → ∀ a b, a ≠ b → ∀ leave arrive : LsDb.Action,
        db.Leaves e a leave → db.Arrives e b arrive → ∀ log (order : List LsDb.Action),
          order.Perm [leave, arrive] →
          ∃ db' log', db.run log order = some (db', log') ∧ db'.RoutesTo e b := by
  intro h
  obtain ⟨db', log', hrun, hto⟩ := h 1 heardOfTwo heardOfTwo_runs 5 (by decide +kernel) 2 3
    (by decide) leaveTwo arriveThree heardOfTwo_leaves heardOfTwo_arrives [] [arriveThree, leaveTwo]
    (.swap _ _ _)
  have hnowhere : (heardOfTwo.run [] [arriveThree, leaveTwo]).map
      (fun r => r.1.routes.routesOf 5) = some [] := by decide +kernel
  rw [hrun, Option.map_some, Option.some.injEq] at hnowhere
  rw [LsDb.RoutesTo, hnowhere] at hto
  cases hto

end Anybus
