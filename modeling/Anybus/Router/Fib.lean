import Anybus.Db.Step
import Anybus.Spf.LinkChoice
import Anybus.Spf.NextHops

/-!
# What a built forwarding table holds

The next hop of a node begins a shortest path to it, and the peer of a next hop is
itself reached over that link. A table entry follows from the route entry of its
endpoint. The links of one entry lead to different peers, so sending to all of them
puts at most one message on a link.
-/

namespace Anybus

/-- Values that lead back to distinct keys are distinct. -/
theorem map_filterMap_sublist {α β : Type*} {f : α → Option β} {g : β → α} {l : List α}
    (h : ∀ a ∈ l, ∀ b, f a = some b → g b = a) : ((l.filterMap f).map g).Sublist l := by
  induction l with
  | nil => exact List.Sublist.slnil
  | cons a l ih =>
    have hrest := ih fun a' ha' => h a' (List.mem_cons_of_mem _ ha')
    cases hf : f a with
    | none =>
      rw [List.filterMap_cons_none hf]
      exact hrest.cons a
    | some b =>
      rw [List.filterMap_cons_some hf, List.map_cons, h a List.mem_cons_self b hf]
      exact hrest.cons_cons a

/-- The listeners among the routes. -/
def LsRouteEntry.listeners (entry : LsRouteEntry) : List Sender :=
  entry.routes.filterMap fun route =>
    match route.via with
    | .loc sender => some sender
    | .remote _ => none

namespace LsDb

/-- Every link has its adjacency in the own router LSA. -/
def LinksAdvertised (db : LsDb) : Prop :=
  ∀ c link, db.links.get c = some link →
    ∃ adj ∈ db.ownAdjacencies, adj.connectionId = c ∧ adj.IsOf link

/-- A link begins a shortest path to a node. -/
def BeginsShortest (db : LsDb) (link : Link) (n : NodeId) : Prop :=
  ∃ adj ∈ db.ownAdjacencies, adj.peerId = link.peerId ∧ ∃ d, db.spfGraph.Walk link.peerId n d ∧
    ∀ e, db.spfGraph.Walk db.selfId n e → adj.cost.val + d ≤ e

variable {db db' : LsDb} {fib : ForwardingTable}

theorem LinksAdvertised.key_eq (h : db.LinksAdvertised) {c : ConnectionId} {link : Link}
    (hl : db.links.get c = some link) : link.connectionId = c := by
  obtain ⟨adj, _, hc, hof, _⟩ := h c link hl
  exact hof.symm.trans hc

section Built

variable (hb : db.buildFib = some (db', fib))

include hb

theorem ourId_of_built : fib.ourId = db.selfId := by
  obtain ⟨s, _, rfl, hfib⟩ := buildFib_eq_some_iff.mp hb
  obtain ⟨table, _, rfl⟩ := Option.map_eq_some_iff.mp hfib
  rfl

theorem nextHop_of_built : ∃ s, spf db.db db.links db.selfId = some s ∧ fib.nextHop = s.nextHop ∧
    db'.nextHop = s.nextHop := by
  obtain ⟨s, hs, rfl, hfib⟩ := buildFib_eq_some_iff.mp hb
  obtain ⟨table, _, rfl⟩ := Option.map_eq_some_iff.mp hfib
  exact ⟨s, hs, rfl, rfl⟩

/-- A next hop is the first link to its peer, begins a shortest path, and is the next hop
of its peer too. -/
theorem nextHop_spec (hm : db.LinksMatch) {n : NodeId} {link : Link}
    (hn : fib.nextHop.get n = some link) :
    n ≠ db.selfId ∧ (∃ c, db.links.get c = some link) ∧ db.BeginsShortest link n ∧
      fib.nextHop.get link.peerId = some link := by
  obtain ⟨s, hs, hnext, _⟩ := nextHop_of_built hb
  obtain ⟨s', hs', hop⟩ := spf_hops hm.linksCover
  obtain rfl : s = s' := Option.some.inj (hs.symm.trans hs')
  rw [hnext] at hn ⊢
  obtain ⟨hne, hlt⟩ := hop.dom n link hn
  obtain ⟨adj, hadj, link', d, hroot, hn', hfirst, hwalk, hcost⟩ := hop.hop n hne hlt
  obtain rfl : link = link' := Option.some.inj (hn.symm.trans hn')
  obtain ⟨hpeer, hlink⟩ := firstLink_some hfirst
  refine ⟨hne, hlink, ⟨adj, hadj, hpeer.symm, d, hpeer ▸ hwalk, fun e he => ?_⟩, ?_⟩
  · rw [hcost]
    exact spf_label_le hs he
  · exact spf_nextHop_peer hs hn

/-- Every node that can be reached at a finite cost has a next hop. -/
theorem exists_nextHop (hm : db.LinksMatch) {n : NodeId} (hne : n ≠ db.selfId) {c : Nat}
    (hw : db.spfGraph.Walk db.selfId n c) (hc : c < 65535) :
    ∃ link, fib.nextHop.get n = some link := by
  obtain ⟨s, hs, hnext, _⟩ := nextHop_of_built hb
  obtain ⟨s', hs', hop⟩ := spf_hops hm.linksCover
  obtain rfl : s = s' := Option.some.inj (hs.symm.trans hs')
  have hle := spf_label_le hs hw
  obtain ⟨_, _, link, _, _, hn, _⟩ := hop.hop n hne (by omega)
  exact ⟨link, hnext ▸ hn⟩

end Built

/-- A choice stands in the built table exactly if its route entry gives it. -/
theorem get_buildTable {l : List (Σ _ : EndpointId, LsRouteEntry)} (hl : l.NodupKeys)
    {table table' : HashMap EndpointId FibEntry} (h : db.buildTable l table = some table')
    (e : EndpointId) :
    table'.get e = (((l.dlookup e).bind fun re => (db.fibEntry re).join).or (table.get e)) := by
  induction l generalizing table with
  | nil =>
    obtain rfl := Option.some.inj h
    simp
  | cons x l ih =>
    obtain ⟨e₀, re⟩ := x
    obtain ⟨hnot, hrest⟩ := List.nodupKeys_cons.mp hl
    rw [buildTable] at h
    by_cases he : e = e₀
    · subst he
      rw [List.dlookup_cons_eq, Option.bind_some]
      have hnone : l.dlookup e = none := List.dlookup_eq_none.mpr hnot
      cases hf : db.fibEntry re with
      | none => simp [hf] at h
      | some choice =>
        cases choice with
        | none =>
          simp only [hf] at h
          rw [ih hrest h, hnone]
          simp
        | some f =>
          simp only [hf] at h
          rw [ih hrest h, hnone]
          simp
    · rw [List.dlookup_cons_ne _ _ he]
      cases hf : db.fibEntry re with
      | none => simp [hf] at h
      | some choice =>
        cases choice with
        | none =>
          simp only [hf] at h
          exact ih hrest h
        | some f =>
          simp only [hf] at h
          rw [ih hrest h, HashMap.get_insert, if_neg he]

/-- The table entry of an endpoint is the choice for its route entry. -/
theorem table_of_built (hb : db.buildFib = some (db', fib)) (e : EndpointId) :
    fib.table.get e = (db.routes.table.get e).bind fun re => (db'.fibEntry re).join := by
  obtain ⟨s, hs, rfl, hfib⟩ := buildFib_eq_some_iff.mp hb
  obtain ⟨table, htable, rfl⟩ := Option.map_eq_some_iff.mp hfib
  rw [get_buildTable db.routes.table.nodupKeys htable, HashMap.get_empty, Option.or_none]
  rfl

/-- All routes of an endpoint with a single listener lead the same way. -/
def RoutesOnly (db : LsDb) (e : EndpointId) (via : LsForwardTo) : Prop :=
  ∃ re, db.routes.table.get e = some re ∧ (re.kind = .unicast ∨ re.kind = .node) ∧
    re.routes ≠ [] ∧ ∀ route ∈ re.routes, route.via = via

/-- The table entry of such an endpoint is the hop of one of its routes. -/
theorem RoutesOnly.get_table (hb : db.buildFib = some (db', fib)) {e : EndpointId}
    {via : LsForwardTo} (h : db.RoutesOnly e via) :
    ∃ route, route.via = via ∧ fib.table.get e = (db'.fibForward route).map .single := by
  obtain ⟨re, hre, hkind, hne, hall⟩ := h
  obtain ⟨route, hmin⟩ := Option.ne_none_iff_exists'.mp
    (mt (List.argmin_eq_none (f := fun r : LsRoute => r.cost)).mp hne)
  refine ⟨route, hall route (List.argmin_mem hmin), ?_⟩
  rw [table_of_built hb, hre, Option.bind_some]
  unfold fibEntry
  rcases hkind with hk | hk
  · simp only [hk, hmin, Option.bind_some, Option.join_some]
  · simp only [hk, hmin, Option.bind_some, Option.join_some]

theorem RoutesOnly.table_loc (hb : db.buildFib = some (db', fib)) {e : EndpointId}
    {sender : Sender} (h : db.RoutesOnly e (.loc sender)) :
    fib.table.get e = some (.single (.loc sender)) := by
  obtain ⟨route, hvia, hget⟩ := h.get_table hb
  rw [hget, fibForward, hvia]
  rfl

theorem RoutesOnly.table_remote (hb : db.buildFib = some (db', fib)) {e : EndpointId} {n : NodeId}
    (h : db.RoutesOnly e (.remote n)) {link : Link} (hn : fib.nextHop.get n = some link) :
    fib.table.get e = some (.single (.remote link)) := by
  obtain ⟨s, _, hnext, hnext'⟩ := nextHop_of_built hb
  rw [hnext, ← hnext'] at hn
  obtain ⟨route, hvia, hget⟩ := h.get_table hb
  rw [hget]
  simp only [fibForward, hvia, hn, Option.map_some]

/-- The peers of the first hops towards the advertisers of a broadcast endpoint. -/
def broadcastPeers (db : LsDb) (routes : List LsRoute) : List NodeId :=
  (routes.filterMap fun route =>
    match route.via with
    | .loc _ => none
    | .remote nodeId => (db.nextHop.get nodeId).map fun nextHop => nextHop.peerId).dedup

theorem mem_broadcastPeers {routes : List LsRoute} {p : NodeId} (h : p ∈ db.broadcastPeers routes) :
    ∃ n link, db.nextHop.get n = some link ∧ link.peerId = p := by
  obtain ⟨route, _, hr⟩ := List.mem_filterMap.mp (List.mem_dedup.mp h)
  split at hr
  · cases hr
  · next n _ =>
    obtain ⟨link, hlink, rfl⟩ := Option.map_eq_some_iff.mp hr
    exact ⟨n, link, hlink, rfl⟩

theorem remotes_broadcastHops (routes : List LsRoute) :
    (FibEntry.multiCast (db.broadcastHops routes)).remotes =
      (db.broadcastPeers routes).filterMap db.nextHop.get := by
  unfold FibEntry.remotes FibEntry.hops broadcastHops broadcastPeers
  simp only [List.filterMap_append, List.filterMap_filterMap]
  rw [List.filterMap_eq_nil_iff.mpr, List.nil_append]
  · apply List.filterMap_congr
    intro n _
    cases db.nextHop.get n <;> rfl
  · intro route _
    cases route.via <;> rfl

theorem locals_broadcastHops (entry : LsRouteEntry) :
    (FibEntry.multiCast (db.broadcastHops entry.routes)).locals = entry.listeners := by
  unfold FibEntry.locals FibEntry.hops broadcastHops LsRouteEntry.listeners
  simp only [List.filterMap_append, List.filterMap_filterMap]
  rw [(List.filterMap_eq_nil_iff (l := List.dedup _)).mpr, List.append_nil]
  · apply List.filterMap_congr
    intro route _
    cases route.via <;> rfl
  · intro n _
    cases db.nextHop.get n <;> rfl

/-- A choice is one hop of one of the routes, or all hops of a broadcast. -/
theorem fibEntry_cases {re : LsRouteEntry} {f : FibEntry} (h : db.fibEntry re = some (some f)) :
    (∃ route ∈ re.routes, ∃ hop, db.fibForward route = some hop ∧ f = .single hop) ∨
      f = .multiCast (db.broadcastHops re.routes) := by
  unfold fibEntry at h
  split at h
  · obtain ⟨hop, hhop, rfl⟩ := Option.map_eq_some_iff.mp (Option.some.inj h)
    obtain ⟨route, hroute, hfwd⟩ := Option.bind_eq_some_iff.mp hhop
    obtain ⟨⟨total, route'⟩, hmin, rfl⟩ := Option.map_eq_some_iff.mp hroute
    obtain ⟨route, hmem, htotal⟩ := List.mem_filterMap.mp (List.argmin_mem hmin)
    obtain ⟨_, _, heq⟩ := Option.map_eq_some_iff.mp htotal
    obtain ⟨rfl, rfl⟩ := Prod.mk.inj heq
    exact Or.inl ⟨route, hmem, hop, hfwd, rfl⟩
  · obtain ⟨hop, hhop, rfl⟩ := Option.map_eq_some_iff.mp (Option.some.inj h)
    obtain ⟨route, hmin, hfwd⟩ := Option.bind_eq_some_iff.mp hhop
    exact Or.inl ⟨route, List.argmin_mem hmin, hop, hfwd, rfl⟩
  · obtain ⟨hop, hhop, rfl⟩ := Option.map_eq_some_iff.mp (Option.some.inj h)
    obtain ⟨route, hmin, hfwd⟩ := Option.bind_eq_some_iff.mp hhop
    exact Or.inl ⟨route, List.argmin_mem hmin, hop, hfwd, rfl⟩
  · have h := Option.some.inj h
    split at h
    · cases h
    · exact Or.inr (Option.some.inj h).symm
  · cases h

theorem fibForward_remote {route : LsRoute} {link : Link}
    (h : db.fibForward route = some (.remote link)) : ∃ n, db.nextHop.get n = some link := by
  unfold fibForward at h
  split at h
  · cases h
  · next n _ =>
    obtain ⟨_, hn, heq⟩ := Option.map_eq_some_iff.mp h
    obtain rfl := FibForwardTo.remote.inj heq
    exact ⟨n, hn⟩

theorem fibForward_loc {route : LsRoute} {sender : Sender}
    (h : db.fibForward route = some (.loc sender)) : route.via = .loc sender := by
  unfold fibForward at h
  split at h
  · next hv =>
    obtain rfl := FibForwardTo.loc.inj (Option.some.inj h)
    exact hv
  · obtain ⟨_, _, heq⟩ := Option.map_eq_some_iff.mp h
    cases heq

/-- The listeners of a choice are listeners of its route entry. -/
theorem count_locals_le {re : LsRouteEntry} {f : FibEntry} (h : db.fibEntry re = some (some f))
    (sender : Sender) : f.locals.count sender ≤ re.listeners.count sender := by
  rcases fibEntry_cases h with ⟨route, hmem, hop, hfwd, rfl⟩ | rfl
  · cases hop with
    | remote link => exact Nat.zero_le _
    | loc sender' =>
      have hlist : (FibEntry.single (.loc sender')).locals = [sender'] := rfl
      have hin : sender' ∈ re.listeners :=
        List.mem_filterMap.mpr ⟨route, hmem, by rw [fibForward_loc hfwd]⟩
      rw [hlist, List.count_singleton]
      split
      · next heq =>
        obtain rfl := eq_of_beq heq
        exact List.count_pos_iff.mpr hin
      · exact Nat.zero_le _
  · rw [locals_broadcastHops]

/-- The links of a choice are next hops. -/
theorem mem_remotes {re : LsRouteEntry} {f : FibEntry} (h : db.fibEntry re = some (some f))
    {link : Link} (hl : link ∈ f.remotes) : ∃ n, db.nextHop.get n = some link := by
  rcases fibEntry_cases h with ⟨route, _, hop, hfwd, rfl⟩ | rfl
  · cases hop with
    | loc sender => cases hl
    | remote link' =>
      obtain rfl := List.mem_singleton.mp (show link ∈ [link'] from hl)
      exact fibForward_remote hfwd
  · rw [remotes_broadcastHops] at hl
    obtain ⟨n, _, hn⟩ := List.mem_filterMap.mp hl
    exact ⟨n, hn⟩

/-- The links of one choice lead to different peers. -/
theorem nodup_remotes_peers (hb : db.buildFib = some (db', fib)) (hm : db.LinksMatch)
    {re : LsRouteEntry} {f : FibEntry} (h : db'.fibEntry re = some (some f)) :
    (f.remotes.map Link.peerId).Nodup := by
  rcases fibEntry_cases h with ⟨route, _, hop, _, rfl⟩ | rfl
  · cases hop with
    | loc sender => exact List.nodup_nil
    | remote link => exact List.nodup_singleton _
  · rw [remotes_broadcastHops]
    apply List.Nodup.sublist (map_filterMap_sublist _) (List.nodup_dedup _)
    intro p hp link hlink
    obtain ⟨n, link', hn, rfl⟩ := mem_broadcastPeers hp
    obtain ⟨s, _, hnext, hnext'⟩ := nextHop_of_built hb
    rw [hnext', ← hnext] at hn hlink
    obtain ⟨_, _, _, hpeer⟩ := nextHop_spec hb hm hn
    obtain rfl := Option.some.inj (hpeer.symm.trans hlink)
    rfl

/-- A route to another node is usable if that node can be reached at a finite cost; its
total is the route's own cost and the shortest path, up to infinity. -/
theorem anycastTotal_remote (hb : db.buildFib = some (db', fib)) (hm : db.LinksMatch)
    {route : LsRoute} {n : NodeId} (hv : route.via = .remote n) {t : Cost} :
    db'.anycastTotal route = some t ↔ n ≠ db.selfId ∧ ∃ d < 65535, db.spfGraph.Walk db.selfId n d ∧
      (∀ e, db.spfGraph.Walk db.selfId n e → d ≤ e) ∧ t.val = min 65535 (route.cost.val + d) := by
  obtain ⟨s, hs, rfl, _⟩ := buildFib_eq_some_iff.mp hb
  obtain ⟨s', hs', hnext, _⟩ := nextHop_of_built hb
  obtain rfl : s = s' := Option.some.inj (hs.symm.trans hs')
  obtain ⟨hinv, _⟩ := (spfInit_inv (routerLsas db.db) db.selfId).1.loop
    (spfInit_inv (routerLsas db.db) db.selfId).2 hs
  have hle : ∀ e, db.spfGraph.Walk db.selfId n e → s.label n ≤ e := fun e => spf_label_le hs
  unfold anycastTotal
  simp only [hv]
  constructor
  · intro h
    cases hc : s.cost.get n with
    | none => simp [hc] at h
    | some path =>
      have hlabel : s.label n = path.val := by simp [Spf.label, Spf.costOf, hc]
      simp only [hc] at h
      split at h
      · cases h
      · next hmax =>
        split at h
        · cases h
        · next link hlink =>
          have hlt : path.val < 65535 :=
            lt_of_le_of_ne path.le_max fun heq => hmax (Cost.ext heq)
          rw [← hnext] at hlink
          refine ⟨(nextHop_spec hb hm hlink).1, path.val, hlt, ?_, ?_, ?_⟩
          · rw [← hlabel]
            exact hinv.sound n (hlabel ▸ hlt)
          · rw [← hlabel]
            exact hle
          · rw [← Option.some.inj h, Cost.add_val]
  · rintro ⟨hne, d, hlt, hwalk, hmin, ht⟩
    have hlabel : s.label n = d := by
      have h₁ := hle d hwalk
      have h₂ := hmin _ (hinv.sound n (by omega))
      omega
    cases hc : s.cost.get n with
    | none =>
      have htop : s.label n = 65535 := by simp [Spf.label, Spf.costOf, hc, Cost.max]
      omega
    | some path =>
      have hpath : path.val = d := by simpa [Spf.label, Spf.costOf, hc] using hlabel
      obtain ⟨link, hlink⟩ := exists_nextHop hb hm hne hwalk hlt
      rw [hnext] at hlink
      have hmax : path ≠ Cost.max := by
        rintro rfl
        simp [Cost.max] at hpath
        omega
      simp only [hlink, if_neg hmax, Option.some.injEq]
      apply Cost.ext
      rw [ht, Cost.add_val, hpath]

/-- The table entry of an anycast endpoint is the hop of a usable route with the least total. -/
theorem table_anycast (hb : db.buildFib = some (db', fib)) {e : EndpointId} {re : LsRouteEntry}
    (hre : db.routes.table.get e = some re) (hk : re.kind = .anycast) {entry : FibEntry}
    (he : fib.table.get e = some entry) :
    ∃ route ∈ re.routes, ∃ total, db'.anycastTotal route = some total ∧
      (∀ route' ∈ re.routes, ∀ t, db'.anycastTotal route' = some t → total ≤ t) ∧
      ∃ hop, db'.fibForward route = some hop ∧ entry = .single hop := by
  rw [table_of_built hb, hre, Option.bind_some, fibEntry, hk, Option.join_some] at he
  obtain ⟨hop, hhop, rfl⟩ := Option.map_eq_some_iff.mp he
  obtain ⟨route, hchoice, hfwd⟩ := Option.bind_eq_some_iff.mp hhop
  obtain ⟨⟨total, route'⟩, hmin, rfl⟩ := Option.map_eq_some_iff.mp hchoice
  obtain ⟨route, hmem, htotal⟩ := List.mem_filterMap.mp (List.argmin_mem hmin)
  obtain ⟨t, ht, heq⟩ := Option.map_eq_some_iff.mp htotal
  obtain ⟨rfl, rfl⟩ := Prod.mk.inj heq
  refine ⟨route, hmem, t, ht, fun route' hmem' t' ht' => ?_, hop, hfwd, rfl⟩
  exact List.le_of_mem_argmin (a := (t', route'))
    (List.mem_filterMap.mpr ⟨route', hmem', by rw [ht']; rfl⟩) hmin

end LsDb

end Anybus
