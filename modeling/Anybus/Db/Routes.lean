import Anybus.Linkstate.RouteTable

/-!
# How the route table changes

The routes of an endpoint are read as one list, empty when there is no entry.
Learning and forgetting a remote advertiser only touch the remote route of that
advertiser; local registrations only touch local routes.
-/

namespace Anybus

namespace RouteTable

/-- All routes of an endpoint. -/
def routesOf (t : RouteTable) (e : EndpointId) : List LsRoute :=
  ((t.table.get e).map LsRouteEntry.routes).getD []

/-- A node is known to advertise an endpoint. -/
def HasRemote (t : RouteTable) (e : EndpointId) (origin : NodeId) : Prop :=
  ∃ r ∈ t.routesOf e, r.via = .remote origin

/-- An endpoint has a listener at this node. -/
def HasLocal (t : RouteTable) (e : EndpointId) : Prop := ∃ r ∈ t.routesOf e, r.via.isLocal = true

/-- The entry of an endpoint holds routes of one advertiser only, if it exists. -/
def OnlyFrom (t : RouteTable) (e : EndpointId) (origin : NodeId) : Prop :=
  ∀ entry, t.table.get e = some entry →
    entry.routes ≠ [] ∧ ∀ r ∈ entry.routes, r.via = .remote origin

theorem get_setEntry (t : RouteTable) (e e' : EndpointId) (entry : LsRouteEntry) :
    (t.setEntry e entry).table.get e' = if e' = e then some entry else t.table.get e' := by
  simp [setEntry]

theorem get_removeEntry (t : RouteTable) (e e' : EndpointId) :
    (t.removeEntry e).table.get e' = if e' = e then none else t.table.get e' := by
  simp [removeEntry]

theorem routesOf_setEntry (t : RouteTable) (e e' : EndpointId) (entry : LsRouteEntry) :
    (t.setEntry e entry).routesOf e' = if e' = e then entry.routes else t.routesOf e' := by
  unfold routesOf
  rw [get_setEntry]
  split <;> rfl

theorem routesOf_removeEntry (t : RouteTable) (e e' : EndpointId) :
    (t.removeEntry e).routesOf e' = if e' = e then [] else t.routesOf e' := by
  unfold routesOf
  rw [get_removeEntry]
  split <;> rfl

theorem entryOr_routes (t : RouteTable) (e : EndpointId) (kind : RouteKind) :
    (t.entryOr e kind).routes = t.routesOf e := by
  unfold entryOr routesOf
  cases t.table.get e <;> rfl

/-- Changing the first match keeps where every route leads, if the change does. -/
theorem map_via_modifyFirst {p : LsRoute → Bool} {f : LsRoute → LsRoute}
    (hf : ∀ r, (f r).via = r.via) (l : List LsRoute) :
    (modifyFirst p f l).map LsRoute.via = l.map LsRoute.via := by
  induction l with
  | nil => rfl
  | cons r l ih =>
    unfold modifyFirst
    split
    · rw [List.map_cons, List.map_cons, hf]
    · rw [List.map_cons, List.map_cons, ih]

/-- A change that does nothing to the first match does nothing. -/
theorem modifyFirst_eq_self {p : LsRoute → Bool} {f : LsRoute → LsRoute} {l : List LsRoute}
    {r : LsRoute} (h : l.find? p = some r) (hf : f r = r) : modifyFirst p f l = l := by
  induction l with
  | nil => rfl
  | cons a l ih =>
    unfold modifyFirst
    rw [List.find?_cons] at h
    split at h
    · next hp =>
      rw [if_pos hp, Option.some.inj h, hf]
    · next hp => rw [if_neg (by simp [hp]), ih h]

theorem entry_of_mem_routesOf {t : RouteTable} {e : EndpointId} {r : LsRoute}
    (h : r ∈ t.routesOf e) : ∃ entry, t.table.get e = some entry := by
  unfold routesOf at h
  cases he : t.table.get e with
  | none => simp [he] at h
  | some entry => exact ⟨entry, rfl⟩

/-- The routes of an endpoint after an advertiser was learned: its route gets the new
cost and realm, or is added. -/
def learned (routes : List LsRoute) (origin : NodeId) (info : EndpointInfo) : List LsRoute :=
  if routes.any fun r => r.isRemoteOf origin then
    modifyFirst (fun r => r.isRemoteOf origin)
      (fun r => { r with cost := info.cost, realm := info.realm }) routes
  else routes ++ [⟨.remote origin, info.cost, info.realm, info.kind⟩]

/-- The route a registration adds; a node endpoint gets none. -/
def pushed (info : EndpointInfo) (sender : Sender) : List LsRoute :=
  if info.kind = .node then [] else [⟨.loc sender, info.cost, info.realm, info.kind⟩]

/-- Where the routes of an endpoint lead decides whether it has a local listener or a
given advertiser. -/
theorem hasRemote_iff_mem {t : RouteTable} {e : EndpointId} {origin : NodeId} :
    t.HasRemote e origin ↔ .remote origin ∈ (t.routesOf e).map LsRoute.via := by
  rw [HasRemote, List.mem_map]

theorem hasLocal_iff_mem {t : RouteTable} {e : EndpointId} :
    t.HasLocal e ↔ ∃ v ∈ (t.routesOf e).map LsRoute.via, v.isLocal = true := by
  simp [HasLocal]

section Remote

variable (t : RouteTable) (e : EndpointId) (origin : NodeId)

/-- Forgetting an advertiser removes exactly its routes. -/
theorem routesOf_removeRemoteEndpoint (e' : EndpointId) :
    (t.removeRemoteEndpoint e origin).1.routesOf e' =
      if e' = e then (t.routesOf e).filter fun r => !r.isRemoteOf origin else t.routesOf e' := by
  unfold removeRemoteEndpoint
  cases he : t.table.get e with
  | none =>
    by_cases heq : e' = e
    · simp [routesOf, heq, he]
    · simp only [if_neg heq]
  | some entry =>
    have hroutes : t.routesOf e = entry.routes := by simp [routesOf, he]
    simp only
    split
    · next hempty =>
      rw [routesOf_removeEntry, hroutes, List.isEmpty_iff.mp hempty]
    · rw [routesOf_setEntry, hroutes]

theorem hasRemote_removeRemoteEndpoint (e' : EndpointId) (origin' : NodeId) :
    (t.removeRemoteEndpoint e origin).1.HasRemote e' origin' ↔
      t.HasRemote e' origin' ∧ ¬ (e' = e ∧ origin' = origin) := by
  unfold HasRemote
  rw [routesOf_removeRemoteEndpoint]
  by_cases he : e' = e
  · subst he
    simp only [if_true, List.mem_filter, LsRoute.isRemoteOf, Bool.not_eq_true', decide_eq_false_iff_not,
      true_and]
    constructor
    · rintro ⟨r, ⟨hr, hne⟩, hv⟩
      refine ⟨⟨r, hr, hv⟩, fun ho => hne ?_⟩
      rw [hv, ho]
    · rintro ⟨⟨r, hr, hv⟩, hne⟩
      refine ⟨r, ⟨hr, fun ho => hne ?_⟩, hv⟩
      rw [hv] at ho
      exact LsForwardTo.remote.inj ho
  · simp [he]

variable {t e origin}

theorem OnlyFrom.removeRemoteEndpoint {e' : EndpointId} {origin' : NodeId}
    (h : t.OnlyFrom e origin) : (t.removeRemoteEndpoint e' origin').1.OnlyFrom e origin := by
  intro entry hentry
  unfold RouteTable.removeRemoteEndpoint at hentry
  cases he : t.table.get e' with
  | none =>
    simp only [he] at hentry
    exact h entry hentry
  | some old =>
    simp only [he] at hentry
    split at hentry
    · rw [get_removeEntry] at hentry
      split at hentry
      · cases hentry
      · exact h entry hentry
    · next hne =>
      rw [get_setEntry] at hentry
      split at hentry
      · next heq =>
        subst heq
        cases hentry
        rw [List.isEmpty_iff] at hne
        exact ⟨hne, fun r hr => (h old he).2 r (List.mem_filter.mp hr).1⟩
      · exact h entry hentry

/-- The entry that a request for some kind finds, if there is one, is of that kind. -/
theorem kind_of_entryOr {kind : RouteKind} (hkind : (t.entryOr e kind).kind = kind)
    (entry : LsRouteEntry) (he : t.table.get e = some entry) : entry.kind = kind := by
  simpa [entryOr, he] using hkind

/-- Everything learning of an advertiser does: the entry, if there is one, must be of the
advertised kind, and afterwards holds what was learned. -/
theorem addRemoteEndpoint_spec {info : EndpointInfo} {t' : RouteTable} {eff : Effects}
    (h : t.addRemoteEndpoint e origin info = .ok (t', eff)) :
    (∀ entry, t.table.get e = some entry → entry.kind = info.kind) ∧
      ∀ e', t'.table.get e' = if e' = e then some ⟨learned (t.routesOf e) origin info, info.kind⟩
        else t.table.get e' := by
  unfold addRemoteEndpoint at h
  simp only [entryOr_routes] at h
  split at h
  · cases h
  · next hkind =>
    rw [not_not] at hkind
    refine ⟨kind_of_entryOr hkind, fun e' => ?_⟩
    split at h
    · next existing hfind =>
      have hmem := List.mem_of_find?_eq_some hfind
      have hv := List.find?_some hfind
      have hany : (t.routesOf e).any (fun r => r.isRemoteOf origin) = true :=
        List.any_eq_true.mpr ⟨existing, hmem, hv⟩
      split at h
      · cases h
        rw [get_setEntry, learned, if_pos hany, hkind]
      · next hdiff =>
        -- The route is known with the same cost and realm, so nothing is written.
        cases h
        rw [not_or, not_not, not_not] at hdiff
        rw [learned, if_pos hany, modifyFirst_eq_self hfind]
        · split
          · next heq =>
            obtain ⟨entry, he⟩ := entry_of_mem_routesOf hmem
            rw [heq, he, ← kind_of_entryOr hkind entry he]
            simp [routesOf, he]
          · rfl
        · rw [← hdiff.1, ← hdiff.2]
    · next hnone =>
      have hany : (t.routesOf e).any (fun r => r.isRemoteOf origin) = false := by
        rw [List.any_eq_false]
        exact List.find?_eq_none.mp hnone
      split at h
      · cases h
      · cases h
        rw [get_setEntry, learned, if_neg (ne_true_of_eq_false hany), hkind]

theorem routesOf_addRemoteEndpoint {info : EndpointInfo} {t' : RouteTable} {eff : Effects}
    (h : t.addRemoteEndpoint e origin info = .ok (t', eff)) (e' : EndpointId) :
    t'.routesOf e' = if e' = e then learned (t.routesOf e) origin info else t.routesOf e' := by
  unfold routesOf
  rw [(addRemoteEndpoint_spec h).2]
  split <;> rfl

/-- An advertiser is refused only for the kind of the entry, or because a unicast
endpoint has another route. -/
theorem addRemoteEndpoint_ok {info : EndpointInfo}
    (hkind : ∀ entry, t.table.get e = some entry → entry.kind = info.kind)
    (huni : info.kind = .unicast → t.routesOf e = [] ∨ t.HasRemote e origin) :
    ∃ t' eff, t.addRemoteEndpoint e origin info = .ok (t', eff) := by
  have hk : (t.entryOr e info.kind).kind = info.kind := by
    unfold entryOr
    cases he : t.table.get e with
    | none => rfl
    | some entry => exact hkind entry he
  unfold addRemoteEndpoint
  simp only [entryOr_routes, hk, ne_eq, not_true_eq_false, if_false]
  split
  · split
    · exact ⟨_, _, rfl⟩
    · exact ⟨_, _, rfl⟩
  · next hnone =>
    rw [if_neg]
    · exact ⟨_, _, rfl⟩
    · rintro ⟨hu, hne⟩
      rcases huni hu with hnil | ⟨r, hr, hv⟩
      · simp [hnil] at hne
      · exact List.find?_eq_none.mp hnone r hr (by simp [LsRoute.isRemoteOf, hv])

/-- A unicast endpoint with another route refuses an advertiser. -/
theorem addRemoteEndpoint_refused {info : EndpointInfo} (hu : info.kind = .unicast)
    (hne : t.routesOf e ≠ []) (hnew : ¬ t.HasRemote e origin) :
    ∃ err, t.addRemoteEndpoint e origin info = .error err := by
  cases hadd : t.addRemoteEndpoint e origin info with
  | error err => exact ⟨err, rfl⟩
  | ok p =>
    unfold addRemoteEndpoint at hadd
    simp only [entryOr_routes] at hadd
    split at hadd
    · cases hadd
    · next hkind =>
      rw [not_not] at hkind
      split at hadd
      · next existing hfind =>
        have hv := List.find?_some hfind
        simp only [LsRoute.isRemoteOf, decide_eq_true_eq] at hv
        exact absurd ⟨existing, List.mem_of_find?_eq_some hfind, hv⟩ hnew
      · rw [if_pos ⟨hkind.trans hu, by simpa using hne⟩] at hadd
        cases hadd

/-- Learning of an advertiser: either its route changes its cost, or it is added. -/
theorem addRemoteEndpoint_via {info : EndpointInfo} {t' : RouteTable} {eff : Effects}
    (h : t.addRemoteEndpoint e origin info = .ok (t', eff)) (e' : EndpointId) :
    (t'.routesOf e').map LsRoute.via = (t.routesOf e').map LsRoute.via ∨
      (e' = e ∧ (t'.routesOf e').map LsRoute.via =
        (t.routesOf e').map LsRoute.via ++ [.remote origin]) := by
  rw [routesOf_addRemoteEndpoint h]
  by_cases heq : e' = e
  · rw [if_pos heq, heq, learned]
    split
    · exact Or.inl (map_via_modifyFirst (by exact fun _ => rfl) _)
    · exact Or.inr ⟨rfl, by simp⟩
  · rw [if_neg heq]
    exact Or.inl rfl

/-- An accepted advertiser is known afterwards. -/
theorem hasRemote_addRemoteEndpoint {info : EndpointInfo} {t' : RouteTable} {eff : Effects}
    (h : t.addRemoteEndpoint e origin info = .ok (t', eff)) : t'.HasRemote e origin := by
  rw [hasRemote_iff_mem, routesOf_addRemoteEndpoint h, if_pos rfl, learned]
  split
  · next hany =>
    obtain ⟨r, hr, hv⟩ := List.any_eq_true.mp hany
    rw [map_via_modifyFirst (by exact fun _ => rfl)]
    exact List.mem_map.mpr ⟨r, hr, of_decide_eq_true hv⟩
  · simp

/-- An endpoint without an entry accepts any advertiser. -/
theorem addRemoteEndpoint_of_none (origin : NodeId) (info : EndpointInfo)
    (h : t.table.get e = none) :
    ∃ t' eff, t.addRemoteEndpoint e origin info = .ok (t', eff) := by
  simp [addRemoteEndpoint, entryOr, h]

theorem OnlyFrom.addRemoteEndpoint {info : EndpointInfo} {t' : RouteTable} {eff : Effects}
    (h : t.OnlyFrom e origin) (hadd : t.addRemoteEndpoint e origin info = .ok (t', eff)) :
    t'.OnlyFrom e origin := by
  intro entry hentry
  have hroutes : t'.routesOf e = entry.routes := by simp [routesOf, hentry]
  have hsome := hasRemote_addRemoteEndpoint hadd
  refine ⟨?_, fun r hr => ?_⟩
  · obtain ⟨r, hr, _⟩ := hsome
    rw [hroutes] at hr
    exact List.ne_nil_of_mem hr
  · have hall : ∀ v ∈ (t.routesOf e).map LsRoute.via, v = .remote origin := by
      intro v hv
      obtain ⟨r', hr', rfl⟩ := List.mem_map.mp hv
      unfold routesOf at hr'
      cases he : t.table.get e with
      | none => simp [he] at hr'
      | some old =>
        simp only [he, Option.map_some, Option.getD_some] at hr'
        exact (h old he).2 r' hr'
    have hv : r.via ∈ (t'.routesOf e).map LsRoute.via := by
      rw [hroutes]
      exact List.mem_map_of_mem hr
    rcases addRemoteEndpoint_via hadd e with heq | ⟨_, heq⟩
    · rw [heq] at hv
      exact hall _ hv
    · rw [heq, List.mem_append, List.mem_singleton] at hv
      exact hv.elim (hall _) id

end Remote

section Local

variable {t t' : RouteTable} {e : EndpointId} {info : EndpointInfo} {sender : Sender}

/-- Everything an accepted registration does: the entry, if there is one, must be of the
requested kind, the listener is added, and the effect asks for an advertisement exactly
when it is the first local one. -/
theorem addEndpoint_spec {effect : Effects} (h : t.addEndpoint e info sender = .ok (t', effect)) :
    (∀ entry, t.table.get e = some entry → entry.kind = info.kind) ∧
      (info.kind = .unicast → t.routesOf e = []) ∧
      t' = t.setEntry e ⟨t.routesOf e ++ pushed info sender, info.kind⟩ ∧
      ((info.kind = .node ∧ effect = .noop) ∨
        (info.kind ≠ .node ∧ ¬ t.HasLocal e ∧ effect = .addLsa e info) ∨
        (info.kind ≠ .node ∧ t.HasLocal e ∧ (effect = .noop ∨ effect = .updateLsa e info.cost))) := by
  have hlocal : t.HasLocal e ↔ ((t.routesOf e).filter fun route => route.via.isLocal) ≠ [] := by
    simp [HasLocal]
  unfold addEndpoint at h
  simp only [entryOr_routes] at h
  split at h
  · cases h
  · next hkind =>
    rw [not_not] at hkind
    refine ⟨kind_of_entryOr hkind, ?_⟩
    rw [hkind] at h
    unfold pushed
    cases hk : info.kind with
    | unicast =>
      simp only [hk] at h
      split at h
      · next hempty =>
        cases h
        refine ⟨fun _ => List.isEmpty_iff.mp hempty, by simp, Or.inr (Or.inl ⟨by simp, ?_, rfl⟩)⟩
        rw [hlocal, List.isEmpty_iff.mp hempty]
        simp
      · cases h
    | anycast =>
      simp only [hk] at h
      unfold minLocalCost at h
      refine ⟨by simp, ?_⟩
      split at h
      · next hmin =>
        cases h
        refine ⟨by simp, Or.inr (Or.inl ⟨by simp, ?_, rfl⟩)⟩
        rw [hlocal, not_not]
        rw [List.min?_eq_none_iff, List.map_eq_nil_iff] at hmin
        exact hmin
      · next previous hmin =>
        have hsome : t.HasLocal e := by
          rw [hlocal]
          intro hnil
          rw [hnil] at hmin
          cases hmin
        split at h
        · cases h
          exact ⟨by simp, Or.inr (Or.inr ⟨by simp, hsome, Or.inr rfl⟩)⟩
        · cases h
          exact ⟨by simp, Or.inr (Or.inr ⟨by simp, hsome, Or.inl rfl⟩)⟩
    | broadcast | multicast =>
      simp only [hk] at h
      refine ⟨by simp, ?_⟩
      split at h
      · next hany =>
        cases h
        exact ⟨by simp, Or.inr (Or.inr ⟨by simp, by simpa [HasLocal] using hany, Or.inl rfl⟩)⟩
      · next hany =>
        cases h
        exact ⟨by simp, Or.inr (Or.inl ⟨by simp, by simpa [HasLocal] using hany, rfl⟩)⟩
    | node =>
      simp only [hk] at h
      cases h
      refine ⟨by simp, ?_, Or.inl ⟨rfl, rfl⟩⟩
      have hentry : t.entryOr e .node = ⟨t.routesOf e, .node⟩ := by
        rw [← entryOr_routes t e .node]
        rw [hk] at hkind
        cases hent : t.entryOr e .node with
        | mk routes kind =>
          rw [hent] at hkind
          exact congrArg _ hkind
      rw [hentry]
      simp

/-- An accepted registration seen through the listeners: a node endpoint only gets an
entry; any other listener is added, and the effect asks for an advertisement exactly
when it is the first local one. -/
theorem addEndpoint_cases {effect : Effects}
    (h : t.addEndpoint e info sender = .ok (t', effect)) :
    (effect = .noop ∧ ∀ e', t'.HasLocal e' ↔ t.HasLocal e') ∨
    ((∀ e', t'.HasLocal e' ↔ e' = e ∨ t.HasLocal e') ∧
      ((effect = .addLsa e info ∧ ¬ t.HasLocal e) ∨
        ((effect = .noop ∨ effect = .updateLsa e info.cost) ∧ t.HasLocal e))) := by
  obtain ⟨_, _, rfl, heff⟩ := addEndpoint_spec h
  have hlocal : ∀ e', (t.setEntry e ⟨t.routesOf e ++ pushed info sender, info.kind⟩).HasLocal e' ↔
      (e' = e ∧ info.kind ≠ .node) ∨ t.HasLocal e' := by
    intro e'
    unfold HasLocal
    rw [routesOf_setEntry]
    by_cases heq : e' = e
    · subst heq
      by_cases hk : info.kind = .node
      · simp [pushed, hk]
      · simp [pushed, hk, LsForwardTo.isLocal]
    · simp [heq]
  rcases heff with ⟨hk, rfl⟩ | ⟨hk, hno, rfl⟩ | ⟨hk, hhas, heff⟩
  · exact Or.inl ⟨rfl, fun e' => (hlocal e').trans (by simp [hk])⟩
  · exact Or.inr ⟨fun e' => by simp [hlocal, hk], Or.inl ⟨rfl, hno⟩⟩
  · exact Or.inr ⟨fun e' => by simp [hlocal, hk], Or.inr ⟨heff, hhas⟩⟩

/-- Everything dropping the closed listeners can do: the advertisement is withdrawn
exactly when there was an entry and no route of it is left. -/
theorem removeEndpoint_cases (t : RouteTable) (w : Wires) (e : EndpointId) :
    (t.table.get e = none ∧ t.removeEndpoint w e = (t, .noop)) ∨
    ((∀ e', (t.removeEndpoint w e).1.routesOf e' =
        if e' = e then (t.routesOf e).filter (LsRoute.staysOpen w) else t.routesOf e') ∧
      (((t.removeEndpoint w e).2 = .removeLsa e ∧
          (t.routesOf e).filter (LsRoute.staysOpen w) = []) ∨
        (((t.removeEndpoint w e).2 = .noop ∨ (t.removeEndpoint w e).2 = .rebuildFib ∨
          ∃ c, (t.removeEndpoint w e).2 = .updateLsa e c) ∧
            (t.routesOf e).filter (LsRoute.staysOpen w) ≠ []))) := by
  unfold removeEndpoint
  cases he : t.table.get e with
  | none => exact Or.inl ⟨rfl, rfl⟩
  | some entry =>
    have hroutes : t.routesOf e = entry.routes := by simp [routesOf, he]
    rw [hroutes]
    simp only
    right
    split
    · next hempty =>
      refine ⟨fun e' => ?_, Or.inl ⟨rfl, List.isEmpty_iff.mp hempty⟩⟩
      rw [routesOf_removeEntry, List.isEmpty_iff.mp hempty]
    · next hempty =>
      rw [List.isEmpty_iff] at hempty
      have hset := fun e' => routesOf_setEntry t e e'
        { entry with routes := entry.routes.filter (LsRoute.staysOpen w) }
      generalize hrest : (if entry.routes.length ≠ (entry.routes.filter (LsRoute.staysOpen w)).length
        then Effects.rebuildFib else .noop) = rest
      have hquiet : rest = .noop ∨ rest = .rebuildFib ∨ ∃ c, rest = .updateLsa e c := by
        rw [← hrest]
        split
        · exact Or.inr (Or.inl rfl)
        · exact Or.inl rfl
      split
      · split
        · next cost _ =>
          split
          · exact ⟨hset, Or.inr ⟨Or.inr (Or.inr ⟨cost, rfl⟩), hempty⟩⟩
          · exact ⟨hset, Or.inr ⟨hquiet, hempty⟩⟩
        · exact ⟨hset, Or.inr ⟨hquiet, hempty⟩⟩
      · exact ⟨hset, Or.inr ⟨hquiet, hempty⟩⟩

/-- Everything an accepted cost change can do: nothing, or one listener of an anycast
entry gets the new cost. -/
theorem setAnycastCost_cases {cost : Cost} {outcome : SetAnycastCostOutcome}
    (h : t.setAnycastCost e sender cost = .ok (t', outcome)) :
    (t' = t ∧ outcome = .unchanged) ∨
    ∃ entry previous advertise, t.table.get e = some entry ∧ entry.kind = .anycast ∧
      t' = t.setEntry e { entry with
        routes := modifyFirst (fun route => route.isLocalTo sender)
          (fun route => { route with cost := cost }) entry.routes } ∧
      outcome = .changed previous cost advertise := by
  unfold setAnycastCost at h
  cases he : t.table.get e with
  | none => simp [he] at h
  | some entry =>
    simp only [he] at h
    split at h
    · cases h
    · next hkind =>
      split at h
      · cases h
      · split at h
        · cases h
          exact Or.inl ⟨rfl, rfl⟩
        · cases h
          exact Or.inr ⟨entry, _, _, rfl, not_not.mp hkind, rfl, rfl⟩

/-- Changing a listener's cost leaves where the routes lead. -/
theorem setAnycastCost_via {cost : Cost} {outcome : SetAnycastCostOutcome}
    (h : t.setAnycastCost e sender cost = .ok (t', outcome)) (e' : EndpointId) :
    (t'.routesOf e').map LsRoute.via = (t.routesOf e').map LsRoute.via := by
  rcases setAnycastCost_cases h with ⟨rfl, _⟩ | ⟨entry, _, _, he, _, rfl, _⟩
  · rfl
  · have hroutes : t.routesOf e = entry.routes := by simp [routesOf, he]
    rw [routesOf_setEntry]
    split
    · next heq =>
      rw [heq, hroutes]
      exact map_via_modifyFirst (by exact fun _ => rfl) _
    · rfl

end Local

section Kinds

variable {t t' : RouteTable} {e e' : EndpointId} {k : RouteKind}

/-- The kind of an endpoint's entry. -/
def kindAt (t : RouteTable) (e : EndpointId) : Option RouteKind :=
  (t.table.get e).map LsRouteEntry.kind

theorem kindAt_setEntry (t : RouteTable) (e e' : EndpointId) (entry : LsRouteEntry) :
    (t.setEntry e entry).kindAt e' = if e' = e then some entry.kind else t.kindAt e' := by
  unfold kindAt
  rw [get_setEntry]
  split <;> rfl

theorem kindAt_removeEntry (t : RouteTable) (e e' : EndpointId) :
    (t.removeEntry e).kindAt e' = if e' = e then none else t.kindAt e' := by
  unfold kindAt
  rw [get_removeEntry]
  split <;> rfl

/-- Without an entry there are no routes. -/
theorem routesOf_eq_nil_of_kindAt (h : t.kindAt e = none) : t.routesOf e = [] := by
  rw [kindAt, Option.map_eq_none_iff] at h
  simp [routesOf, h]

/-- Dropping routes never changes the kind of an entry that stays. -/
theorem kindAt_of_removeRemoteEndpoint {origin : NodeId}
    (h : (t.removeRemoteEndpoint e origin).1.kindAt e' = some k) : t.kindAt e' = some k := by
  unfold removeRemoteEndpoint at h
  cases he : t.table.get e with
  | none =>
    simp only [he] at h
    exact h
  | some entry =>
    simp only [he] at h
    split at h
    · rw [kindAt_removeEntry] at h
      split at h
      · cases h
      · exact h
    · rw [kindAt_setEntry] at h
      split at h
      · next heq =>
        rw [heq, kindAt, he]
        exact h
      · exact h

theorem kindAt_of_removeEndpoint {w : Wires} (h : (t.removeEndpoint w e).1.kindAt e' = some k) :
    t.kindAt e' = some k := by
  unfold removeEndpoint at h
  cases he : t.table.get e with
  | none =>
    simp only [he] at h
    exact h
  | some entry =>
    have hset : ∀ routes, (t.setEntry e { entry with routes := routes }).kindAt e' = some k →
        t.kindAt e' = some k := by
      intro routes hs
      rw [kindAt_setEntry] at hs
      split at hs
      · next heq =>
        rw [heq, kindAt, he]
        exact hs
      · exact hs
    simp only [he] at h
    split at h
    · rw [kindAt_removeEntry] at h
      split at h
      · cases h
      · exact h
    · split at h
      · split at h
        · split at h <;> exact hset _ h
        · exact hset _ h
      · exact hset _ h

/-- A new entry takes the kind of its first route. -/
theorem kindAt_of_addRemoteEndpoint {origin : NodeId} {info : EndpointInfo} {eff : Effects}
    (hadd : t.addRemoteEndpoint e origin info = .ok (t', eff)) (h : t'.kindAt e' = some k) :
    t.kindAt e' = some k ∨ (e' = e ∧ t.kindAt e = none ∧ k = info.kind) := by
  obtain ⟨hkind, hget⟩ := addRemoteEndpoint_spec hadd
  unfold kindAt at h ⊢
  rw [hget] at h
  split at h
  · next heq =>
    simp only [Option.map_some, Option.some.injEq] at h
    cases he : t.table.get e with
    | none => exact Or.inr ⟨heq, rfl, h.symm⟩
    | some entry =>
      left
      rw [heq, he, Option.map_some, hkind entry he, h]
  · exact Or.inl h

theorem kindAt_addEndpoint {info : EndpointInfo} {sender : Sender} {effect : Effects}
    (hadd : t.addEndpoint e info sender = .ok (t', effect)) :
    t'.kindAt e' = if e' = e then some info.kind else t.kindAt e' := by
  obtain ⟨_, _, rfl, _⟩ := addEndpoint_spec hadd
  exact kindAt_setEntry _ _ _ _

theorem kindAt_setAnycastCost {sender : Sender} {cost : Cost} {outcome : SetAnycastCostOutcome}
    (hset : t.setAnycastCost e sender cost = .ok (t', outcome)) : t'.kindAt e' = t.kindAt e' := by
  rcases setAnycastCost_cases hset with ⟨rfl, _⟩ | ⟨entry, _, _, he, _, rfl, _⟩
  · rfl
  · rw [kindAt_setEntry]
    split
    · next heq => simp [heq, kindAt, he]
    · rfl

end Kinds

section Lists

variable {t t' : RouteTable} {e : EndpointId}

/-- The listeners of an endpoint. -/
def localsOf (t : RouteTable) (e : EndpointId) : List LsRoute :=
  (t.routesOf e).filter fun r => r.via.isLocal

/-- The routes of an endpoint to one advertiser. -/
def remotesOf (t : RouteTable) (e : EndpointId) (origin : NodeId) : List LsRoute :=
  (t.routesOf e).filter fun r => r.isRemoteOf origin

theorem localsOf_eq_nil_iff : t.localsOf e = [] ↔ ¬ t.HasLocal e := by
  simp [localsOf, HasLocal]

theorem localsOf_removeRemoteEndpoint (t : RouteTable) (e : EndpointId) (origin : NodeId)
    (e' : EndpointId) : (t.removeRemoteEndpoint e origin).1.localsOf e' = t.localsOf e' := by
  unfold localsOf
  rw [routesOf_removeRemoteEndpoint]
  split
  · next heq =>
    rw [heq, List.filter_filter]
    refine List.filter_congr fun r _ => ?_
    cases hv : r.via <;> simp [LsForwardTo.isLocal, LsRoute.isRemoteOf, hv]
  · rfl

theorem remotesOf_removeRemoteEndpoint (t : RouteTable) (e : EndpointId) (origin : NodeId)
    (e' : EndpointId) (origin' : NodeId) :
    (t.removeRemoteEndpoint e origin).1.remotesOf e' origin' =
      if e' = e ∧ origin' = origin then [] else t.remotesOf e' origin' := by
  unfold remotesOf
  rw [routesOf_removeRemoteEndpoint]
  by_cases heq : e' = e
  · subst heq
    rw [if_pos rfl, List.filter_filter]
    by_cases ho : origin' = origin
    · simp [ho]
    · rw [if_neg (by simp [ho])]
      refine List.filter_congr fun r _ => ?_
      simp only [LsRoute.isRemoteOf]
      by_cases hv : r.via = .remote origin'
      · simp [hv, ho]
      · simp [hv]
  · simp [heq]

/-- Learning of an advertiser leaves the listeners alone. -/
theorem localsOf_learned (routes : List LsRoute) (origin : NodeId) (info : EndpointInfo) :
    (learned routes origin info).filter (fun r => r.via.isLocal) =
      routes.filter fun r => r.via.isLocal := by
  unfold learned
  split
  · next hany =>
    clear hany
    induction routes with
    | nil => rfl
    | cons r l ih =>
      unfold modifyFirst
      split
      · next hr =>
        have hv : r.via = .remote origin := of_decide_eq_true hr
        simp [hv, LsForwardTo.isLocal]
      · rw [List.filter_cons, List.filter_cons, ih]
  · simp [LsForwardTo.isLocal]

theorem localsOf_addRemoteEndpoint {origin : NodeId} {info : EndpointInfo} {eff : Effects}
    (h : t.addRemoteEndpoint e origin info = .ok (t', eff)) (e' : EndpointId) :
    t'.localsOf e' = t.localsOf e' := by
  unfold localsOf
  rw [routesOf_addRemoteEndpoint h]
  split
  · next heq => rw [heq, localsOf_learned]
  · rfl

/-- The routes to an advertiser after it was learned, if there was at most one. -/
theorem remotesOf_learned {routes : List LsRoute} {origin : NodeId} {info : EndpointInfo}
    (origin' : NodeId) (hone : (routes.filter fun r => r.isRemoteOf origin).length ≤ 1)
    (hkind : ∀ r ∈ routes, r.isRemoteOf origin = true → r.kind = info.kind) :
    (learned routes origin info).filter (fun r => r.isRemoteOf origin') =
      if origin' = origin then [⟨.remote origin, info.cost, info.realm, info.kind⟩]
      else routes.filter fun r => r.isRemoteOf origin' := by
  unfold learned
  split
  · next hany =>
    induction routes with
    | nil => simp at hany
    | cons r l ih =>
      unfold modifyFirst
      by_cases hr : r.isRemoteOf origin = true
      · have hv : r.via = .remote origin := of_decide_eq_true hr
        have hk := hkind r List.mem_cons_self hr
        have hrest : l.filter (fun r => r.isRemoteOf origin) = [] := by
          rw [List.filter_cons, if_pos hr, List.length_cons] at hone
          exact List.eq_nil_of_length_eq_zero (by omega)
        rw [if_pos hr]
        by_cases ho : origin' = origin
        · subst ho
          have hroute : ({ r with cost := info.cost, realm := info.realm } : LsRoute) =
              ⟨.remote origin', info.cost, info.realm, info.kind⟩ := by rw [hv, hk]
          rw [hroute, List.filter_cons, if_pos (by simp [LsRoute.isRemoteOf]), hrest, if_pos rfl]
        · simp [LsRoute.isRemoteOf, hv, ho, Ne.symm ho]
      · have hr' : r.isRemoteOf origin = false := by simpa using hr
        rw [if_neg hr]
        rw [List.filter_cons, if_neg hr] at hone
        have hany' : l.any (fun r => r.isRemoteOf origin) = true := by simpa [hr'] using hany
        have hih := ih hone (fun x hx => hkind x (List.mem_cons_of_mem _ hx)) hany'
        rw [List.filter_cons, hih, List.filter_cons]
        by_cases ho : origin' = origin
        · subst ho
          simp [hr']
        · simp [ho]
  · next hany =>
    have hnone : routes.filter (fun r => r.isRemoteOf origin) = [] := by
      rw [List.filter_eq_nil_iff]
      exact List.any_eq_false.mp (by simpa using hany)
    rw [List.filter_append]
    by_cases ho : origin' = origin
    · subst ho
      rw [hnone, if_pos rfl]
      simp [LsRoute.isRemoteOf]
    · simp [LsRoute.isRemoteOf, ho, Ne.symm ho]

/-- Registrations leave the advertisers alone. -/
theorem remotesOf_addEndpoint {info : EndpointInfo} {sender : Sender} {effect : Effects}
    (h : t.addEndpoint e info sender = .ok (t', effect)) (e' : EndpointId) (origin : NodeId) :
    t'.remotesOf e' origin = t.remotesOf e' origin := by
  obtain ⟨_, _, rfl, _⟩ := addEndpoint_spec h
  unfold remotesOf
  rw [routesOf_setEntry]
  split
  · next heq =>
    subst heq
    rw [List.filter_append]
    unfold pushed
    split <;> simp [LsRoute.isRemoteOf]
  · rfl

theorem localsOf_addEndpoint {info : EndpointInfo} {sender : Sender} {effect : Effects}
    (h : t.addEndpoint e info sender = .ok (t', effect)) (e' : EndpointId) :
    t'.localsOf e' = if e' = e then t.localsOf e ++ pushed info sender else t.localsOf e' := by
  obtain ⟨_, _, rfl, _⟩ := addEndpoint_spec h
  unfold localsOf
  rw [routesOf_setEntry]
  split
  · rw [List.filter_append]
    unfold pushed
    split <;> simp [LsForwardTo.isLocal]
  · rfl

/-- Dropping closed listeners drops nothing else. -/
theorem routesOf_removeEndpoint (t : RouteTable) (w : Wires) (e e' : EndpointId) :
    (t.removeEndpoint w e).1.routesOf e' =
      if e' = e then (t.routesOf e).filter (LsRoute.staysOpen w) else t.routesOf e' := by
  rcases t.removeEndpoint_cases w e with ⟨hnone, heq⟩ | ⟨hroutes, _⟩
  · rw [heq]
    split
    · next he => simp [he, routesOf, hnone]
    · rfl
  · exact hroutes e'

theorem remotesOf_removeEndpoint (t : RouteTable) (w : Wires) (e e' : EndpointId) (origin : NodeId) :
    (t.removeEndpoint w e).1.remotesOf e' origin = t.remotesOf e' origin := by
  unfold remotesOf
  rw [routesOf_removeEndpoint]
  split
  · next heq =>
    rw [heq, List.filter_filter]
    refine List.filter_congr fun r _ => ?_
    cases hv : r.via <;> simp [LsRoute.staysOpen, LsRoute.isRemoteOf, hv]
  · rfl

theorem localsOf_removeEndpoint (t : RouteTable) (w : Wires) (e e' : EndpointId) :
    (t.removeEndpoint w e).1.localsOf e' =
      if e' = e then (t.localsOf e).filter (LsRoute.staysOpen w) else t.localsOf e' := by
  unfold localsOf
  rw [routesOf_removeEndpoint]
  split
  · rw [List.filter_filter, List.filter_filter]
    exact List.filter_congr fun r _ => Bool.and_comm _ _
  · rfl

/-- Changing the cost of a listener changes nothing else about the routes. -/
theorem modifyFirst_cost (sender : Sender) (cost : Cost) (routes : List LsRoute) :
    ((modifyFirst (fun route => route.isLocalTo sender) (fun route => { route with cost := cost })
      routes).filter fun r => r.via.isLocal).map LsRoute.realm =
        (routes.filter fun r => r.via.isLocal).map LsRoute.realm ∧
      ∀ origin, (modifyFirst (fun route => route.isLocalTo sender)
        (fun route => { route with cost := cost }) routes).filter (fun r => r.isRemoteOf origin) =
          routes.filter fun r => r.isRemoteOf origin := by
  induction routes with
  | nil => exact ⟨rfl, fun _ => rfl⟩
  | cons r l ih =>
    unfold modifyFirst
    by_cases hr : r.isLocalTo sender = true
    · have hv : r.via = .loc sender := of_decide_eq_true hr
      rw [if_pos hr]
      simp [hv, LsForwardTo.isLocal, LsRoute.isRemoteOf]
    · rw [if_neg hr]
      refine ⟨?_, fun origin => ?_⟩
      · rw [List.filter_cons, List.filter_cons]
        split
        · rw [List.map_cons, List.map_cons, ih.1]
        · exact ih.1
      · rw [List.filter_cons, List.filter_cons, ih.2]

theorem setAnycastCost_frame {sender : Sender} {cost : Cost} {outcome : SetAnycastCostOutcome}
    (h : t.setAnycastCost e sender cost = .ok (t', outcome)) (e' : EndpointId) :
    (t'.localsOf e').map LsRoute.realm = (t.localsOf e').map LsRoute.realm ∧
      ∀ origin, t'.remotesOf e' origin = t.remotesOf e' origin := by
  rcases setAnycastCost_cases h with ⟨rfl, _⟩ | ⟨entry, _, _, he, _, rfl, _⟩
  · exact ⟨rfl, fun _ => rfl⟩
  · have hroutes : t.routesOf e = entry.routes := by simp [routesOf, he]
    unfold localsOf remotesOf
    rw [routesOf_setEntry]
    split
    · next heq =>
      rw [heq, hroutes]
      exact modifyFirst_cost sender cost entry.routes
    · exact ⟨rfl, fun _ => rfl⟩

end Lists

end RouteTable

end Anybus
