import Anybus.Db.AdvertisedRealm

/-!
# The cost an anycast endpoint is advertised with

The advertised cost follows the least cost of the local listeners. Registering a
listener, changing a cost and dropping closed listeners each compare the minimum
before and after and report a difference, and carrying out what they report brings
the own record up to it.
-/

namespace Anybus

/-- An effect concerns at most the record of one endpoint. -/
def Effects.Concerns (e : EndpointId) : Effects → Prop
  | .addLsa e' _ | .updateLsa e' _ | .removeLsa e' => e' = e
  | .rebuildFib | .noop => True

/-- An effect takes the advertised cost of an endpoint from the old to the new minimum. -/
def Effects.Follows (e : EndpointId) (old new : Option Cost) : Effects → Prop
  | .addLsa e' info => e' = e ∧ new = some info.cost
  | .updateLsa e' c => e' = e ∧ new = some c ∧ old.isSome
  | .removeLsa e' => e' = e ∧ new = none
  | .rebuildFib | .noop => new = none ∨ new = old

/-- One more listener lowers the minimum to its cost or leaves it. -/
theorem minLocalCost_append {routes : List LsRoute} {r : LsRoute} (hr : r.via.isLocal = true) :
    minLocalCost (routes ++ [r]) =
      some (match minLocalCost routes with
        | some previous => if r.cost < previous then r.cost else previous
        | none => r.cost) := by
  have hcosts : ((routes ++ [r]).filter fun route => route.via.isLocal).map (fun route => route.cost) =
      ((routes.filter fun route => route.via.isLocal).map fun route => route.cost) ++ [r.cost] := by
    simp [hr]
  unfold minLocalCost
  rw [hcosts]
  cases hm : ((routes.filter fun route => route.via.isLocal).map fun route => route.cost).min? with
  | none =>
    rw [List.min?_eq_none_iff.mp hm]
    rfl
  | some previous =>
    obtain ⟨hmem, hle⟩ := List.min?_eq_some_iff.mp hm
    apply List.min?_eq_some_iff.mpr
    simp only
    split
    · next hlt =>
      refine ⟨by simp, fun c hc => ?_⟩
      rcases List.mem_append.mp hc with hc | hc
      · exact hlt.le.trans (hle c hc)
      · rw [List.mem_singleton.mp hc]
    · next hge =>
      refine ⟨List.mem_append_left _ hmem, fun c hc => ?_⟩
      rcases List.mem_append.mp hc with hc | hc
      · exact hle c hc
      · rw [List.mem_singleton.mp hc]
        exact not_lt.mp hge

namespace RouteTable

variable {t t' : RouteTable} {e : EndpointId}

/-- The least cost among the listeners of an endpoint. -/
def minAt (t : RouteTable) (e : EndpointId) : Option Cost := minLocalCost (t.routesOf e)

theorem minAt_of_localsOf {t t' : RouteTable} {e : EndpointId} (h : t'.localsOf e = t.localsOf e) :
    t'.minAt e = t.minAt e := by
  change ((t'.localsOf e).map fun route => route.cost).min? = _
  rw [h]
  rfl

theorem minAt_setEntry (entry : LsRouteEntry) :
    (t.setEntry e entry).minAt e = minLocalCost entry.routes := by
  rw [minAt, routesOf_setEntry, if_pos rfl]

theorem addEndpoint_follows {info : EndpointInfo} {sender : Sender} {effect : Effects}
    (h : t.addEndpoint e info sender = .ok (t', effect)) (hk : info.kind = .anycast) :
    effect.Follows e (t.minAt e) (t'.minAt e) := by
  have hroutes := entryOr_routes t e info.kind
  unfold addEndpoint at h
  simp only [hk] at h hroutes
  split at h
  · cases h
  · split at h
    · next hm =>
      cases h
      refine ⟨rfl, ?_⟩
      rw [minAt_setEntry, minLocalCost_append rfl, hm]
    · next previous hm =>
      have hold : t.minAt e = some previous := by
        rw [minAt, ← hroutes, hm]
      split at h
      · next hlt =>
        cases h
        refine ⟨rfl, ?_, by rw [hold]; rfl⟩
        rw [minAt_setEntry, minLocalCost_append rfl, hm]
        exact congrArg some (if_pos hlt)
      · next hge =>
        cases h
        refine Or.inr ?_
        rw [hold, minAt_setEntry, minLocalCost_append rfl, hm]
        exact congrArg some (if_neg hge)

theorem removeEndpoint_follows {w : Wires} (hk : t.kindAt e = some .anycast) :
    (t.removeEndpoint w e).2.Follows e (t.minAt e) ((t.removeEndpoint w e).1.minAt e) := by
  unfold kindAt at hk
  obtain ⟨entry, he, hkind⟩ := Option.map_eq_some_iff.mp hk
  have hold : t.minAt e = minLocalCost entry.routes := by simp [minAt, routesOf, he]
  unfold removeEndpoint
  simp only [he, hkind, if_true]
  split
  · refine ⟨rfl, ?_⟩
    simp [minAt, routesOf, removeEntry, minLocalCost]
  · split
    · next cost hm =>
      split
      · next hne =>
        refine ⟨rfl, by rw [minAt_setEntry, hm], ?_⟩
        rw [hold]
        -- A listener that stays was there before.
        by_contra hnone
        rw [Option.not_isSome_iff_eq_none, minLocalCost, List.min?_eq_none_iff,
          List.map_eq_nil_iff] at hnone
        obtain ⟨hmem, _⟩ := List.min?_eq_some_iff.mp hm
        obtain ⟨r, hr, _⟩ := List.mem_map.mp hmem
        obtain ⟨hr, hlocal⟩ := List.mem_filter.mp hr
        have hin : r ∈ entry.routes.filter fun route => route.via.isLocal :=
          List.mem_filter.mpr ⟨(List.mem_filter.mp hr).1, hlocal⟩
        rw [hnone] at hin
        cases hin
      · next heq =>
        split
        all_goals
          refine Or.inr ?_
          rw [minAt_setEntry, hold, hm, not_not.mp heq]
    · next hm =>
      split
      all_goals
        refine Or.inl ?_
        rw [minAt_setEntry, hm]

/-- A changed cost is reported exactly if it changes the minimum. -/
theorem setAnycastCost_follows {sender : Sender} {cost : Cost} {outcome : SetAnycastCostOutcome}
    (h : t.setAnycastCost e sender cost = .ok (t', outcome)) :
    (∃ previous c, outcome = .changed previous cost (some c) ∧ t'.minAt e = some c ∧
      (t.minAt e).isSome) ∨
    ((∀ previous c, outcome ≠ .changed previous cost (some c)) ∧ t'.minAt e = t.minAt e) := by
  unfold setAnycastCost at h
  cases he : t.table.get e with
  | none => simp [he] at h
  | some entry =>
    have hold : t.minAt e = minLocalCost entry.routes := by simp [minAt, routesOf, he]
    simp only [he] at h
    split at h
    · cases h
    · split at h
      · cases h
      · next route hfind =>
        split at h
        · cases h
          refine Or.inr ⟨?_, rfl⟩
          intro _ _ heq
          cases heq
        · have hlocals := (modifyFirst_cost sender cost entry.routes).1
          have hin : route ∈ entry.routes.filter fun r => r.via.isLocal := by
            have hto := List.find?_some hfind
            have hv : route.via = .loc sender := of_decide_eq_true hto
            exact List.mem_filter.mpr ⟨List.mem_of_find?_eq_some hfind, by rw [hv]; rfl⟩
          cases h
          rw [minAt_setEntry, hold]
          cases hmin : minLocalCost entry.routes with
          | none =>
            rw [minLocalCost, List.min?_eq_none_iff, List.map_eq_nil_iff] at hmin
            rw [hmin] at hin
            cases hin
          | some old =>
            cases hnew : minLocalCost (modifyFirst (fun route => route.isLocalTo sender)
                (fun route => { route with cost := cost }) entry.routes) with
            | none =>
              rw [minLocalCost, List.min?_eq_none_iff, List.map_eq_nil_iff] at hnew
              rw [hnew, List.map_nil, eq_comm, List.map_eq_nil_iff] at hlocals
              rw [hlocals] at hin
              cases hin
            | some newMin =>
              by_cases hne : old = newMin
              · exact Or.inr ⟨fun _ _ heq => by simp [hne] at heq, by rw [hne]⟩
              · exact Or.inl ⟨route.cost, newMin, by simp [hne], rfl, rfl⟩

end RouteTable

/-- The cost a record is advertised with, if it describes an endpoint. -/
def LsaRecord.cost (r : LsaRecord) : Option Cost :=
  match r.lsa.body with
  | .endpoint info => some info.cost
  | .router _ => none

namespace LsDb

/-- The cost the node advertises an endpoint with. -/
def costAt (db : LsDb) (e : EndpointId) : Option Cost :=
  (db.db.get ⟨db.selfId, e⟩).bind LsaRecord.cost

/-- Every anycast endpoint with listeners is advertised with their least cost. -/
def CostsLive (db : LsDb) : Prop :=
  ∀ e c, db.routes.kindAt e = some .anycast → db.routes.minAt e = some c → db.costAt e = some c

section Records

variable (db : LsDb) (now : Instant)

/-- A changed cost is advertised if the endpoint is. -/
theorem cost_recosted (e : EndpointId) (c : Cost) (e' : EndpointId) :
    ((db.recosted e c now).get ⟨db.selfId, e'⟩).bind LsaRecord.cost =
      if e' = e ∧ (db.costAt e).isSome then some c else db.costAt e' := by
  cases hr : db.db.get ⟨db.selfId, e⟩ with
  | none =>
    have hnone : db.costAt e = none := by rw [costAt, hr]; rfl
    simp only [recosted, hr, hnone, Option.isSome_none, Bool.false_eq_true, and_false, if_false]
    rfl
  | some record =>
    cases hb : record.lsa.body with
    | router adjs =>
      have hnone : db.costAt e = none := by simp [costAt, hr, LsaRecord.cost, hb]
      simp only [recosted, hr, hb, hnone, Option.isSome_none, Bool.false_eq_true, and_false, if_false]
      rfl
    | endpoint body =>
      have hsome : db.costAt e = some body.cost := by simp [costAt, hr, LsaRecord.cost, hb]
      simp only [recosted, hr, hb, hsome, Option.isSome_some, and_true]
      by_cases hc : body.cost = c
      · rw [if_pos hc]
        split
        · next he =>
          rw [he, ← hc]
          exact hsome
        · rfl
      · rw [if_neg hc, HashMap.get_insert]
        by_cases he : e' = e
        · rw [he, if_pos rfl, if_pos rfl]
          rfl
        · rw [if_neg he, if_neg fun hkey => he (LsaKey.mk.inj hkey).2]
          rfl

/-- Carrying out an effect leaves the other endpoints. -/
theorem cost_carriedOut_of_ne {e e' : EndpointId} {effect : Effects} (h : effect.Concerns e)
    (hne : e' ≠ e) :
    ((db.carriedOut now effect).get ⟨db.selfId, e'⟩).bind LsaRecord.cost = db.costAt e' := by
  cases effect with
  | addLsa e₁ info =>
    obtain rfl := h
    rw [carriedOut, HashMap.get_insert, if_neg fun hkey => hne (LsaKey.mk.inj hkey).2]
    rfl
  | updateLsa e₁ c₁ =>
    obtain rfl := h
    rw [carriedOut, cost_recosted, if_neg fun h => hne h.1]
  | removeLsa e₁ =>
    obtain rfl := h
    simp only [carriedOut]
    split
    · rw [HashMap.get_erase, if_neg fun hkey => hne (LsaKey.mk.inj hkey).2]
      rfl
    · rfl
  | rebuildFib => rfl
  | noop => rfl

/-- Carrying out an effect that follows the minimum brings the advertised cost up to it. -/
theorem cost_carriedOut {e : EndpointId} {old : Option Cost} {c : Cost} {effect : Effects}
    (h : effect.Follows e old (some c)) (hold : ∀ c', old = some c' → db.costAt e = some c') :
    ((db.carriedOut now effect).get ⟨db.selfId, e⟩).bind LsaRecord.cost = some c := by
  cases effect with
  | addLsa e₁ info =>
    obtain ⟨rfl, hc⟩ := h
    rw [carriedOut, HashMap.get_insert, if_pos rfl]
    exact hc.symm
  | updateLsa e₁ c₁ =>
    obtain ⟨rfl, hc, hsome⟩ := h
    obtain ⟨c₀, rfl⟩ := Option.isSome_iff_exists.mp hsome
    rw [carriedOut, cost_recosted, if_pos ⟨rfl, by rw [hold c₀ rfl]; rfl⟩, hc]
  | removeLsa e₁ => cases h.2
  | rebuildFib =>
    rcases h with h | h
    · cases h
    · exact hold c h.symm
  | noop =>
    rcases h with h | h
    · cases h
    · exact hold c h.symm

end Records

/-- What keeps the advertised costs. -/
theorem CostsLive.of_frame {db db' : LsDb} (h : db.CostsLive)
    (hrec : ∀ e c, db.costAt e = some c → db'.costAt e = some c)
    (hkind : ∀ e, db'.routes.kindAt e = some .anycast → (db'.routes.minAt e).isSome →
      db.routes.kindAt e = some .anycast)
    (hmin : ∀ e, db'.routes.minAt e = db.routes.minAt e) : db'.CostsLive := by
  intro e c hk hm
  have hold := hmin e
  rw [hm] at hold
  exact hrec e c (h e c (hkind e hk (by rw [hm]; rfl)) hold.symm)

section Step

variable {db db' : LsDb} {w : Wires}

/-- An operation on the listeners of one endpoint. -/
theorem CostsLive.of_effect {e : EndpointId} {t : RouteTable} (h : db.CostsLive) (now : Instant)
    (effect : Effects) (hself : db'.selfId = db.selfId) (hdb : db'.db = db.carriedOut now effect)
    (hroutes : db'.routes = t) (hconcerns : effect.Concerns e)
    (hother : ∀ e', e' ≠ e → (t.kindAt e' = some .anycast → db.routes.kindAt e' = some .anycast) ∧
      t.minAt e' = db.routes.minAt e')
    (hfollows : t.kindAt e = some .anycast → effect.Follows e (db.routes.minAt e) (t.minAt e))
    (hkind : t.kindAt e = some .anycast → (db.routes.minAt e).isSome →
      db.routes.kindAt e = some .anycast) : db'.CostsLive := by
  intro e' c hk hm
  rw [hroutes] at hk hm
  rw [costAt, hself, hdb]
  by_cases he : e' = e
  · subst he
    have hf := hfollows hk
    rw [hm] at hf
    refine cost_carriedOut db now hf fun c' hc' => h e' c' (hkind hk (by rw [hc']; rfl)) hc'
  · obtain ⟨hk', hm'⟩ := hother e' he
    rw [cost_carriedOut_of_ne db now hconcerns he]
    exact h e' c (hk' hk) (hm' ▸ hm)

variable {now : Instant}

theorem costAt_eq (db : LsDb) (e : EndpointId) : db.costAt e = (db.infoAt e).map EndpointInfo.cost := by
  unfold costAt infoAt
  cases db.db.get ⟨db.selfId, e⟩ with
  | none => rfl
  | some r =>
    unfold LsaRecord.cost LsaRecord.info
    cases hb : r.lsa.body <;> simp [hb]

theorem CostsLive.addEndpoint {request : RegistrationRequest} {t : RouteTable} {effect : Effects}
    (h : db.CostsLive) (hself : db'.selfId = db.selfId)
    (hadd : db.routes.addEndpoint request.endpointId request.endpointInfo request.sender =
      .ok (t, effect)) (hdb : db'.db = db.carriedOut now effect) (hroutes : db'.routes = t) :
    db'.CostsLive := by
  have hkindAt : ∀ e', t.kindAt e' = if e' = request.endpointId then some request.endpointInfo.kind
      else db.routes.kindAt e' := fun e' => RouteTable.kindAt_addEndpoint hadd
  obtain ⟨hsame, _, _, heff⟩ := RouteTable.addEndpoint_spec hadd
  refine h.of_effect (e := request.endpointId) now effect hself hdb hroutes ?_ (fun e' he => ⟨fun hk => ?_, ?_⟩)
    (fun hk => ?_) fun hk hsome => ?_
  · rcases heff with ⟨_, rfl⟩ | ⟨_, _, rfl⟩ | ⟨_, _, rfl | rfl⟩
    · trivial
    · rfl
    · trivial
    · rfl
  · rwa [hkindAt, if_neg he] at hk
  · apply RouteTable.minAt_of_localsOf
    rw [RouteTable.localsOf_addEndpoint hadd, if_neg he]
  · rw [hkindAt, if_pos rfl, Option.some.injEq] at hk
    exact RouteTable.addEndpoint_follows hadd hk
  · rw [hkindAt, if_pos rfl, Option.some.injEq] at hk
    cases hold : db.routes.kindAt request.endpointId with
    | none =>
      rw [RouteTable.minAt, RouteTable.routesOf_eq_nil_of_kindAt hold] at hsome
      cases hsome
    | some k =>
      obtain ⟨entry, hentry, rfl⟩ := Option.map_eq_some_iff.mp hold
      rw [hsame entry hentry, hk]

theorem CostsLive.removeEndpoint {e : EndpointId} (h : db.CostsLive) (hself : db'.selfId = db.selfId)
    (hdb : db'.db = db.carriedOut now (db.routes.removeEndpoint w e).2)
    (hroutes : db'.routes = (db.routes.removeEndpoint w e).1) : db'.CostsLive := by
  refine h.of_effect (e := e) now _ hself hdb hroutes ?_
    (fun e' he => ⟨RouteTable.kindAt_of_removeEndpoint, ?_⟩)
    (fun hk => RouteTable.removeEndpoint_follows (RouteTable.kindAt_of_removeEndpoint hk))
    fun hk _ => RouteTable.kindAt_of_removeEndpoint hk
  · rcases db.routes.removeEndpoint_cases w e with ⟨_, heq⟩ | ⟨_, ⟨heq, _⟩ | ⟨heq, _⟩⟩
    · rw [heq]
      trivial
    · rw [heq]
      rfl
    · rcases heq with heq | heq | ⟨c, heq⟩
      · rw [heq]
        trivial
      · rw [heq]
        trivial
      · rw [heq]
        rfl
  · apply RouteTable.minAt_of_localsOf
    rw [RouteTable.localsOf_removeEndpoint, if_neg he]

/-- A cost change is taken together with the advertisement that follows it. -/
theorem CostsLive.changeAnycastCost (h : db.CostsLive) (e : EndpointId) (sender : Sender)
    (cost : Cost) : (db.changeAnycastCost w e sender cost now).1.CostsLive := by
  unfold LsDb.changeAnycastCost LsDb.setAnycastCost
  cases hset : db.routes.setAnycastCost e sender cost with
  | error err => exact h
  | ok p =>
    obtain ⟨t, outcome⟩ := p
    have hother : ∀ e', e' ≠ e → (t.kindAt e' = some .anycast →
        db.routes.kindAt e' = some .anycast) ∧ t.minAt e' = db.routes.minAt e' := by
      intro e' he
      refine ⟨fun hk => by rwa [RouteTable.kindAt_setAnycastCost hset] at hk, ?_⟩
      rcases RouteTable.setAnycastCost_cases hset with ⟨rfl, _⟩ | ⟨_, _, _, _, _, rfl, _⟩
      · rfl
      · rw [RouteTable.minAt, RouteTable.routesOf_setEntry, if_neg he]
        rfl
    have hkind : t.kindAt e = some .anycast → (db.routes.minAt e).isSome →
        db.routes.kindAt e = some .anycast := by
      intro hk _
      rwa [RouteTable.kindAt_setAnycastCost hset] at hk
    rcases RouteTable.setAnycastCost_follows hset with ⟨previous, c, rfl, hnew, hold⟩ | ⟨hno, hsame⟩
    · obtain ⟨hparts, hself⟩ := updateEndpointCost_parts { db with routes := t } w now e c
      exact h.of_effect now (.updateLsa e c) hself
        (congrArg Parts.records hparts) (congrArg Parts.routes hparts) rfl hother
        (fun _ => ⟨rfl, hnew, hold⟩) hkind
    · have hquiet : ({ db with routes := t } : LsDb).CostsLive :=
        h.of_effect now .noop rfl rfl rfl trivial hother
          (fun _ => Or.inr hsame) hkind
      cases outcome with
      | unchanged => exact hquiet
      | changed previous new advertise =>
        cases advertise with
        | none => exact hquiet
        | some c =>
          rcases RouteTable.setAnycastCost_cases hset with ⟨_, heq⟩ | ⟨_, _, _, _, _, _, heq⟩
          · cases heq
          · cases heq
            exact absurd rfl (hno _ _)

/-- One operation. -/
theorem CostsLive.step {w' : Wires} {op : Op} (h : db.CostsLive) (hok : db.Ok)
    (hstep : db.step w now op = some (db', w')) : db'.CostsLive := by
  obtain ⟨hself, hchange⟩ := step_change hstep
  have hrec : ¬ op.OnListeners → op ≠ .shutdown → ∀ e c, db.costAt e = some c →
      db'.costAt e = some c := by
    intro hop hshut e c hc
    rw [costAt_eq] at hc ⊢
    obtain ⟨info, hi, rfl⟩ := Option.map_eq_some_iff.mp hc
    rw [infoAt_of_change hok hself hchange hop hshut hi]
    rfl
  have hkeep : ¬ op.OnListeners → op ≠ .shutdown → db'.routes = db.routes → db'.CostsLive := by
    intro hop hshut hroutes
    refine h.of_frame (hrec hop hshut) (fun e hk _ => ?_) fun e => ?_
    · rwa [hroutes] at hk
    · rw [hroutes]
  by_cases hset : ∃ e sender cost, op = .setAnycastCost e sender cost
  · obtain ⟨e, sender, cost, rfl⟩ := hset
    obtain ⟨rfl, _⟩ := Prod.mk.inj (Option.some.inj hstep)
    exact h.changeAnycastCost e sender cost
  generalize hparts : db'.parts = p at hchange
  have hdb : db'.db = p.records := congrArg Parts.records hparts
  have hroutes : db'.routes = p.routes := congrArg Parts.routes hparts
  cases hchange with
  | quiet =>
    refine h.of_frame (fun e c hc => ?_) (fun e hk _ => ?_) fun e => ?_
    · rw [costAt, hself, hdb]
      exact hc
    · rw [hroutes] at hk
      exact hk
    · rw [hroutes]
      rfl
  | addEndpoint hadd => exact h.addEndpoint hself hadd hdb hroutes
  | removeEndpoint e => exact h.removeEndpoint hself hdb hroutes
  | setAnycastCost _ _ => exact absurd ⟨_, _, _, rfl⟩ hset
  | addPeer _ => exact hkeep nofun nofun hroutes
  | removePeer => exact hkeep nofun nofun hroutes
  | handleLsa hh =>
    refine h.of_frame (hrec nofun nofun) (fun e hk hsome => ?_) fun e => ?_
    · rw [hroutes] at hk hsome
      rcases hh.kindAt hk with hold | ⟨_, _, hnone, _⟩
      · exact hold
      · have hmin := RouteTable.minAt_of_localsOf (hh.localsOf e)
        change (RouteTable.minAt (LsDb.routes _) e).isSome = true at hsome
        rw [hmin, RouteTable.minAt, RouteTable.routesOf_eq_nil_of_kindAt hnone] at hsome
        cases hsome
    · rw [hroutes]
      exact RouteTable.minAt_of_localsOf (hh.localsOf e)
  | tick _ => exact hkeep nofun nofun hroutes
  | shutdown =>
    intro e c hk
    rw [hroutes] at hk
    cases hk

end Step

/-- In every state of every run, an anycast endpoint with listeners has its own record, and
the record's cost is the least cost among them. -/
theorem advertised_cost_minimal (selfId : NodeId) (db : LsDb)
    (h : Runs (fun _ _ _ _ => True) selfId db) (e : EndpointId)
    (hk : db.routes.kindAt e = some .anycast) (hl : db.routes.HasLocal e) :
    ∃ r info, db.db.get ⟨selfId, e⟩ = some r ∧ r.lsa.body = .endpoint info ∧
      (∃ route ∈ db.routes.localsOf e, route.cost = info.cost) ∧
      ∀ route ∈ db.routes.localsOf e, info.cost ≤ route.cost := by
  have hinv : db.CostsLive ∧ db.Ok := by
    clear hk hl
    induction h with
    | new now =>
      refine ⟨fun e c hk => ?_, Ok.new selfId now⟩
      cases hk
    | rehash _ hre ih =>
      refine ⟨ih.1.of_frame (fun e c hc => ?_) (fun e hk _ => ?_) fun e => ?_, ih.2.rehash hre⟩
      · rw [costAt, hre.selfId, hre.get_record]
        exact hc
      · rwa [RouteTable.kindAt, hre.get_route] at hk
      · rw [RouteTable.minAt, RouteTable.routesOf, hre.get_route]
        rfl
    | step w now op _ _ hstep ih => exact ⟨ih.1.step ih.2 hstep, (step_advances ih.2 hstep).ok⟩
  cases hm : db.routes.minAt e with
  | none =>
    change ((db.routes.localsOf e).map fun route => route.cost).min? = none at hm
    rw [List.min?_eq_none_iff, List.map_eq_nil_iff] at hm
    exact absurd hl (RouteTable.localsOf_eq_nil_iff.mp hm)
  | some c =>
    have hcost := hinv.1 e c hk hm
    rw [costAt_eq, infoAt, h.selfId] at hcost
    obtain ⟨info, hinfo, rfl⟩ := Option.map_eq_some_iff.mp hcost
    obtain ⟨r, hr, hri⟩ := Option.bind_eq_some_iff.mp hinfo
    have hbody : r.lsa.body = .endpoint info := by
      unfold LsaRecord.info at hri
      split at hri
      · next hb => rw [hb, Option.some.inj hri]
      · cases hri
    change ((db.routes.localsOf e).map fun route => route.cost).min? = some info.cost at hm
    obtain ⟨hmem, hle⟩ := List.min?_eq_some_iff.mp hm
    refine ⟨r, info, hr, hbody, List.mem_map.mp hmem, fun route hroute => hle _ ?_⟩
    exact List.mem_map_of_mem hroute

end LsDb

/-- A listener on an anycast endpoint with the given cost. -/
def anycastAt (cost : Cost) (sender : Sender) : RegistrationRequest :=
  ⟨5, ⟨.anycast, .global, cost⟩, sender⟩

/-- A cheaper listener that joins and then turns dearer than the first one. -/
theorem advertised_cost_follows :
    ∃ db, LsDb.Runs (fun _ _ _ _ => True) 1 db ∧
      (db.routes.localsOf 5).map (fun route => route.cost.val) = [3, 4] ∧
      ∃ r info, db.db.get ⟨1, 5⟩ = some r ∧ r.lsa.body = .endpoint info ∧
        (∃ route ∈ db.routes.localsOf 5, route.cost = info.cost) ∧
        ∀ route ∈ db.routes.localsOf 5, info.cost ≤ route.cost := by
  have hrun : ((LsDb.new 1 0).run [] [.at false (.addEndpoint (anycastAt ⟨3, by decide⟩ 7)),
      .at false (.addEndpoint (anycastAt ⟨1, by decide⟩ 8)),
      .at false (.setAnycastCost 5 8 ⟨4, by decide⟩)]).map (fun r =>
        (r.1.routes.kindAt 5, (r.1.routes.localsOf 5).map fun route => route.cost.val)) =
      some (some .anycast, [3, 4]) := by
    decide +kernel
  obtain ⟨⟨db, log⟩, hrun, heq⟩ := Option.map_eq_some_iff.mp hrun
  obtain ⟨hk, hcosts⟩ := Prod.mk.inj heq
  have hreach : LsDb.Runs (fun _ _ _ _ => True) 1 db :=
    LsDb.runs_of_run (.new 0) (fun _ _ _ _ => trivial) hrun
  have hl : db.routes.HasLocal 5 := by
    by_contra hno
    rw [RouteTable.localsOf_eq_nil_iff.mpr hno] at hcosts
    cases hcosts
  exact ⟨db, hreach, hcosts, LsDb.advertised_cost_minimal 1 db hreach 5 hk hl⟩

end Anybus
