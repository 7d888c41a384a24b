import Anybus.Db.Superseded

/-!
# Taking up a version

A change of a local endpoint makes one new version of its LSA, or none. Another node that
hears of the version takes it up if it is news. Either way the version replaces what was
stored, a withdrawal leaves nothing, and it is flooded; nothing else is stored or flooded,
and links and paths stay.
-/

namespace Anybus

/-- What a version leaves in a database that takes it up. -/
def Lsa.left (v : Lsa) : Option Lsa := if v.dead then none else some v

/-- A version is news where an older one is stored; a withdrawal only there. -/
structure Lsa.IsNews (v : Lsa) (old : Option Lsa) : Prop where
  newer : ∀ l, old = some l → l.seq < v.seq
  known : v.dead = true → old ≠ none

/-- The LSA of an endpoint. -/
def Lsa.IsEndpoint (v : Lsa) : Prop := ∃ info, v.body = .endpoint info

/-- The endpoint whose listeners an operation changes. -/
def Op.endpoint : Op → Option EndpointId
  | .addEndpoint request => some request.endpointId
  | .removeEndpoint e => some e
  | .setAnycastCost e _ _ => some e
  | _ => none

/-- What a version leaves is not what it replaces. -/
theorem Lsa.IsNews.left_ne {v : Lsa} {old : Option Lsa} (h : v.IsNews old) : v.left ≠ old := by
  intro heq
  unfold Lsa.left at heq
  split at heq
  · next hd => exact h.known hd heq.symm
  · exact absurd (h.newer v heq.symm) (Nat.lt_irrefl _)

namespace LsDb

/-- The LSA stored under a key. -/
def lsaAt (db : LsDb) (k : LsaKey) : Option Lsa := (db.db.get k).map LsaRecord.lsa

theorem lsaAt_eq_some {db : LsDb} {k : LsaKey} {l : Lsa} :
    db.lsaAt k = some l ↔ ∃ r, db.db.get k = some r ∧ r.lsa = l := Option.map_eq_some_iff

/-- An operation takes up a version of an LSA and floods it. -/
structure TakesUp (db : LsDb) (w : Wires) (now : Instant) (op : Op) (db' : LsDb) (v : Lsa)
    (inC : Option ConnectionId) : Prop where
  stored : db'.lsaAt v.key = v.left
  others : ∀ k, k ≠ v.key → db'.lsaAt k = db.lsaAt k
  floods : db.floods w now op = [(v, inC)]

/-- An operation takes up no version, and floods none. -/
structure TakesNone (db : LsDb) (w : Wires) (now : Instant) (op : Op) (db' : LsDb) : Prop where
  same : ∀ k, db'.lsaAt k = db.lsaAt k
  floods : db.floods w now op = []

section Records

variable {db db' : LsDb} {w : Wires} {now : Instant} {op : Op} {v : Lsa} {inC : Option ConnectionId}

/-- A record that is written takes up its version. -/
theorem TakesUp.of_insert (hd : v.dead = false) (hdb : db'.db = db.db.insert v.key ⟨v, now⟩)
    (hfloods : db.floods w now op = [(v, inC)]) : TakesUp db w now op db' v inC := by
  refine ⟨?_, fun k hk => ?_, hfloods⟩
  · rw [lsaAt, hdb, HashMap.get_insert, if_pos rfl, Lsa.left, hd]
    rfl
  · rw [lsaAt, hdb, HashMap.get_insert, if_neg hk]
    rfl

/-- A record that is erased takes up its withdrawal. -/
theorem TakesUp.of_erase (hd : v.dead = true) (hdb : db'.db = db.db.erase v.key)
    (hfloods : db.floods w now op = [(v, inC)]) : TakesUp db w now op db' v inC := by
  refine ⟨?_, fun k hk => ?_, hfloods⟩
  · rw [lsaAt, hdb, HashMap.get_erase, if_pos rfl, Lsa.left, hd]
    rfl
  · rw [lsaAt, hdb, HashMap.get_erase, if_neg hk]
    rfl

theorem TakesNone.of_db (hdb : db'.db = db.db) (hfloods : db.floods w now op = []) :
    TakesNone db w now op db' := by
  refine ⟨fun k => ?_, hfloods⟩
  rw [lsaAt, hdb, lsaAt]

end Records

/-- A first listener of an endpoint comes when there is no record of it. -/
def FirstAfresh (db : LsDb) (op : Op) (e : EndpointId) : Prop :=
  ∀ request, op = .addEndpoint request → ¬ db.routes.HasLocal e → db.lsaAt ⟨db.selfId, e⟩ = none

/-- The next version of the LSA of an own endpoint: it is news, unless it is a first one that
meets an old record, and has the realm of the registration that makes the endpoint known, or
that of the version before. -/
structure NextOf (db : LsDb) (op : Op) (e : EndpointId) (v : Lsa) : Prop where
  key : v.key = ⟨db.selfId, e⟩
  news : db.FirstAfresh op e → v.IsNews (db.lsaAt ⟨db.selfId, e⟩)
  realm : ∃ info, v.body = .endpoint info ∧
    ((∃ request, op = .addEndpoint request ∧ info = request.endpointInfo) ∨
      ∃ l info', db.lsaAt ⟨db.selfId, e⟩ = some l ∧ l.body = .endpoint info' ∧ info.realm = info'.realm)

/-- A change of an own endpoint takes up the next version of its LSA, or none. The flood of the
version of a first listener passes by connection 0. -/
def Announces (db : LsDb) (w : Wires) (now : Instant) (op : Op) (e : EndpointId) (db' : LsDb) : Prop :=
  TakesNone db w now op db' ∨ ∃ v inC, db.NextOf op e v ∧ TakesUp db w now op db' v inC ∧
    ∀ c, inC = some c → c = 0 ∧ ¬ db.routes.HasLocal e ∧ ∃ request, op = .addEndpoint request

section Change

variable {db db' : LsDb} {w w' : Wires} {now : Instant} {op : Op} {e : EndpointId}

/-- A new cost is the next version of an LSA. -/
theorem nextOf_recost (hok : db.Ok) (op : Op) {cost : Cost} {v : Lsa} (h : db.recostLsa e cost = some v) :
    db.NextOf op e v ∧ ∃ l, db.lsaAt ⟨db.selfId, e⟩ = some l ∧ v.dead = l.dead := by
  unfold recostLsa at h
  split at h
  · next record hr =>
    have hl : db.lsaAt ⟨db.selfId, e⟩ = some record.lsa := by rw [lsaAt, hr, Option.map_some]
    split at h
    · next body hb =>
      split at h
      · cases h
      · obtain rfl := Option.some.inj h
        refine ⟨⟨hok.record_key _ _ hr, fun _ => ⟨fun l hold => ?_, fun _ hnone => ?_⟩, ?_⟩,
          record.lsa, hl, rfl⟩
        · rw [hl, Option.some.injEq] at hold
          rw [← hold]
          exact Nat.lt_succ_self _
        · rw [hl] at hnone
          cases hnone
        · exact ⟨_, rfl, .inr ⟨record.lsa, body, hl, hb, rfl⟩⟩
    · cases h
  · cases h

/-- A changed cost is taken up, if there is one. -/
theorem announces_recosted (hok : db.Ok) (halive : ∀ l, db.lsaAt ⟨db.selfId, e⟩ = some l → l.dead = false)
    {cost : Cost} (hdb : db'.db = db.recosted e cost now)
    (hfloods : db.floods w now op = (db.recostLsa e cost).toList.map (·, none)) :
    Announces db w now op e db' := by
  rw [recosted_eq] at hdb
  cases hr : db.recostLsa e cost with
  | none =>
    rw [hr] at hdb hfloods
    exact .inl (.of_db hdb hfloods)
  | some v =>
    obtain ⟨hnext, l, hl, hd⟩ := nextOf_recost hok op hr
    rw [hr] at hdb hfloods
    refine .inr ⟨v, none, hnext, .of_insert (hd.trans (halive l hl)) ?_ hfloods, fun c hc => ?_⟩
    · rw [hnext.key]
      exact hdb
    · cases hc

/-- The first listener makes a first version of the LSA; a later one may change its cost. -/
theorem announces_addEndpoint (hok : db.Ok) {request : RegistrationRequest}
    (halive : ∀ l, db.lsaAt ⟨db.selfId, request.endpointId⟩ = some l → l.dead = false)
    (hstep : db.step w now (.addEndpoint request) = some (db', w')) :
    Announces db w now (.addEndpoint request) request.endpointId db' := by
  obtain ⟨rfl, -⟩ := Prod.mk.inj (Option.some.inj hstep)
  cases hadd : db.routes.addEndpoint request.endpointId request.endpointInfo request.sender with
  | error err =>
    refine .inl (.of_db ?_ ?_)
    · simp only [LsDb.addEndpoint, hadd]
    · simp only [LsDb.floods, hadd]
  | ok p =>
    obtain ⟨t, effect⟩ := p
    have hparts := congrArg Parts.records (db.addEndpoint_parts w now hadd).2
    obtain ⟨-, -, -, heff⟩ := RouteTable.addEndpoint_spec hadd
    rcases heff with ⟨-, rfl⟩ | ⟨-, hlocal, rfl⟩ | ⟨-, -, rfl | rfl⟩
    · exact .inl (.of_db hparts (by simp only [LsDb.floods, hadd]))
    · let v : Lsa := ⟨⟨db.selfId, request.endpointId⟩, 0, false, .endpoint request.endpointInfo⟩
      have hnews : db.FirstAfresh (.addEndpoint request) request.endpointId →
          v.IsNews (db.lsaAt ⟨db.selfId, request.endpointId⟩) := by
        intro hfirst
        rw [hfirst request rfl hlocal]
        refine ⟨fun l hl => ?_, fun hd => ?_⟩
        · cases hl
        · cases hd
      have hup : TakesUp db w now (.addEndpoint request) (db.addEndpoint w request now).1 v (some 0) := by
        refine .of_insert rfl hparts ?_
        simp only [LsDb.floods, hadd]
        rfl
      exact .inr ⟨v, some 0, ⟨rfl, hnews, _, rfl, .inl ⟨request, rfl, rfl⟩⟩, hup,
        fun c hc => ⟨(Option.some.inj hc).symm, hlocal, request, rfl⟩⟩
    · exact .inl (.of_db hparts (by simp only [LsDb.floods, hadd]))
    · exact announces_recosted hok halive hparts (by simp only [LsDb.floods, hadd])

/-- The withdrawal of a record is the next version of its LSA. -/
theorem nextOf_withdrawal (hok : db.Ok) (op : Op) {r : LsaRecord} (hr : db.db.get ⟨db.selfId, e⟩ = some r)
    (hbody : r.lsa.IsEndpoint) : db.NextOf op e (withdrawal r) := by
  have hl : db.lsaAt ⟨db.selfId, e⟩ = some r.lsa := by rw [lsaAt, hr, Option.map_some]
  obtain ⟨info, hb⟩ := hbody
  refine ⟨hok.record_key _ _ hr, fun _ => ⟨fun l hold => ?_, fun _ hnone => ?_⟩, info, hb,
    .inr ⟨r.lsa, info, hl, hb, rfl⟩⟩
  · rw [hl, Option.some.injEq] at hold
    rw [← hold]
    exact Nat.lt_succ_self _
  · rw [hl] at hnone
    cases hnone

/-- With the last route the record goes; a listener that leaves others may change the cost. -/
theorem announces_removeEndpoint (hok : db.Ok)
    (hbody : ∀ l, db.lsaAt ⟨db.selfId, e⟩ = some l → l.dead = false ∧ l.IsEndpoint)
    (hstep : db.step w now (.removeEndpoint e) = some (db', w')) :
    Announces db w now (.removeEndpoint e) e db' := by
  have hdb' : db.removeEndpoint w e now = (db', w') := Option.some.inj hstep
  have hparts := congrArg Parts.records (db.removeEndpoint_parts w now e).2
  rw [hdb'] at hparts
  have hfloods : db.floods w now (.removeEndpoint e) =
      (db.effectLsas (db.routes.removeEndpoint w e).2).map (·, none) := rfl
  have hquiet : ∀ {effect : Effects}, (db.routes.removeEndpoint w e).2 = effect →
      db.carriedOut now effect = db.db → db.effectLsas effect = [] →
      Announces db w now (.removeEndpoint e) e db' := by
    intro effect heff hcarried hlsas
    rw [heff] at hparts hfloods
    rw [hlsas] at hfloods
    exact .inl (.of_db (hparts.trans hcarried) hfloods)
  rcases db.routes.removeEndpoint_cases w e with ⟨-, heq⟩ | ⟨-, ⟨heff, -⟩ | ⟨heff | heff | ⟨c, heff⟩, -⟩⟩
  · exact hquiet (congrArg Prod.snd heq) rfl rfl
  · rw [heff] at hparts hfloods
    cases hr : db.db.get ⟨db.selfId, e⟩ with
    | none =>
      refine .inl (.of_db (hparts.trans ?_) (hfloods.trans ?_))
      · simp only [carriedOut, hr]
      · simp only [effectLsas, hr, Option.map_none, Option.toList_none, List.map_nil]
    | some r =>
      have hl : db.lsaAt ⟨db.selfId, e⟩ = some r.lsa := by rw [lsaAt, hr, Option.map_some]
      have hnext := nextOf_withdrawal hok (.removeEndpoint e) hr (hbody _ hl).2
      refine .inr ⟨withdrawal r, none, hnext, .of_erase rfl ?_ ?_, fun c hc => ?_⟩
      · rw [hnext.key]
        refine hparts.trans ?_
        simp only [carriedOut, hr]
      · refine hfloods.trans ?_
        simp only [effectLsas, hr, Option.map_some, Option.toList_some, List.map_cons, List.map_nil]
      · cases hc
  · exact hquiet heff rfl rfl
  · exact hquiet heff rfl rfl
  · rw [heff] at hparts hfloods
    exact announces_recosted hok (fun l hl => (hbody l hl).1) hparts hfloods

theorem announces_setAnycastCost (hok : db.Ok)
    (halive : ∀ l, db.lsaAt ⟨db.selfId, e⟩ = some l → l.dead = false) {sender : Sender} {cost : Cost}
    (hstep : db.step w now (.setAnycastCost e sender cost) = some (db', w')) :
    Announces db w now (.setAnycastCost e sender cost) e db' := by
  have hdb' : db.changeAnycastCost w e sender cost now = (db', w') := Option.some.inj hstep
  unfold changeAnycastCost LsDb.setAnycastCost at hdb'
  cases hset : db.routes.setAnycastCost e sender cost with
  | error err =>
    simp only [hset] at hdb'
    obtain ⟨rfl, -⟩ := Prod.mk.inj hdb'
    exact .inl (.of_db rfl (by simp only [LsDb.floods, hset]))
  | ok p =>
    obtain ⟨t, outcome⟩ := p
    simp only [hset] at hdb'
    cases outcome with
    | unchanged =>
      obtain ⟨rfl, -⟩ := Prod.mk.inj hdb'
      exact .inl (.of_db rfl (by simp only [LsDb.floods, hset]))
    | changed previous current advertise =>
      cases advertise with
      | none =>
        obtain ⟨rfl, -⟩ := Prod.mk.inj hdb'
        exact .inl (.of_db rfl (by simp only [LsDb.floods, hset]))
      | some minCost =>
        have hparts := congrArg Parts.records
          (updateEndpointCost_parts { db with routes := t } w now e minCost).1
        simp only at hdb'
        rw [hdb'] at hparts
        exact announces_recosted hok halive hparts (by simp only [LsDb.floods, hset])

/-- So does every change of an endpoint whose record, if there is one, is alive and an
endpoint's. -/
theorem announces_of_change (hok : db.Ok) (hop : op.endpoint = some e)
    (hbody : ∀ l, db.lsaAt ⟨db.selfId, e⟩ = some l → l.dead = false ∧ l.IsEndpoint)
    (hstep : db.step w now op = some (db', w')) : Announces db w now op e db' := by
  cases op with
  | addEndpoint request =>
    obtain rfl := Option.some.inj hop
    exact announces_addEndpoint hok (fun l hl => (hbody l hl).1) hstep
  | removeEndpoint e' =>
    obtain rfl := Option.some.inj hop
    exact announces_removeEndpoint hok hbody hstep
  | setAnycastCost e' sender cost =>
    obtain rfl := Option.some.inj hop
    exact announces_setAnycastCost hok (fun l hl => (hbody l hl).1) hstep
  | _ => cases hop

end Change

section Handle

variable {db db' : LsDb} {w w' : Wires} {now : Instant} {lsa : Lsa} {c : ConnectionId}

/-- An own LSA that comes back changes nothing. -/
theorem takesNone_of_own (hown : lsa.key.origin = db.selfId)
    (hstep : db.step w now (.handleLsa lsa c) = some (db', w')) :
    TakesNone db w now (.handleLsa lsa c) db' := by
  refine .of_db ?_ ?_
  · cases handleLsa_handled hstep with
    | ignored => rfl
    | unknownDeath ho => exact absurd hown ho
    | died ho => exact absurd hown ho
    | stored ho => exact absurd hown ho
  · simp only [floods, if_pos hown]

/-- The LSA of an endpoint of another node is taken up if it is news, and flooded; an alive
one passes by the link it came in on. Any other one changes nothing. -/
theorem takesUp_of_handleLsa (hother : lsa.key.origin ≠ db.selfId)
    (hbody : ∀ l, db.lsaAt lsa.key = some l → l.IsEndpoint)
    (hstep : db.step w now (.handleLsa lsa c) = some (db', w')) :
    (lsa.IsNews (db.lsaAt lsa.key) ∧
        TakesUp db w now (.handleLsa lsa c) db' lsa (if lsa.dead then none else some c)) ∨
      (¬ lsa.IsNews (db.lsaAt lsa.key) ∧ TakesNone db w now (.handleLsa lsa c) db') := by
  have hold : ∀ {r : LsaRecord}, db.db.get lsa.key = some r → db.lsaAt lsa.key = some r.lsa :=
    fun hr => lsaAt_eq_some.mpr ⟨_, hr, rfl⟩
  cases handleLsa_handled hstep with
  | ignored hi =>
    obtain ⟨r, hr, hle⟩ := hi.resolve_left hother
    refine .inr ⟨fun hnews => ?_, .of_db rfl ?_⟩
    · exact absurd (hnews.newer _ (hold hr)) (Nat.not_lt.mpr hle)
    · simp only [floods, if_neg hother, hr, if_neg (Nat.not_lt.mpr hle)]
  | unknownDeath _ hd hn =>
    have hnone : db.lsaAt lsa.key = none := by rw [lsaAt, hn, Option.map_none]
    refine .inr ⟨fun hnews => hnews.known hd hnone, .of_db rfl ?_⟩
    simp only [floods, if_neg hother, hn, hd, if_true]
  | died _ hd r hr hlt =>
    obtain ⟨info, hb⟩ := hbody _ (hold hr)
    refine .inl ⟨⟨fun l hl => ?_, fun _ hnone => ?_⟩, .of_erase hd ?_ ?_⟩
    · rw [hold hr, Option.some.injEq] at hl
      rw [← hl]
      exact hlt
    · rw [hold hr] at hnone
      cases hnone
    · simp only [withoutDead, hb]
    · simp only [floods, if_neg hother, hr, if_pos hlt, hd]
  | stored _ hd hnew =>
    refine .inl ⟨⟨fun l hl => ?_, fun hdead => ?_⟩, .of_insert hd rfl ?_⟩
    · obtain ⟨r, hr, rfl⟩ := lsaAt_eq_some.mp hl
      exact hnew r hr
    · rw [hd] at hdead
      cases hdead
    · cases hr : db.db.get lsa.key with
      | none => simp only [floods, if_neg hother, hr, hd, if_false, Bool.false_eq_true]
      | some r => simp only [floods, if_neg hother, hr, hd, if_pos (hnew r hr)]

end Handle

/-- Identity, links and paths are the same. -/
structure Unmoved (db db' : LsDb) : Prop where
  self : db'.selfId = db.selfId
  links : db'.links = db.links
  hops : db'.nextHop = db.nextHop

section Unmoved

variable {db db' : LsDb} {w w' : Wires} {now : Instant}

theorem unmoved_updateEndpointCost (db : LsDb) (w : Wires) (e : EndpointId) (cost : Cost)
    (now : Instant) : Unmoved db (db.updateEndpointCost w e cost now).1 := by
  unfold updateEndpointCost
  simp only
  split
  · split
    · split
      · exact ⟨rfl, rfl, rfl⟩
      · exact ⟨rfl, rfl, rfl⟩
    · exact ⟨rfl, rfl, rfl⟩
  · exact ⟨rfl, rfl, rfl⟩

/-- A change of a local endpoint moves nothing. -/
theorem unmoved_of_change {op : Op} {e : EndpointId} (hop : op.endpoint = some e)
    (hstep : db.step w now op = some (db', w')) : Unmoved db db' := by
  cases op with
  | addEndpoint request =>
    obtain ⟨rfl, -⟩ := Prod.mk.inj (Option.some.inj hstep)
    unfold LsDb.addEndpoint
    cases db.routes.addEndpoint request.endpointId request.endpointInfo request.sender with
    | error err => exact ⟨rfl, rfl, rfl⟩
    | ok p =>
      obtain ⟨t, effect⟩ := p
      cases effect with
      | updateLsa e' cost =>
        obtain ⟨hself, hlinks, hhops⟩ := unmoved_updateEndpointCost { db with routes := t } w e' cost now
        exact ⟨hself, hlinks, hhops⟩
      | _ => exact ⟨rfl, rfl, rfl⟩
  | removeEndpoint e' =>
    have hdb' : db.removeEndpoint w e' now = (db', w') := Option.some.inj hstep
    obtain rfl := (congrArg Prod.fst hdb').symm
    unfold LsDb.removeEndpoint
    simp only
    cases (db.routes.removeEndpoint w e').2 with
    | updateLsa e'' cost =>
      obtain ⟨hself, hlinks, hhops⟩ := unmoved_updateEndpointCost
        (({ db with routes := (db.routes.removeEndpoint w e').1 } : LsDb).requestRebuild now) w e'' cost now
      exact ⟨hself, hlinks, hhops⟩
    | removeLsa e'' =>
      simp only
      split
      · exact ⟨rfl, rfl, rfl⟩
      · exact ⟨rfl, rfl, rfl⟩
    | _ => exact ⟨rfl, rfl, rfl⟩
  | setAnycastCost e' sender cost =>
    have hdb' : db.changeAnycastCost w e' sender cost now = (db', w') := Option.some.inj hstep
    obtain rfl := (congrArg Prod.fst hdb').symm
    unfold changeAnycastCost LsDb.setAnycastCost
    cases db.routes.setAnycastCost e' sender cost with
    | error err => exact ⟨rfl, rfl, rfl⟩
    | ok p =>
      obtain ⟨t, outcome⟩ := p
      cases outcome with
      | unchanged => exact ⟨rfl, rfl, rfl⟩
      | changed previous current advertise =>
        cases advertise with
        | none => exact ⟨rfl, rfl, rfl⟩
        | some minCost =>
          obtain ⟨hself, hlinks, hhops⟩ := unmoved_updateEndpointCost { db with routes := t } w e' minCost now
          exact ⟨hself, hlinks, hhops⟩
  | _ => cases hop

/-- Nor does the LSA of an endpoint that arrives. -/
theorem unmoved_of_handleLsa {lsa : Lsa} {c : ConnectionId} (hbody : lsa.IsEndpoint)
    (hstep : db.step w now (.handleLsa lsa c) = some (db', w')) : Unmoved db db' := by
  cases hd : lsa.dead with
  | true =>
    cases handleLsa_handled hstep with
    | stored _ hd' => rw [hd] at hd'; cases hd'
    | _ => exact ⟨rfl, rfl, rfl⟩
  | false =>
    obtain ⟨info, hb⟩ := hbody
    have h : db.handleLsa w lsa c now = some (db', w') := hstep
    unfold LsDb.handleLsa at h
    simp only at h
    split at h
    · obtain ⟨rfl, -⟩ := Prod.mk.inj (Option.some.inj h)
      exact ⟨rfl, rfl, rfl⟩
    · rw [if_neg (by simp [hd])] at h
      rcases upsertLsa_eq db lsa now with ⟨hup, -⟩ | ⟨-, hup⟩
      · simp only [hup] at h
        obtain ⟨rfl, -⟩ := Prod.mk.inj (Option.some.inj h)
        exact ⟨rfl, rfl, rfl⟩
      · simp only [hup, hb] at h
        obtain ⟨rfl, -⟩ := Prod.mk.inj (Option.some.inj h)
        exact ⟨rfl, rfl, rfl⟩

end Unmoved

end LsDb

end Anybus
