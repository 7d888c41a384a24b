import Anybus.Core.Machine
import Anybus.Db.Advances
import Anybus.Db.Change

/-!
# Records and the clock

The router looks at its clock at least every so often. Its own records are then never older than
two thirds of the timeout and that much, and what it has from others stays with it for a timeout
at least.
-/

namespace Anybus.LsDb

/-- The parts of a database that only the timer changes. -/
structure SameClock (db db' : LsDb) : Prop where
  tick : db'.lastTick = db.lastTick
  refresh : db'.lastRefresh = db.lastRefresh
  timeout : db'.lsaTimeout = db.lsaTimeout

section Clock

variable {db db' db'' : LsDb} {w w' : Wires} {now : Instant}

theorem SameClock.refl (db : LsDb) : db.SameClock db := ⟨rfl, rfl, rfl⟩

theorem SameClock.trans (h : db.SameClock db') (h' : db'.SameClock db'') : db.SameClock db'' :=
  ⟨h'.tick.trans h.tick, h'.refresh.trans h.refresh, h'.timeout.trans h.timeout⟩

theorem Rehash.sameClock (h : Rehash db db') : db.SameClock db' := by
  rw [h.rest]
  exact ⟨rfl, rfl, rfl⟩

theorem computeSpf_sameClock {root : NodeId} (h : db.computeSpf root = some db') :
    db.SameClock db' := by
  obtain ⟨s, -, rfl⟩ := computeSpf_eq_some_iff.mp h
  exact ⟨rfl, rfl, rfl⟩

theorem updateEndpointCost_sameClock (db : LsDb) (w : Wires) (e : EndpointId) (cost : Cost)
    (now : Instant) : db.SameClock (db.updateEndpointCost w e cost now).1 := by
  unfold updateEndpointCost
  simp only
  split
  · split
    · split
      · exact .refl db
      · exact ⟨rfl, rfl, rfl⟩
    · exact .refl db
  · exact .refl db

theorem addEndpoint_sameClock (db : LsDb) (w : Wires) (request : RegistrationRequest)
    (now : Instant) : db.SameClock (db.addEndpoint w request now).1 := by
  unfold addEndpoint
  split
  next routes effect _ =>
    cases effect with
    | addLsa e info => exact ⟨rfl, rfl, rfl⟩
    | updateLsa e cost =>
      have hroutes : db.SameClock { db with routes := routes } := ⟨rfl, rfl, rfl⟩
      exact hroutes.trans (updateEndpointCost_sameClock _ w e cost now)
    | removeLsa e => exact ⟨rfl, rfl, rfl⟩
    | rebuildFib => exact ⟨rfl, rfl, rfl⟩
    | noop => exact ⟨rfl, rfl, rfl⟩
  next => exact .refl db

theorem removeEndpoint_sameClock (db : LsDb) (w : Wires) (e : EndpointId) (now : Instant) :
    db.SameClock (db.removeEndpoint w e now).1 := by
  unfold removeEndpoint
  simp only
  cases (db.routes.removeEndpoint w e).2 with
  | addLsa e info => exact ⟨rfl, rfl, rfl⟩
  | updateLsa e' cost =>
    have hroutes : db.SameClock
        (({ db with routes := (db.routes.removeEndpoint w e).1 } : LsDb).requestRebuild now) :=
      ⟨rfl, rfl, rfl⟩
    exact hroutes.trans (updateEndpointCost_sameClock _ w e' cost now)
  | removeLsa e' =>
    simp only [requestRebuild]
    split
    · exact ⟨rfl, rfl, rfl⟩
    · exact ⟨rfl, rfl, rfl⟩
  | rebuildFib => exact ⟨rfl, rfl, rfl⟩
  | noop => exact ⟨rfl, rfl, rfl⟩

theorem changeAnycastCost_sameClock (db : LsDb) (w : Wires) (e : EndpointId) (sender : Sender)
    (cost : Cost) (now : Instant) : db.SameClock (db.changeAnycastCost w e sender cost now).1 := by
  unfold changeAnycastCost setAnycastCost
  cases db.routes.setAnycastCost e sender cost with
  | error err => exact .refl db
  | ok p =>
    obtain ⟨routes, outcome⟩ := p
    cases outcome with
    | unchanged => exact ⟨rfl, rfl, rfl⟩
    | changed previous new advertise =>
      cases advertise with
      | none => exact ⟨rfl, rfl, rfl⟩
      | some minCost =>
        have hroutes : db.SameClock { db with routes := routes } := ⟨rfl, rfl, rfl⟩
        exact hroutes.trans (updateEndpointCost_sameClock _ w e minCost now)

theorem dropAdjacency_sameClock (db : LsDb) (w : Wires) (c : ConnectionId) (now : Instant) :
    db.SameClock (db.dropAdjacency w c now).1 := by
  unfold dropAdjacency
  split
  · split
    · simp only
      split
      · exact ⟨rfl, rfl, rfl⟩
      · exact .refl db
    · exact .refl db
  · exact .refl db

/-- Nothing but the timer reads the clock for itself. -/
theorem step_sameClock {op : Op} (h : db.step w now op = some (db', w')) (htick : op ≠ .tick) :
    db.SameClock db' := by
  cases op with
  | addEndpoint request =>
    obtain ⟨rfl, -⟩ := Prod.mk.inj (Option.some.inj h)
    exact addEndpoint_sameClock db w request now
  | removeEndpoint e =>
    have hclock := removeEndpoint_sameClock db w e now
    rwa [Option.some.inj h] at hclock
  | setAnycastCost e sender cost =>
    have hclock := changeAnycastCost_sameClock db w e sender cost now
    rwa [Option.some.inj h] at hclock
  | addPeer link =>
    obtain ⟨-, -, heq⟩ | ⟨adjs, -, heq⟩ := addPeer_cases db w link now
    · rw [step, heq] at h
      cases h
      exact .refl db
    · rw [step, heq] at h
      cases h
      exact ⟨rfl, rfl, rfl⟩
  | removePeer c =>
    simp only [step, removePeer] at h
    split at h
    next =>
      cases h
      exact .refl db
    next link _ =>
      have hdrop := dropAdjacency_sameClock { db with links := db.links.erase c } w c now
      split at h
      next d hspf =>
        cases h
        exact SameClock.trans ⟨hdrop.tick, hdrop.refresh, hdrop.timeout⟩ (computeSpf_sameClock hspf)
      next => cases h
  | handleLsa lsa c =>
    have hh := handleLsa_handled h
    cases hh <;> exact ⟨rfl, rfl, rfl⟩
  | handleAck c key seq =>
    obtain ⟨rfl, -⟩ := Prod.mk.inj (Option.some.inj h)
    obtain ⟨p, hp⟩ := handleAck_frame db c key seq
    rw [hp]
    exact ⟨rfl, rfl, rfl⟩
  | tick => exact absurd rfl htick
  | buildFib =>
    obtain ⟨⟨d, fib⟩, hfib, heq⟩ := Option.map_eq_some_iff.mp h
    cases heq
    obtain ⟨s, -, rfl, -⟩ := buildFib_eq_some_iff.mp hfib
    exact ⟨rfl, rfl, rfl⟩
  | shutdown =>
    have hclock : db.SameClock (db.shutdown w now).1 := by
      unfold shutdown
      cases hr : db.db.get db.selfKey with
      | none => exact ⟨rfl, rfl, rfl⟩
      | some record =>
        cases hb : record.lsa.body with
        | router adjs =>
          simp only [hb]
          exact ⟨rfl, rfl, rfl⟩
        | endpoint info =>
          simp only [hb]
          exact ⟨rfl, rfl, rfl⟩
    rwa [Option.some.inj h] at hclock

/-- A refresh is remembered. -/
theorem refreshAndPurgeLsas_clock (h : db.refreshAndPurgeLsas w now = some (db', w')) :
    db'.lastTick = db.lastTick ∧ db'.lsaTimeout = db.lsaTimeout ∧ db'.lastRefresh = now := by
  obtain ⟨⟨p, hp⟩, -⟩ := (db.refreshAll now).floodEach_spec w (db.refreshedLsas now)
  unfold refreshAndPurgeLsas at h
  simp only [hp] at h
  have hpurged : SameClock db
      (LsDb.purgeStaleLsas { db.refreshAll now with pendingTx := p } now).1 := by
    unfold purgeStaleLsas
    split
    · exact ⟨rfl, rfl, rfl⟩
    · exact ⟨rfl, rfl, rfl⟩
  generalize LsDb.purgeStaleLsas { db.refreshAll now with pendingTx := p } now = purged at h hpurged
  split at h
  · split at h
    next d hspf =>
      cases h
      have hclock := hpurged.trans (computeSpf_sameClock hspf)
      exact ⟨hclock.tick, hclock.timeout, rfl⟩
    next => cases h
  · cases h
    exact ⟨hpurged.tick, hpurged.timeout, rfl⟩

/-- The timer does nothing before a third of the timeout is over, and then refreshes the own
records and purges at most one stale record. -/
theorem tick_clock {b : Bool} (h : db.tick w now = some (db', w', b)) :
    db'.lastTick = now ∧ db'.lsaTimeout = db.lsaTimeout ∧
      ((now ≤ db.lastRefresh + db.lsaTimeout / 3 ∧ db'.lastRefresh = db.lastRefresh ∧
          db'.db = db.db) ∨
        (db'.lastRefresh = now ∧ (db'.db = (db.refreshAll now).db ∨
          ∃ key, db.Stale now key ∧ db'.db = (db.refreshAll now).db.erase key))) := by
  have hrest : ∀ {d : LsDb} {v : Wires},
      (if d.rebuildRequested.isSome then some ({ d with rebuildRequested := none }, v, true)
        else some (d, v, false)) = some (db', w', b) →
      d.SameClock db' ∧ db'.db = d.db := by
    intro d v heq
    split at heq
    · cases heq
      exact ⟨⟨rfl, rfl, rfl⟩, rfl⟩
    · cases heq
      exact ⟨.refl _, rfl⟩
  unfold tick at h
  simp only at h
  by_cases hdue : db.lastRefresh + db.lsaTimeout / 3 < now
  · rw [if_pos hdue] at h
    cases hr : ({ db with lastTick := now } : LsDb).refreshAndPurgeLsas w now with
    | none => simp [hr] at h
    | some r =>
      obtain ⟨d, v⟩ := r
      simp only [hr] at h
      obtain ⟨hclock, hdb⟩ := hrest h
      obtain ⟨-, m, hm, hcase⟩ := refreshAndPurgeLsas_parts hr
      obtain ⟨htick, htimeout, hrefresh⟩ := refreshAndPurgeLsas_clock hr
      have hrecords : d.db = m := congrArg Parts.records hm
      refine ⟨hclock.tick.trans htick, hclock.timeout.trans htimeout,
        .inr ⟨hclock.refresh.trans hrefresh, ?_⟩⟩
      rw [hdb, hrecords]
      exact hcase
  · rw [if_neg hdue] at h
    obtain ⟨hclock, hdb⟩ := hrest h
    exact ⟨hclock.tick, hclock.timeout, .inl ⟨Nat.le_of_not_lt hdue, hclock.refresh, hdb⟩⟩

/-- Every record but a refreshed one is the old one or has the time of the operation. -/
theorem Change.stamp {op : Op} {p : Parts} (h : Change db w now op p) (htick : op ≠ .tick)
    {k : LsaKey} {r : LsaRecord} (hr : p.records.get k = some r) :
    db.db.get k = some r ∨ r.updatedAt = now := by
  have hinsert : ∀ {m : HashMap LsaKey LsaRecord} {k' : LsaKey} {lsa : Lsa},
      (∀ r, m.get k = some r → db.db.get k = some r) → (m.insert k' ⟨lsa, now⟩).get k = some r →
      db.db.get k = some r ∨ r.updatedAt = now := by
    intro m k' lsa hm hget
    rw [HashMap.get_insert] at hget
    split at hget
    · cases hget
      exact .inr rfl
    · exact .inl (hm r hget)
  have hrecosted : ∀ {e : EndpointId} {cost : Cost}, (db.recosted e cost now).get k = some r →
      db.db.get k = some r ∨ r.updatedAt = now := by
    intro e cost hget
    unfold recosted at hget
    split at hget
    · split at hget
      · split at hget
        · exact .inl hget
        · exact hinsert (fun _ h => h) hget
      · exact .inl hget
    · exact .inl hget
  have hcarried : ∀ {effect : Effects}, (db.carriedOut now effect).get k = some r →
      db.db.get k = some r ∨ r.updatedAt = now := by
    intro effect hget
    cases effect with
    | addLsa e info => exact hinsert (fun _ h => h) hget
    | updateLsa e cost => exact hrecosted hget
    | removeLsa e =>
      simp only [carriedOut] at hget
      split at hget
      · rw [HashMap.get_erase] at hget
        split at hget
        · cases hget
        · exact .inl hget
      · exact .inl hget
    | rebuildFib => exact .inl hget
    | noop => exact .inl hget
  cases h with
  | quiet => exact .inl hr
  | addEndpoint => exact hcarried hr
  | removeEndpoint => exact hcarried hr
  | setAnycastCost _ hm =>
    obtain rfl | ⟨c, rfl⟩ := hm
    · exact .inl hr
    · exact hrecosted hr
  | addPeer => exact hinsert (fun _ h => h) hr
  | removePeer =>
    simp only [withoutAdjacency] at hr
    split at hr
    · split at hr
      · split at hr
        · exact hinsert (fun _ h => h) hr
        · exact .inl hr
      · exact .inl hr
    · exact .inl hr
  | handleLsa hh =>
    cases hh with
    | ignored => exact .inl hr
    | unknownDeath => exact .inl hr
    | died => exact .inl (get_withoutDead hr).2
    | stored => exact hinsert (fun _ h => h) hr
  | tick => exact absurd rfl htick
  | shutdown => cases hr

/-- A record after a refresh: an own one is refreshed if it is due. -/
theorem refreshed_cases (db : LsDb) (now : Instant) (r : LsaRecord) :
    ((db.refreshed now r).updatedAt = now ∧ (db.refreshed now r).lsa.seq = r.lsa.seq + 1) ∨
      (db.refreshed now r = r ∧
        (r.lsa.key.origin = db.selfId → now ≤ r.updatedAt + db.lsaTimeout / 3)) := by
  unfold refreshed dueForRefresh
  by_cases hown : r.lsa.key.origin = db.selfId
  · by_cases hdue : r.updatedAt + db.lsaTimeout / 3 < now
    · exact .inl (by simp [hown, hdue])
    · exact .inr ⟨by simp [hown, hdue], fun _ => Nat.le_of_not_lt hdue⟩
  · exact .inr ⟨by simp [hown], fun h => absurd h hown⟩

end Clock

/-- An LSA withdraws a record: its own, or those of its origin if it is known as a router. -/
def Withdraws (db : LsDb) (lsa : Lsa) (k : LsaKey) : Prop :=
  lsa.dead = true ∧ lsa.key.origin = k.origin ∧
    (lsa.key = k ∨ ∃ r adjs, db.db.get lsa.key = some r ∧ r.lsa.body = .router adjs)

/-- A database and the time. -/
structure Timed where
  db : LsDb
  now : Instant

inductive TimedEvent where
  | op (w : Wires) (op : Op)
  | wait (d : Duration)
  /-- The hash maps get another order. -/
  | rehash (db : LsDb)

namespace Timed

/-- What can happen, apart from another order. -/
def next (s : Timed) : TimedEvent → Option Timed
  | .op w op => (s.db.step w s.now op).map fun r => ⟨r.1, s.now⟩
  | .wait d => some ⟨s.db, s.now + d⟩
  | .rehash _ => none

def machine (selfId : NodeId) : Machine Timed TimedEvent where
  init s := ∃ now, s = ⟨LsDb.new selfId now, now⟩
  step s event s' := s.next event = some s' ∨
    ∃ db, event = .rehash db ∧ Rehash s.db db ∧ s' = ⟨db, s.now⟩

/-- The timer runs, and never later than `slack` after it has run before. -/
def Punctual (slack : Duration) (s : Timed) : TimedEvent → Prop
  | .op _ op => op ≠ .shutdown
  | .wait d => s.now + d ≤ s.db.lastTick + slack
  | .rehash _ => True

instance (slack : Duration) (s : Timed) (event : TimedEvent) : Decidable (s.Punctual slack event) :=
  match event with
  | .op _ op => inferInstanceAs (Decidable (op ≠ .shutdown))
  | .wait d => inferInstanceAs (Decidable (s.now + d ≤ s.db.lastTick + slack))
  | .rehash _ => .isTrue trivial

structure Inv (slack : Duration) (s : Timed) : Prop where
  ok : s.db.Ok
  ticked : s.db.lastTick ≤ s.now
  tickNear : s.now ≤ s.db.lastTick + slack
  refreshed : s.db.lastRefresh ≤ s.now
  refreshNear : s.db.lastTick ≤ s.db.lastRefresh + s.db.lsaTimeout / 3
  stamped : ∀ k r, s.db.db.get k = some r → r.updatedAt ≤ s.now
  fresh : ∀ k r, k.origin = s.db.selfId → s.db.db.get k = some r →
    s.db.lastRefresh ≤ r.updatedAt + s.db.lsaTimeout / 3

variable {slack : Duration} {s s' : Timed} {selfId : NodeId}

namespace Inv

theorem new (selfId : NodeId) (now : Instant) : Inv slack ⟨LsDb.new selfId now, now⟩ := by
  have hstamp : ∀ k r, (LsDb.new selfId now).db.get k = some r → r.updatedAt = now := by
    intro k r hr
    simp only [LsDb.new, HashMap.get_insert, HashMap.get_empty] at hr
    split at hr
    · cases hr
      rfl
    · cases hr
  refine ⟨Ok.new selfId now, Nat.le_refl _, Nat.le_add_right _ _, Nat.le_refl _,
    Nat.le_add_right _ _, ?_, ?_⟩
  · intro k r hr
    exact Nat.le_of_eq (hstamp k r hr)
  · intro k r _ hr
    rw [hstamp k r hr]
    exact Nat.le_add_right _ _

theorem tick (h : s.Inv slack) {w w' : Wires} {db' : LsDb}
    (hstep : s.db.step w s.now .tick = some (db', w')) : Inv slack ⟨db', s.now⟩ := by
  have hok := (step_advances h.ok hstep).ok
  have hself := (step_change hstep).1
  obtain ⟨⟨d, v, b⟩, htick, heq⟩ := Option.map_eq_some_iff.mp hstep
  cases heq
  obtain ⟨hlast, htimeout, ⟨hearly, hrefresh, hdb⟩ | ⟨hrefresh, hdb⟩⟩ := tick_clock htick
  · refine ⟨hok, Nat.le_of_eq hlast, ?_, ?_, ?_, ?_, ?_⟩
    · exact hlast ▸ Nat.le_add_right _ _
    · exact hrefresh ▸ h.refreshed
    · rw [hlast, hrefresh, htimeout]
      exact hearly
    · rw [hdb]
      exact h.stamped
    · rw [hdb, hself, hrefresh, htimeout]
      exact h.fresh
  · have hrecords : ∀ k r, d.db.get k = some r → (s.db.refreshAll s.now).db.get k = some r := by
      intro k r hr
      obtain hall | ⟨key, -, herase⟩ := hdb
      · rwa [hall] at hr
      · rw [herase, HashMap.get_erase] at hr
        split at hr
        · cases hr
        · exact hr
    refine ⟨hok, Nat.le_of_eq hlast, ?_, Nat.le_of_eq hrefresh, ?_, ?_, ?_⟩
    · exact hlast ▸ Nat.le_add_right _ _
    · rw [hlast, hrefresh]
      exact Nat.le_add_right _ _
    · intro k r hr
      have hr := hrecords k r hr
      simp only [refreshAll, HashMap.get_mapValues] at hr
      obtain ⟨r₀, hr₀, rfl⟩ := Option.map_eq_some_iff.mp hr
      obtain ⟨hnow, -⟩ | ⟨hsame, -⟩ := refreshed_cases s.db s.now r₀
      · exact Nat.le_of_eq hnow
      · rw [hsame]
        exact h.stamped k r₀ hr₀
    · intro k r hown hr
      have hr := hrecords k r hr
      simp only [refreshAll, HashMap.get_mapValues] at hr
      obtain ⟨r₀, hr₀, rfl⟩ := Option.map_eq_some_iff.mp hr
      rw [hrefresh, htimeout]
      obtain ⟨hnow, -⟩ | ⟨hsame, hdue⟩ := refreshed_cases s.db s.now r₀
      · rw [hnow]
        exact Nat.le_add_right _ _
      · rw [hsame]
        refine hdue ?_
        rw [h.ok.record_key k r₀ hr₀, ← hself]
        exact hown

theorem op (h : s.Inv slack) {w w' : Wires} {op : Op} {db' : LsDb}
    (hstep : s.db.step w s.now op = some (db', w')) : Inv slack ⟨db', s.now⟩ := by
  by_cases htick : op = .tick
  · rw [htick] at hstep
    exact h.tick hstep
  · obtain ⟨hself, hchange⟩ := step_change hstep
    have hclock := step_sameClock hstep htick
    have hstamp : ∀ k r, db'.db.get k = some r → s.db.db.get k = some r ∨ r.updatedAt = s.now :=
      fun k r hr => hchange.stamp htick hr
    refine ⟨(step_advances h.ok hstep).ok, ?_, ?_, ?_, ?_, ?_, ?_⟩
    · exact hclock.tick ▸ h.ticked
    · exact hclock.tick ▸ h.tickNear
    · exact hclock.refresh ▸ h.refreshed
    · rw [hclock.tick, hclock.refresh, hclock.timeout]
      exact h.refreshNear
    · intro k r hr
      obtain hold | hnow := hstamp k r hr
      · exact h.stamped k r hold
      · exact Nat.le_of_eq hnow
    · intro k r hown hr
      rw [hclock.refresh, hclock.timeout]
      obtain hold | hnow := hstamp k r hr
      · exact h.fresh k r (hown.trans hself) hold
      · rw [hnow]
        exact h.refreshed.trans (Nat.le_add_right _ _)

theorem step (h : s.Inv slack) {event : TimedEvent} (hpunctual : s.Punctual slack event)
    (hstep : (machine selfId).step s event s') : s'.Inv slack := by
  obtain hnext | ⟨db, rfl, hre, rfl⟩ := hstep
  · cases event with
    | op w op =>
      obtain ⟨⟨db', w'⟩, hop, rfl⟩ := Option.map_eq_some_iff.mp hnext
      exact h.op hop
    | wait d =>
      cases hnext
      exact ⟨h.ok, h.ticked.trans (Nat.le_add_right _ _), hpunctual,
        h.refreshed.trans (Nat.le_add_right _ _), h.refreshNear,
        fun k r hr => (h.stamped k r hr).trans (Nat.le_add_right _ _), h.fresh⟩
    | rehash db => cases hnext
  · have hclock := hre.sameClock
    refine ⟨h.ok.rehash hre, ?_, ?_, ?_, ?_, ?_, ?_⟩
    · exact hclock.tick ▸ h.ticked
    · exact hclock.tick ▸ h.tickNear
    · exact hclock.refresh ▸ h.refreshed
    · rw [hclock.tick, hclock.refresh, hclock.timeout]
      exact h.refreshNear
    · intro k r hr
      exact h.stamped k r (hre.get_record k ▸ hr)
    · intro k r hown hr
      rw [hclock.refresh, hclock.timeout]
      exact h.fresh k r (hown.trans hre.selfId) (hre.get_record k ▸ hr)

end Inv

theorem inv (h : (machine selfId).Reaches (Punctual slack) s) : s.Inv slack := by
  refine h.invariant ?_ ?_
  · rintro _ ⟨now, rfl⟩
    exact Inv.new selfId now
  · intro s event s' hs hpunctual hstep
    exact hs.step hpunctual hstep

/-- As long as the timer is punctual, no record of the node itself is ever older than two thirds
of the timeout and the slack, and the purge leaves all of them where they are. -/
theorem own_records_fresh (h : (machine selfId).Reaches (Punctual slack) s) {k : LsaKey}
    (hown : k.origin = s.db.selfId) {r : LsaRecord} (hr : s.db.db.get k = some r) :
    s.now ≤ r.updatedAt + s.db.lsaTimeout / 3 + s.db.lsaTimeout / 3 + slack ∧
      ∀ w db' w' b, s.db.tick w s.now = some (db', w', b) →
        ∃ r', db'.db.get k = some r' ∧ r'.lsa.body = r.lsa.body ∧ r.lsa.seq ≤ r'.lsa.seq := by
  have hinv := inv h
  refine ⟨?_, ?_⟩
  · calc s.now ≤ s.db.lastTick + slack := hinv.tickNear
      _ ≤ s.db.lastRefresh + s.db.lsaTimeout / 3 + slack := Nat.add_le_add_right hinv.refreshNear _
      _ ≤ r.updatedAt + s.db.lsaTimeout / 3 + s.db.lsaTimeout / 3 + slack :=
        Nat.add_le_add_right (Nat.add_le_add_right (hinv.fresh k r hown hr) _) _
  · intro w db' w' b htick
    have hrefreshed : (s.db.refreshAll s.now).db.get k = some (s.db.refreshed s.now r) := by
      simp [refreshAll, hr]
    have hseq : r.lsa.seq ≤ (s.db.refreshed s.now r).lsa.seq := by
      obtain hlsa | hlsa := s.db.refreshed_lsa s.now r
      · rw [hlsa]
      · rw [hlsa]
        exact Nat.le_succ _
    obtain ⟨-, -, ⟨-, -, hdb⟩ | ⟨-, hdb | ⟨key, hstale, hdb⟩⟩⟩ := tick_clock htick
    · rw [hdb]
      exact ⟨r, hr, rfl, Nat.le_refl _⟩
    · rw [hdb]
      exact ⟨_, hrefreshed, refreshed_body _ _ _, hseq⟩
    · rw [hdb, HashMap.get_erase, if_neg]
      · exact ⟨_, hrefreshed, refreshed_body _ _ _, hseq⟩
      · rintro rfl
        exact hinv.ok.not_stale hown hstale

/-- The timer is punctual, and no LSA withdraws the record. -/
def Undisturbed (slack : Duration) (k : LsaKey) (s : Timed) (event : TimedEvent) : Prop :=
  s.Punctual slack event ∧
    ∀ w lsa c, event = .op w (.handleLsa lsa c) → ¬ s.db.Withdraws lsa k

/-- Wires on which everything can be sent. -/
def clearWires : Wires := ⟨fun _ => .channel 32, fun _ => ⟨[], 32, false⟩, []⟩

/-- The own record of a node whose timer is hardly punctual. -/
theorem refreshed_in_time :
    ∃ s, (machine 1).Reaches (Punctual 20000) s ∧ s.now = 41000 ∧
      ∃ r, s.db.db.get ⟨1, 1⟩ = some r ∧ r.lsa.seq = 1 ∧
        s.now ≤ r.updatedAt + s.db.lsaTimeout / 3 + s.db.lsaTimeout / 3 + 20000 := by
  have hend : (Machine.run next (Punctual 20000) ⟨LsDb.new 1 0, 0⟩ [.wait 20000, .op clearWires .tick,
      .wait 20000, .op clearWires .tick, .wait 1000]).map
      (fun s => (s.now, s.db.selfId, s.db.db.get ⟨1, 1⟩)) =
      some (41000, 1, some ⟨⟨⟨1, 1⟩, 1, false, .router []⟩, 40000⟩) := by
    decide +kernel
  obtain ⟨s, hrun, hs⟩ := Option.map_eq_some_iff.mp hend
  obtain ⟨hnow, hself, hr⟩ : _ ∧ _ ∧ _ := by simpa only [Prod.mk.injEq] using hs
  have hreach : (machine 1).Reaches (Punctual 20000) s :=
    Machine.Reaches.run (fun _ _ _ h => .inl h) (.init ⟨0, rfl⟩) hrun
  exact ⟨s, hreach, hnow, _, hr, rfl, (own_records_fresh hreach hself.symm hr).1⟩

/-- What is left of a record: a version of it that is not older, or it has been stale. -/
def Kept (k : LsaKey) (r : LsaRecord) (s : Timed) : Prop :=
  r.updatedAt + s.db.lsaTimeout < s.now ∨
    ∃ r', s.db.db.get k = some r' ∧ r.lsa.seq ≤ r'.lsa.seq ∧ r.updatedAt ≤ r'.updatedAt

/-- One operation that does not withdraw the record of another node. -/
theorem Kept.op {k : LsaKey} {r : LsaRecord} (h : Kept k r s) (hinv : s.Inv slack)
    (hother : k.origin ≠ s.db.selfId) {w w' : Wires} {op : Op} {db' : LsDb}
    (hstep : s.db.step w s.now op = some (db', w')) (hop : op ≠ .shutdown)
    (hstays : ∀ lsa c, op = .handleLsa lsa c → ¬ s.db.Withdraws lsa k) :
    Kept k r ⟨db', s.now⟩ := by
  have htimeout : db'.lsaTimeout = s.db.lsaTimeout := by
    by_cases htick : op = .tick
    · rw [htick] at hstep
      obtain ⟨⟨d, v, b⟩, hd, heq⟩ := Option.map_eq_some_iff.mp hstep
      cases heq
      exact (tick_clock hd).2.1
    · exact (step_sameClock hstep htick).timeout
  obtain hstale | ⟨r', hr', hseq, hstamp⟩ := h
  · exact .inl (by rw [htimeout]; exact hstale)
  have hkeep : ∀ {m : HashMap LsaKey LsaRecord}, db'.db = m → m.get k = s.db.db.get k →
      Kept k r ⟨db', s.now⟩ := by
    intro m hm hget
    refine .inr ⟨r', ?_, hseq, hstamp⟩
    change db'.db.get k = some r'
    rw [hm, hget, hr']
  obtain ⟨-, hchange⟩ := step_change hstep
  generalize hparts : db'.parts = p at hchange
  have hdb : db'.db = p.records := congrArg Parts.records hparts
  cases hchange with
  | quiet => exact hkeep hdb rfl
  | addEndpoint => exact hkeep hdb (get_carriedOut_of_ne _ _ _ hother)
  | removeEndpoint => exact hkeep hdb (get_carriedOut_of_ne _ _ _ hother)
  | setAnycastCost _ hm =>
    obtain rfl | ⟨c, rfl⟩ := hm
    · exact hkeep hdb rfl
    · exact hkeep hdb (get_recosted_of_ne _ _ _ _ hother)
  | addPeer =>
    refine hkeep hdb ?_
    rw [HashMap.get_insert, if_neg]
    rintro rfl
    exact hother rfl
  | removePeer => exact hkeep hdb (get_withoutAdjacency_of_ne _ _ _ hother)
  | @handleLsa lsa c db₁ w₁ hh =>
    cases hh with
    | ignored => exact hkeep hdb rfl
    | unknownDeath => exact hkeep hdb rfl
    | died ho hd current hcurrent hlt =>
      have hno := hstays lsa c rfl
      by_cases horigin : lsa.key.origin = k.origin
      · have hkey : lsa.key ≠ k := fun heq => hno ⟨hd, horigin, .inl heq⟩
        refine hkeep hdb ?_
        cases hb : current.lsa.body with
        | router adjs => exact absurd ⟨hd, horigin, .inr ⟨current, adjs, hcurrent, hb⟩⟩ hno
        | endpoint info =>
          change (s.db.withoutDead lsa.key current).get k = _
          rw [withoutDead, hb]
          exact (HashMap.get_erase ..).trans (if_neg (Ne.symm hkey))
      · exact hkeep hdb (get_withoutDead_of_ne s.db current (Ne.symm horigin))
    | stored ho hd hnew =>
      by_cases hkey : k = lsa.key
      · refine .inr ⟨⟨lsa, s.now⟩, ?_, ?_, hstamp.trans (hinv.stamped k r' hr')⟩
        · change db'.db.get k = _
          rw [hdb]
          exact (HashMap.get_insert ..).trans (if_pos hkey)
        · exact hseq.trans (Nat.le_of_lt (hnew r' (hkey ▸ hr')))
      · exact hkeep hdb ((HashMap.get_insert ..).trans (if_neg hkey))
  | tick hm =>
    have hown : r'.lsa.key.origin ≠ s.db.selfId := by
      rw [hinv.ok.record_key k r' hr']
      exact hother
    have hsame : s.db.refreshed s.now r' = r' := by
      simp [refreshed, dueForRefresh, hown]
    have hall : (s.db.refreshAll s.now).db.get k = s.db.db.get k := by
      simp [refreshAll, hr', hsame]
    obtain rfl | ⟨key, ⟨stale, hget, hstale⟩, rfl⟩ := hm
    · exact hkeep hdb hall
    · by_cases hkey : k = key
      · subst hkey
        rw [hall, hr'] at hget
        cases hget
        refine .inl ?_
        change r.updatedAt + db'.lsaTimeout < s.now
        rw [htimeout]
        exact (Nat.add_le_add_right hstamp _).trans_lt hstale
      · refine hkeep hdb ?_
        rw [HashMap.get_erase, if_neg hkey, hall]
  | shutdown => exact absurd rfl hop

/-- A record of another node that nothing withdraws is still there, perhaps in a newer version,
until a whole timeout has passed since it was last heard of. -/
theorem others_records_kept (h : (machine selfId).Reaches (Punctual slack) s) {k : LsaKey}
    (hother : k.origin ≠ s.db.selfId) {r : LsaRecord} (hr : s.db.db.get k = some r)
    (hrun : ({ machine selfId with init := (· = s) } : Machine Timed TimedEvent).Reaches
      (Undisturbed slack k) s') (hnow : s'.now ≤ r.updatedAt + s'.db.lsaTimeout) :
    ∃ r', s'.db.db.get k = some r' ∧ r.lsa.seq ≤ r'.lsa.seq ∧ r.updatedAt ≤ r'.updatedAt := by
  have hkept : s'.Inv slack ∧ s'.db.selfId = s.db.selfId ∧ Kept k r s' := by
    refine Machine.Reaches.invariant
      (P := fun s' => s'.Inv slack ∧ s'.db.selfId = s.db.selfId ∧ Kept k r s') hrun ?_ ?_
    · rintro _ rfl
      exact ⟨inv h, rfl, .inr ⟨r, hr, Nat.le_refl _, Nat.le_refl _⟩⟩
    · rintro s₁ event s₂ ⟨hinv, hself, hkept⟩ ⟨hpunctual, hstays⟩ hstep
      have hstep : (machine selfId).step s₁ event s₂ := hstep
      have hinv' : s₂.Inv slack := hinv.step hpunctual hstep
      refine ⟨hinv', ?_⟩
      obtain hnext | ⟨db, rfl, hre, rfl⟩ := hstep
      · cases event with
        | op w op =>
          obtain ⟨⟨db', w'⟩, hop, rfl⟩ := Option.map_eq_some_iff.mp hnext
          refine ⟨(step_change hop).1.trans hself, ?_⟩
          refine hkept.op hinv ?_ hop hpunctual ?_
          · rw [hself]
            exact hother
          · rintro lsa c rfl
            exact hstays w lsa c rfl
        | wait d =>
          cases hnext
          refine ⟨hself, ?_⟩
          obtain hstale | hthere := hkept
          · exact .inl (Nat.lt_of_lt_of_le hstale (Nat.le_add_right _ _))
          · exact .inr hthere
        | rehash db => cases hnext
      · refine ⟨hre.selfId.trans hself, ?_⟩
        obtain hstale | ⟨r', hr', hle⟩ := hkept
        · refine .inl ?_
          change r.updatedAt + db.lsaTimeout < s₁.now
          rw [hre.sameClock.timeout]
          exact hstale
        · exact .inr ⟨r', (hre.get_record k).trans hr', hle⟩
  obtain hstale | hthere := hkept.2.2
  · exact absurd hnow (Nat.not_le.mpr hstale)
  · exact hthere

/-- A record of node 2 is still there nineteen seconds later. -/
theorem kept_while_fresh :
    ∃ s, (machine 1).Reaches (Punctual 20000) s ∧
      (∃ r, s.db.db.get ⟨2, 5⟩ = some r ∧ r.updatedAt = 7) ∧
      ∃ r', (⟨s.db, s.now + 19000⟩ : Timed).db.db.get ⟨2, 5⟩ = some r' ∧ 7 ≤ r'.updatedAt := by
  have hend : (Machine.run next (Punctual 20000) ⟨LsDb.new 1 0, 0⟩ [.wait 7,
      .op clearWires (.handleLsa ⟨⟨2, 5⟩, 0, false, .endpoint ⟨.unicast, .global, 0⟩⟩ 1)]).map
      (fun s => (s.now, s.db.lastTick, s.db.lsaTimeout, s.db.selfId, s.db.db.get ⟨2, 5⟩)) =
      some (7, 0, 60000, 1, some ⟨⟨⟨2, 5⟩, 0, false, .endpoint ⟨.unicast, .global, 0⟩⟩, 7⟩) := by
    decide +kernel
  obtain ⟨s, hrun, hs⟩ := Option.map_eq_some_iff.mp hend
  obtain ⟨hnow, htick, htimeout, hself, hr⟩ : _ ∧ _ ∧ _ ∧ _ ∧ _ := by
    simpa only [Prod.mk.injEq] using hs
  have hreach : (machine 1).Reaches (Punctual 20000) s :=
    Machine.Reaches.run (fun _ _ _ h => .inl h) (.init ⟨0, rfl⟩) hrun
  have hpunctual : Undisturbed 20000 ⟨2, 5⟩ s (.wait 19000) := by
    refine ⟨?_, fun w lsa c heq => by cases heq⟩
    change s.now + 19000 ≤ s.db.lastTick + 20000
    rw [hnow, htick]
    decide
  have hother : (⟨2, 5⟩ : LsaKey).origin ≠ s.db.selfId := by
    rw [hself]
    decide
  have hrun : ({ machine 1 with init := (· = s) } : Machine Timed TimedEvent).Reaches
      (Undisturbed 20000 ⟨2, 5⟩) ⟨s.db, s.now + 19000⟩ :=
    .step (.wait 19000) (.init rfl) hpunctual (.inl rfl)
  have hintime : s.now + 19000 ≤ 7 + s.db.lsaTimeout := by
    rw [hnow, htimeout]
    decide
  obtain ⟨r', hr', -, hstamp⟩ := others_records_kept hreach hother hr hrun hintime
  exact ⟨s, hreach, ⟨_, hr, rfl⟩, r', hr', hstamp⟩

end Timed

end Anybus.LsDb
