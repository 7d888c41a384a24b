import Anybus.Db.Change

/-!
# Purging stale records

A purge is exact if it removes every record that was not heard of for a whole timeout,
with the routes that were learned from it, and nothing else. The purge of the code settles
its result by peeking at the first stale record. It extracts that record, and neither the
other stale records nor any route.
-/

namespace Anybus.LsDb

/-- What a purge should leave. -/
structure PurgedExactly (db : LsDb) (now : Instant) (r : LsDb × Bool) : Prop where
  complete : ∀ key record, r.1.db.get key = some record → now ≤ record.updatedAt + db.lsaTimeout
  younger : ∀ key record, db.db.get key = some record → now ≤ record.updatedAt + db.lsaTimeout →
    r.1.db.get key = some record
  nothingNew : ∀ key record, r.1.db.get key = some record → db.db.get key = some record
  withdrawn : ∀ key, db.Expired now key → ¬ r.1.routes.HasRemote key.endpointId key.origin
  others : ∀ e via, (∀ key, db.Expired now key → key.endpointId = e → via ≠ .remote key.origin) →
    (r.1.routes.routesOf e).filter (fun route => route.via = via) =
      (db.routes.routesOf e).filter fun route => route.via = via
  result : r.2 = true ↔ ∃ key, db.Expired now key

variable {db : LsDb} {now : Instant}

/-- A purge with nothing to purge is exact. -/
theorem purgedExactly_self (h : ∀ key, ¬ db.Expired now key) : db.PurgedExactly now (db, false) where
  complete key record hrecord := by
    by_contra hstale
    exact h key ⟨record, hrecord, not_le.mp hstale⟩
  younger _ _ hrecord _ := hrecord
  nothingNew _ _ hrecord := hrecord
  withdrawn key hkey := absurd hkey (h key)
  others _ _ _ := rfl
  result := by
    constructor
    · intro hfalse
      cases hfalse
    · rintro ⟨key, hkey⟩
      exact absurd hkey (h key)

/-- Erasing one record purges exactly if no other record is stale and no route was learned
from it. -/
theorem purgedExactly_erase_iff {key : LsaKey} (hkey : db.Expired now key) :
    db.PurgedExactly now ({ db with db := db.db.erase key }, true) ↔
      (∀ key', db.Expired now key' → key' = key) ∧
        ¬ db.routes.HasRemote key.endpointId key.origin := by
  constructor
  · intro h
    refine ⟨fun key' ⟨record, hrecord, hstale⟩ => ?_, h.withdrawn key hkey⟩
    by_contra hne
    have hkept : (db.db.erase key).get key' = some record := by
      rw [HashMap.get_erase, if_neg hne]
      exact hrecord
    exact absurd hstale (not_lt.mpr (h.complete key' record hkept))
  · rintro ⟨honly, hroute⟩
    refine ⟨?_, ?_, ?_, ?_, ?_, ?_⟩
    · intro key' record hkept
      simp only [HashMap.get_erase] at hkept
      split at hkept
      · cases hkept
      · next hne =>
        by_contra hstale
        exact hne (honly key' ⟨record, hkept, not_le.mp hstale⟩)
    · intro key' record hrecord hyoung
      simp only [HashMap.get_erase]
      rw [if_neg]
      · exact hrecord
      · rintro rfl
        obtain ⟨record', hrecord', hstale⟩ := hkey
        rw [hrecord] at hrecord'
        cases hrecord'
        exact absurd hstale (not_lt.mpr hyoung)
    · intro key' record hkept
      simp only [HashMap.get_erase] at hkept
      split at hkept
      · cases hkept
      · exact hkept
    · intro key' hkey'
      rw [honly key' hkey']
      exact hroute
    · exact fun _ _ _ => rfl
    · exact ⟨fun _ => ⟨key, hkey⟩, fun _ => rfl⟩

/-- The purge is exact if and only if at most one record is stale and no route was learned
from it. -/
theorem purge_exact_iff (db : LsDb) (now : Instant) :
    db.PurgedExactly now (db.purgeStaleLsas now) ↔
      (∀ key key', db.Expired now key → db.Expired now key' → key = key') ∧
        ∀ key, db.Expired now key → ¬ db.routes.HasRemote key.endpointId key.origin := by
  obtain ⟨hnone, heq⟩ | ⟨key, hkey, heq⟩ := purgeStaleLsas_cases db now
  · rw [heq]
    refine ⟨fun _ => ⟨?_, ?_⟩, fun _ => purgedExactly_self hnone⟩
    · exact fun key _ hkey => absurd hkey (hnone key)
    · exact fun key hkey => absurd hkey (hnone key)
  · rw [heq, purgedExactly_erase_iff hkey]
    constructor
    · rintro ⟨honly, hroute⟩
      refine ⟨fun key₁ key₂ h₁ h₂ => ?_, fun key' hkey' => ?_⟩
      · rw [honly key₁ h₁, honly key₂ h₂]
      · rw [honly key' hkey']
        exact hroute
    · rintro ⟨huniq, hroute⟩
      exact ⟨fun key' hkey' => huniq key' key hkey' hkey, hroute key hkey⟩

/-- A database that has heard of two endpoints of node 2, and its own records refreshed
more than a timeout later. -/
def silentNeighbour : Option LsDb :=
  ((LsDb.new 1 0).run [] [.at false (.handleLsa ⟨⟨2, 5⟩, 0, false, .endpoint ⟨.unicast, .global, 0⟩⟩ 1),
    .at false (.handleLsa ⟨⟨2, 6⟩, 0, false, .endpoint ⟨.unicast, .global, 0⟩⟩ 1)]).map
      fun r => r.1.refreshAll 60001

/-- One of the two stale records stays, and so does the route to the other endpoint. -/
theorem purge_keeps_stale : ∃ db, silentNeighbour = some db ∧
    ¬ db.PurgedExactly 60001 (db.purgeStaleLsas 60001) ∧
    (db.db.get ⟨2, 5⟩).isSome ∧ (db.db.get ⟨2, 6⟩).isSome := by
  have hrun : silentNeighbour.map (fun db =>
      ((db.db.get ⟨2, 5⟩).map (fun r => r.updatedAt + db.lsaTimeout),
        (db.db.get ⟨2, 6⟩).map (fun r => r.updatedAt + db.lsaTimeout))) =
      some (some 60000, some 60000) := by
    decide +kernel
  obtain ⟨db, hdb, heq⟩ := Option.map_eq_some_iff.mp hrun
  obtain ⟨h₅, h₆⟩ := Prod.mk.inj heq
  obtain ⟨r₅, hr₅, ht₅⟩ := Option.map_eq_some_iff.mp h₅
  obtain ⟨r₆, hr₆, ht₆⟩ := Option.map_eq_some_iff.mp h₆
  have hexp₅ : db.Expired 60001 ⟨2, 5⟩ := ⟨r₅, hr₅, by rw [ht₅]; decide⟩
  have hexp₆ : db.Expired 60001 ⟨2, 6⟩ := ⟨r₆, hr₆, by rw [ht₆]; decide⟩
  refine ⟨db, hdb, fun hexact => ?_, Option.isSome_of_eq_some hr₅, Option.isSome_of_eq_some hr₆⟩
  obtain ⟨hnone, -⟩ | ⟨key, hkey, hpurge⟩ := purgeStaleLsas_cases db 60001
  · exact hnone _ hexp₅
  · rw [hpurge] at hexact
    obtain ⟨honly, -⟩ := (purgedExactly_erase_iff hkey).mp hexact
    have hsame := (honly _ hexp₅).trans (honly _ hexp₆).symm
    cases hsame

end Anybus.LsDb
