import Anybus.Db.Advances
import Anybus.Db.Change
import Anybus.Db.Sends

/-!
# What an operation puts on the links

LSAs leave a node in floods and in the exchange with a new peer. Wherever an operation
does either, what ends up in the channel of a link has passed the filter of that link,
and it is an own LSA, a stored one, or the one that is being handled.
-/

namespace Anybus

/-- What is queued was queued before, or is what some link permits of some LSA. -/
def Queues (links : Link → Prop) (lsas : Lsa → Prop) (w w' : Wires) : Prop :=
  ∀ t lsa, .lsa lsa ∈ (w'.node t).queue → .lsa lsa ∈ (w.node t).queue ∨
    ∃ link lsa₀, links link ∧ link.tx = t ∧ lsas lsa₀ ∧ link.permits lsa₀ = some lsa

namespace Queues

variable {links : Link → Prop} {lsas : Lsa → Prop} {w w' w'' : Wires}

theorem refl (w : Wires) : Queues links lsas w w := fun _ _ h => .inl h

theorem trans (h : Queues links lsas w w') (h' : Queues links lsas w' w'') :
    Queues links lsas w w'' := by
  intro t lsa hmem
  rcases h' t lsa hmem with hmem | hnew
  · exact h t lsa hmem
  · exact .inr hnew

/-- Writing to listeners puts nothing on the links. -/
theorem of_node (h : w'.node = w.node) : Queues links lsas w w' := by
  intro t lsa hmem
  rw [h] at hmem
  exact .inl hmem

end Queues

namespace LsDb

/-- A link that is up before or after an operation. -/
def Live (db db' : LsDb) (link : Link) : Prop :=
  ∃ c, db.links.get c = some link ∨ db'.links.get c = some link

/-- An LSA that an operation may hand out. -/
def Offered (db : LsDb) (op : Op) (lsa : Lsa) : Prop :=
  lsa.key.origin = db.selfId ∨ (∃ k r, db.db.get k = some r ∧ r.lsa = lsa) ∨
    ∃ c, op = .handleLsa lsa c

/-- The next version of a stored record, with another body. -/
def NextVersion (db : LsDb) (key : LsaKey) (lsa : Lsa) : Prop :=
  ∃ r, db.db.get key = some r ∧ lsa.key = r.lsa.key ∧ lsa.dead = r.lsa.dead ∧ lsa.seq = r.lsa.seq + 1

/-- The records after one of them was replaced by its next version, if it has one. -/
def replaced (db : LsDb) (key : LsaKey) (now : Instant) : Option Lsa → HashMap LsaKey LsaRecord
  | some lsa => db.db.insert key ⟨lsa, now⟩
  | none => db.db

section

variable {links : Link → Prop} {lsas : Lsa → Prop}

theorem trackAll_queues {sends : List (Link × Lsa)}
    (acc : HashMap (ConnectionId × LsaKey) Nat × Wires)
    (h : ∀ s ∈ sends, links s.1 ∧ lsas s.2) : Queues links lsas acc.2 (trackAll sends acc).2 := by
  intro t lsa hmem
  rw [trackAll_node] at hmem
  refine (Chan.mem_of_mem_offerAll hmem).imp_right fun hm => ?_
  obtain ⟨⟨link, lsa₀⟩, hs, hmsg⟩ := List.mem_filterMap.mp hm
  obtain ⟨hs, htx⟩ := List.mem_filter.mp hs
  obtain ⟨l, hl, heq⟩ := Option.map_eq_some_iff.mp hmsg
  cases heq
  exact ⟨link, lsa₀, (h _ hs).1, of_decide_eq_true htx, (h _ hs).2, hl⟩

/-- An acknowledgement is no LSA. -/
theorem sendAck_queues (db : LsDb) (w : Wires) (c : ConnectionId) (key : LsaKey) (seq : Nat) :
    Queues links lsas w (db.sendAck w c key seq) := by
  intro t lsa hmem
  rw [sendAck_node] at hmem
  refine .inl ((Chan.mem_of_mem_offerAll hmem).resolve_right fun hm => ?_)
  split at hm
  · simp at hm
  · cases hm

end

section Ops

variable {db db' : LsDb} {w w' : Wires} {now : Instant} {op : Op}

/-- Only own records are refreshed. -/
theorem refreshed_own {lsa : Lsa} (h : lsa ∈ db.refreshedLsas now) : lsa.key.origin = db.selfId := by
  obtain ⟨record, hrecord, rfl⟩ := List.mem_map.mp h
  have hdue := (List.mem_filter.mp hrecord).2
  rw [refreshed, if_pos hdue]
  exact of_decide_eq_true (Bool.and_eq_true_iff.mp hdue).1

theorem NextVersion.own {key : LsaKey} {lsa : Lsa} (hok : db.Ok) (h : db.NextVersion key lsa) :
    lsa.key = key := by
  obtain ⟨r, hr, hkey, -, -⟩ := h
  rw [hkey, hok.record_key _ _ hr]

theorem recostLsa_next {e : EndpointId} {cost : Cost} {lsa : Lsa} (h : db.recostLsa e cost = some lsa) :
    db.NextVersion ⟨db.selfId, e⟩ lsa := by
  unfold recostLsa at h
  split at h
  · next record hr =>
    split at h
    · split at h
      · cases h
      · obtain rfl := Option.some.inj h
        exact ⟨record, hr, rfl, rfl, rfl⟩
    · cases h
  · cases h

theorem shrunkLsa_next {c : ConnectionId} {lsa : Lsa} (h : db.shrunkLsa c = some lsa) :
    db.NextVersion db.selfKey lsa := by
  unfold shrunkLsa at h
  split at h
  · next record hr =>
    split at h
    · split at h
      · obtain rfl := Option.some.inj h
        exact ⟨record, hr, rfl, rfl, rfl⟩
      · cases h
    · cases h
  · cases h

/-- A changed cost is stored as the LSA that advertises it. -/
theorem recosted_eq (db : LsDb) (e : EndpointId) (cost : Cost) (now : Instant) :
    db.recosted e cost now = db.replaced ⟨db.selfId, e⟩ now (db.recostLsa e cost) := by
  unfold recosted recostLsa
  cases db.db.get ⟨db.selfId, e⟩ with
  | none => rfl
  | some record =>
    cases hb : record.lsa.body with
    | router adjs => simp only [hb, replaced]
    | endpoint body =>
      simp only [hb]
      split
      · rfl
      · rfl

/-- A withdrawn link is stored as the LSA that no longer lists it. -/
theorem withoutAdjacency_eq (db : LsDb) (c : ConnectionId) (now : Instant) :
    db.withoutAdjacency c now = db.replaced db.selfKey now (db.shrunkLsa c) := by
  unfold withoutAdjacency shrunkLsa
  cases db.db.get db.selfKey with
  | none => rfl
  | some record =>
    cases hb : record.lsa.body with
    | endpoint info => simp only [hb, replaced]
    | router adjs =>
      simp only [hb]
      split
      · rfl
      · rfl

theorem effectLsas_own (hok : db.Ok) {effect : Effects} {lsa : Lsa} (h : lsa ∈ db.effectLsas effect) :
    lsa.key.origin = db.selfId := by
  cases effect with
  | updateLsa e cost => exact congrArg LsaKey.origin ((recostLsa_next (Option.mem_toList.mp h)).own hok)
  | removeLsa e =>
    obtain ⟨record, hr, rfl⟩ := Option.map_eq_some_iff.mp (Option.mem_toList.mp h)
    exact congrArg LsaKey.origin (hok.record_key _ _ hr)
  | addLsa e info => cases h
  | rebuildFib => cases h
  | noop => cases h

theorem advertised_own (hok : db.Ok) (adjs : List Adjacency) (link : Link) :
    (db.advertised adjs link now).key.origin = db.selfId := by
  rw [advertised, ownRecord]
  cases hr : db.db.get db.selfKey with
  | none => rfl
  | some r => exact congrArg LsaKey.origin (hok.record_key _ _ hr)

/-- What is flooded is an own LSA or the one being handled. -/
theorem offered_of_floods (hok : db.Ok) {lsa : Lsa} {inC : Option ConnectionId}
    (h : (lsa, inC) ∈ db.floods w now op) :
    lsa.key.origin = db.selfId ∨ ∃ c, op = .handleLsa lsa c := by
  have hnone : ∀ {l : List Lsa}, (lsa, inC) ∈ l.map (·, (none : Option ConnectionId)) → lsa ∈ l := by
    intro l hmem
    obtain ⟨lsa', hl, heq⟩ := List.mem_map.mp hmem
    rwa [← (Prod.mk.inj heq).1]
  cases op with
  | addEndpoint request =>
    simp only [floods] at h
    split at h
    · rw [(Prod.mk.inj (List.mem_singleton.mp h)).1]
      exact .inl rfl
    · exact .inl (congrArg LsaKey.origin ((recostLsa_next (Option.mem_toList.mp (hnone h))).own hok))
    · cases h
  | removeEndpoint e => exact .inl (effectLsas_own hok (hnone h))
  | setAnycastCost e sender cost =>
    simp only [floods] at h
    split at h
    · exact .inl (congrArg LsaKey.origin ((recostLsa_next (Option.mem_toList.mp (hnone h))).own hok))
    · cases h
  | addPeer link =>
    simp only [floods] at h
    split at h
    · rw [(Prod.mk.inj (List.mem_singleton.mp h)).1]
      exact .inl (advertised_own hok _ link)
    · cases h
  | removePeer c =>
    simp only [floods] at h
    split at h
    · exact .inl (congrArg LsaKey.origin ((shrunkLsa_next (Option.mem_toList.mp (hnone h))).own hok))
    · cases h
  | handleLsa lsa' c =>
    have heq : lsa = lsa' := by
      simp only [floods] at h
      split at h
      · cases h
      · split at h
        · split at h
          · exact (Prod.mk.inj (List.mem_singleton.mp h)).1
          · cases h
        · split at h
          · cases h
          · exact (Prod.mk.inj (List.mem_singleton.mp h)).1
    exact .inr ⟨c, by rw [heq]⟩
  | handleAck c k s => cases h
  | tick =>
    simp only [floods] at h
    split at h
    · exact .inl (refreshed_own (hnone h))
    · cases h
  | buildFib => cases h
  | shutdown =>
    simp only [floods] at h
    split at h
    · next record hr =>
      split at h
      · rw [(Prod.mk.inj (List.mem_singleton.mp h)).1]
        exact .inl (congrArg LsaKey.origin (hok.record_key _ _ hr))
      · cases h
    · cases h

/-- The floods go over the links that are up afterwards, or before a shutdown. -/
theorem link_of_floodLinks (h : db.step w now op = some (db', w')) {f : Lsa × Option ConnectionId}
    (hf : f ∈ db.floods w now op) {c : ConnectionId} {link : Link}
    (hl : (db.floodLinks op).get c = some link) :
    db'.links.get c = some link ∨ op = .shutdown ∧ db'.links.get c = none ∧ db.links.get c = some link := by
  have hchange := (step_change h).2
  have herase : ∀ c', (db.links.erase c').get c = some link → db.links.get c = some link := by
    intro c' hc
    rw [HashMap.get_erase] at hc
    split at hc
    · cases hc
    · exact hc
  have hlinks : db'.links = db'.parts.links := rfl
  generalize hparts : db'.parts = parts at hchange
  rw [hparts] at hlinks
  cases hchange with
  | quiet hq =>
    cases op with
    | addPeer link' =>
      obtain ⟨info, hb⟩ := hq link' rfl
      simp [floods, hb] at hf
    | removePeer c' => exact .inl (hlinks ▸ herase c' hl)
    | _ => exact .inl (hlinks ▸ hl)
  | handleLsa hh => exact .inl (hlinks ▸ by cases hh <;> exact hl)
  | shutdown => exact .inr ⟨rfl, by rw [hlinks]; rfl, hl⟩
  | addPeer | removePeer | addEndpoint | removeEndpoint | setAnycastCost | tick =>
    exact .inl (hlinks ▸ hl)

/-- Every hand-over is of an LSA that is offered, over the link of its connection. -/
theorem mem_sends (hok : db.Ok) (h : db.step w now op = some (db', w')) {s : Link × Lsa}
    (hs : s ∈ db.sends w now op) :
    (db'.links.get s.1.connectionId = some s.1 ∨ op = .shutdown ∧
      db'.links.get s.1.connectionId = none ∧ db.links.get s.1.connectionId = some s.1) ∧
      db.Offered op s.2 := by
  have hok' := (step_advances hok h).ok
  rcases List.mem_append.mp hs with hs | hs
  · obtain ⟨⟨lsa, inC⟩, hf, hs⟩ := List.mem_flatMap.mp hs
    obtain ⟨heq, c, hc, -⟩ := mem_floodSends.mp hs
    refine ⟨?_, ?_⟩
    · rcases link_of_floodLinks h hf hc with hc | hc
      · rw [hok'.link_id c s.1 hc]
        exact .inl hc
      · rw [hok.link_id c s.1 hc.2.2]
        exact .inr hc
    · rw [heq]
      exact (offered_of_floods hok hf).imp_right .inr
  · cases op with
    | addPeer link =>
      have hstep : db.addPeer w link now = (db', w') := Option.some.inj h
      simp only at hs
      rcases addPeer_cases db w link now with ⟨info, hb, heq⟩ | ⟨adjs, hb, heq⟩
      · simp [hb] at hs
      · simp only [hb] at hs
        obtain ⟨r, hr, rfl⟩ := List.mem_map.mp hs
        refine ⟨.inl ?_, ?_⟩
        · rw [heq] at hstep
          rw [← (Prod.mk.inj hstep).1]
          simp [withPeer, requestRebuild]
        · obtain ⟨k, hk⟩ := HashMap.mem_values_iff.mp hr
          simp only [withPeer, requestRebuild, HashMap.get_insert] at hk
          split at hk
          · obtain rfl := Option.some.inj hk
            exact .inl (advertised_own hok adjs link)
          · exact .inr (.inl ⟨k, r, hk, rfl⟩)
    | _ => cases hs

theorem live_of_sends (hok : db.Ok) (h : db.step w now op = some (db', w')) {s : Link × Lsa}
    (hs : s ∈ db.sends w now op) : Live db db' s.1 := by
  rcases (mem_sends hok h hs).1 with hl | hl
  · exact ⟨_, .inr hl⟩
  · exact ⟨_, .inl hl.2.2⟩

/-- What an operation puts on the links comes from its hand-overs. -/
theorem queues_of_sends {links : Link → Prop} {lsas : Lsa → Prop}
    (h : db.step w now op = some (db', w')) (hmem : ∀ s ∈ db.sends w now op, links s.1 ∧ lsas s.2) :
    Queues links lsas w w' := by
  by_cases hack : ∃ c k s, op = .handleAck c k s
  · obtain ⟨c, k, s, rfl⟩ := hack
    obtain ⟨-, rfl⟩ := Prod.mk.inj (Option.some.inj h)
    exact .refl w
  · have htracks := step_tracks h fun c k s heq => hack ⟨c, k, s, heq⟩
    have hbase : Queues links lsas w (db.acknowledged w op) := by
      cases op with
      | handleLsa lsa c => exact db.sendAck_queues w c lsa.key lsa.seq
      | _ => exact .refl w
    have hsends := trackAll_queues (db.pendingTx, db.acknowledged w op) hmem
    exact hbase.trans (hsends.trans (.of_node htracks.2))

/-- What any operation puts on the links. -/
theorem step_queues (hok : db.Ok) (h : db.step w now op = some (db', w')) :
    Queues (Live db db') (db.Offered op) w w' := by
  exact queues_of_sends h fun s hs => ⟨live_of_sends hok h hs, (mem_sends hok h hs).2⟩

/-- A record of another node is stored only when its LSA arrives. -/
theorem step_stores (hok : db.Ok) (h : db.step w now op = some (db', w')) {k : LsaKey}
    {r : LsaRecord} (hr : db'.db.get k = some r) : db.Offered op r.lsa := by
  have hkey : r.lsa.key = k := (step_advances hok h).ok.record_key k r hr
  by_cases hown : k.origin = db.selfId
  · exact .inl (by rw [hkey, hown])
  have hold : db.db.get k = some r → db.Offered op r.lsa := fun h => .inr (.inl ⟨k, r, h, rfl⟩)
  have hchange := (step_change h).2
  have hrec : db'.parts.records.get k = some r := hr
  generalize hparts : db'.parts = parts at hchange hrec
  cases hchange with
  | quiet => exact hold hrec
  | addEndpoint hadd => exact hold (by rwa [get_carriedOut_of_ne db now _ hown] at hrec)
  | removeEndpoint e => exact hold (by rwa [get_carriedOut_of_ne db now _ hown] at hrec)
  | setAnycastCost hset hm =>
    rcases hm with rfl | ⟨c, rfl⟩
    · exact hold hrec
    · exact hold (by rwa [get_recosted_of_ne db _ c now hown] at hrec)
  | addPeer hb =>
    rw [HashMap.get_insert, if_neg] at hrec
    · exact hold hrec
    · rintro rfl
      exact hown rfl
  | removePeer hl => exact hold (by rwa [get_withoutAdjacency_of_ne db _ now hown] at hrec)
  | handleLsa hh =>
    cases hh with
    | ignored => exact hold hrec
    | unknownDeath => exact hold hrec
    | died _ _ r' hr' => exact hold (get_withoutDead hrec).2
    | stored =>
      have hins : (db.db.insert _ _).get k = some r := hrec
      rw [HashMap.get_insert] at hins
      split at hins
      · obtain rfl := Option.some.inj hins
        exact .inr (.inr ⟨_, rfl⟩)
      · exact hold hins
  | tick hm =>
    have hrefresh : ∀ r', (db.refreshAll now).db.get k = some r' → db.db.get k = some r' := by
      intro r' hr'
      rw [refreshAll, HashMap.get_mapValues] at hr'
      obtain ⟨r₀, hr₀, rfl⟩ := Option.map_eq_some_iff.mp hr'
      have hdue : ¬ db.dueForRefresh now r₀ = true := by
        intro hdue
        have horigin := of_decide_eq_true (Bool.and_eq_true_iff.mp hdue).1
        exact hown (by rw [← horigin, hok.record_key k r₀ hr₀])
      rw [refreshed, if_neg hdue, hr₀]
    rcases hm with rfl | ⟨key, -, rfl⟩
    · exact hold (hrefresh r hrec)
    · rw [HashMap.get_erase] at hrec
      split at hrec
      · cases hrec
      · exact hold (hrefresh r hrec)
  | shutdown => simp at hrec

/-- A link is up only after it was added. -/
theorem step_links (h : db.step w now op = some (db', w')) {c : ConnectionId} {link : Link}
    (hl : db'.links.get c = some link) :
    db.links.get c = some link ∨ op = .addPeer link ∧ c = link.connectionId := by
  have hchange := (step_change h).2
  have hlink : db'.parts.links.get c = some link := hl
  generalize hparts : db'.parts = parts at hchange hlink
  cases hchange with
  | addPeer hb =>
    rw [HashMap.get_insert] at hlink
    split at hlink
    · obtain rfl := Option.some.inj hlink
      exact .inr ⟨rfl, ‹_›⟩
    · exact .inl hlink
  | removePeer hl' =>
    rw [HashMap.get_erase] at hlink
    split at hlink
    · cases hlink
    · exact .inl hlink
  | handleLsa hh => cases hh <;> exact .inl hlink
  | shutdown => simp at hlink
  | quiet | addEndpoint | removeEndpoint | setAnycastCost | tick => exact .inl hlink

end Ops

end LsDb

end Anybus
