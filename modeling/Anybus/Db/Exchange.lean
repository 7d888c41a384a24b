import Anybus.Db.Flood
import Mathlib.Data.List.Perm.Subperm

/-!
# The database exchange with a new neighbour

`addPeer` offers the whole database to the queue of the new link at once. What does
not fit is neither queued nor remembered as pending. The exchange is complete
exactly when there is nothing to send, or the link is open and all permitted
records fit into its queue.
-/

namespace Anybus

/-- The bound of the queue that registering a peer creates. -/
def peerQueueCapacity : Nat := 32

namespace LsDb

/-- A link that has just been registered: its connection id is new and its queue is
empty. -/
structure FreshLink (db : LsDb) (w : Wires) (link : Link) : Prop where
  new_id : db.links.get link.connectionId = none
  not_pending : ∀ k, db.pendingTx.get (link.connectionId, k) = none
  new_channel : ∀ c l, db.links.get c = some l → l.tx ≠ link.tx
  empty : (w.node link.tx).queue = []
  capacity : (w.node link.tx).capacity = peerQueueCapacity

/-- After the exchange every permitted record is queued or pending. -/
def ExchangeComplete (db : LsDb) (w : Wires) (link : Link) (now : Instant) : Prop :=
  let r := db.addPeer w link now
  ∀ k record l, r.1.db.get k = some record → link.permits record.lsa = some l →
    .lsa l ∈ (r.2.node link.tx).queue ∨
      r.1.pendingTx.get (link.connectionId, record.lsa.key) = some record.lsa.seq

/-- The permitted records apart from the own router LSA. -/
def permittedOthers (db : LsDb) (link : Link) : List (Σ _ : LsaKey, LsaRecord) :=
  db.db.entries.filter fun e => e.1 ≠ db.selfKey ∧ (link.permits e.2.lsa).isSome

/-- The own record is missing or a router's. -/
def OwnRouter (db : LsDb) : Prop :=
  ∀ r, db.db.get db.selfKey = some r → ∃ adjs, r.lsa.body = .router adjs

/-- There is nothing to send, or the link is open and everything fits beside the own
router LSA. -/
def ExchangeFits (db : LsDb) (w : Wires) (link : Link) : Prop :=
  (¬ db.OwnRouter ∧ ∀ k r, db.db.get k = some r → link.permits r.lsa = none) ∨
  (db.OwnRouter ∧ (link.realms = ∅ ∨
    ((w.node link.tx).closed = false ∧ (db.permittedOthers link).length < peerQueueCapacity)))

/-- The keys of the queued LSAs. -/
def lsaKeys (queue : List NodeMessage) : List LsaKey := queue.filterMap fun
  | .lsa l => some l.key
  | _ => none

/-- The keys of the records a link may carry, in the order of the exchange. -/
def permittedKeys (db : LsDb) (link : Link) : List LsaKey :=
  (db.db.values.filter fun record => (link.permits record.lsa).isSome).map
    fun record => record.lsa.key

section Peer

variable {db : LsDb} {w : Wires} {link : Link} {now : Instant} {adjs : List Adjacency}

theorem ownRouter_iff_body (db : LsDb) (now : Instant) :
    db.OwnRouter ↔ ∃ adjs, (db.ownRecord now).lsa.body = .router adjs := by
  unfold OwnRouter ownRecord
  cases db.db.get db.selfKey with
  | none => simp
  | some r => simp

/-- The own LSA advertises the new link, so a link with realms carries it. -/
theorem permits_advertised (hr : link.realms ≠ ∅) :
    (link.permits (db.advertised adjs link now)).isSome := by
  refine Link.permits_router_isSome rfl (List.mem_append_right _ List.mem_cons_self) ?_
  rw [Finset.inter_self]
  exact hr

/-- The advertisement leaves out the new link, so its channel is only offered the
exchange. -/
theorem floodSends_withPeer_filter (h : db.FreshLink w link) (lsa : Lsa) :
    ((db.withPeer adjs link now).floodSends lsa (some link.connectionId)).filter
      (fun s => s.1.tx = link.tx) = [] := by
  rw [List.filter_eq_nil_iff]
  rintro ⟨l, lsa'⟩ hs htx
  obtain ⟨_, c, hget, hskip⟩ := mem_floodSends.mp hs
  have hc : c ≠ link.connectionId := by
    rintro rfl
    simp [floodSkips] at hskip
  simp only [withPeer, requestRebuild, HashMap.get_insert, if_neg hc] at hget
  exact h.new_channel c l hget (by simpa using htx)

/-- What the exchange leaves in the queue of the new link. -/
theorem exchange_queue (h : db.FreshLink w link) (adjs : List Adjacency) (now : Instant) (lsa : Lsa) :
    ((trackAll ((db.withPeer adjs link now).floodSends lsa (some link.connectionId) ++
      (db.withPeer adjs link now).exchangeSends link) (db.pendingTx, w)).2.node link.tx).queue =
    if (w.node link.tx).closed then [] else
      ((db.withPeer adjs link now).db.values.filterMap fun record => link.message record.lsa).take
        peerQueueCapacity := by
  have hall : ((db.withPeer adjs link now).exchangeSends link).filter (fun s => s.1.tx = link.tx) =
      (db.withPeer adjs link now).exchangeSends link := by
    rw [List.filter_eq_self]
    simp [exchangeSends]
  rw [trackAll_node, List.filter_append, floodSends_withPeer_filter h, hall, List.nil_append,
    Chan.offerAll_queue, h.empty, h.capacity]
  simp [exchangeSends, List.filterMap_map]

/-- Nothing is pending on the new link that is not queued there. -/
theorem exchange_pending (hok : db.Ok) (h : db.FreshLink w link) {lsa : Lsa} {k : LsaKey} {v : Nat}
    (hp : (trackAll ((db.withPeer adjs link now).floodSends lsa (some link.connectionId) ++
      (db.withPeer adjs link now).exchangeSends link) (db.pendingTx, w)).1.get
        (link.connectionId, k) = some v) :
    k ∈ lsaKeys ((trackAll ((db.withPeer adjs link now).floodSends lsa (some link.connectionId) ++
      (db.withPeer adjs link now).exchangeSends link) (db.pendingTx, w)).2.node link.tx).queue := by
  rcases trackAll_pending hp with hp | ⟨⟨l, lsa'⟩, hs, hc, hk, m, hm, hq⟩
  · rw [h.not_pending k] at hp
    cases hp
  · rcases List.mem_append.mp hs with hs | hs
    · obtain ⟨_, c, hget, hskip⟩ := mem_floodSends.mp hs
      have hne : c ≠ link.connectionId := by
        rintro rfl
        simp [floodSkips] at hskip
      simp only [withPeer, requestRebuild, HashMap.get_insert, if_neg hne] at hget
      exact absurd ((hok.link_id c l hget).symm.trans hc) hne
    · obtain ⟨record, _, heq⟩ := List.mem_map.mp hs
      obtain ⟨rfl, rfl⟩ := Prod.mk.inj heq
      rw [lsaKeys, List.mem_filterMap]
      exact ⟨.lsa m, hq, by rw [← hk]; exact congrArg some (Link.permits_some hm).1⟩

/-- The messages of the exchange carry the keys of their records. -/
theorem lsaKeys_message (link : Link) (records : List LsaRecord) :
    lsaKeys (records.filterMap fun record => link.message record.lsa) =
      (records.filter fun record => (link.permits record.lsa).isSome).map
        fun record => record.lsa.key := by
  induction records with
  | nil => rfl
  | cons record records ih =>
    unfold lsaKeys Link.message at ih ⊢
    cases hp : link.permits record.lsa with
    | none => simp [hp, ih]
    | some l => simp [hp, ih, (Link.permits_some hp).1]

/-- Every message of the exchange has a key. -/
theorem lsaKeys_length_message (link : Link) (records : List LsaRecord) :
    (lsaKeys (records.filterMap fun record => link.message record.lsa)).length =
      (records.filterMap fun record => link.message record.lsa).length := by
  rw [lsaKeys_message, List.length_map]
  induction records with
  | nil => rfl
  | cons record records ih =>
    unfold Link.message at ih ⊢
    cases hp : link.permits record.lsa <;> simp [hp, ih]

/-- A bounded part of a queue has boundedly many keys. -/
theorem lsaKeys_take_length (n : Nat) (queue : List NodeMessage) :
    (lsaKeys (queue.take n)).length ≤ n :=
  (List.length_filterMap_le _ _).trans (List.length_take_le n queue)

/-- Records are stored under their keys, so no key is sent twice. -/
theorem nodup_permittedKeys (hok : db.Ok) : (db.permittedKeys link).Nodup := by
  have hkeys : db.db.values.map (fun record => record.lsa.key) = db.db.keys := by
    unfold HashMap.values
    rw [AList.keys, List.keys, List.map_map]
    apply List.map_congr_left
    rintro ⟨k, r⟩ he
    exact hok.record_key k r (HashMap.mem_entries_iff.mp he)
  have hsub : (db.permittedKeys link).Sublist (db.db.values.map fun record => record.lsa.key) :=
    List.filter_sublist.map _
  exact (hkeys ▸ db.db.keys_nodup).sublist hsub

/-- A new link keeps the maps in agreement. -/
theorem Ok.withPeer (hok : db.Ok) : (db.withPeer adjs link now).Ok := by
  have hself : (db.advertised adjs link now).key = db.selfKey := by
    unfold advertised ownRecord
    cases hr : db.db.get db.selfKey with
    | none => rfl
    | some r => exact hok.record_key _ r hr
  constructor
  · intro k r hk
    simp only [LsDb.withPeer, requestRebuild, HashMap.get_insert] at hk
    split at hk
    · next heq =>
      cases hk
      rw [heq]
      exact hself
    · exact hok.record_key k r hk
  · intro c l hc
    simp only [LsDb.withPeer, requestRebuild, HashMap.get_insert] at hc
    split at hc
    · next heq =>
      cases hc
      exact heq.symm
    · exact hok.link_id c l hc

/-- Beside the own LSA the exchange sends the other permitted records. -/
theorem length_permittedKeys_withPeer (db : LsDb) (adjs : List Adjacency) (now : Instant)
    (hr : link.realms ≠ ∅) :
    ((db.withPeer adjs link now).permittedKeys link).length = (db.permittedOthers link).length + 1 := by
  have hcount : ∀ d : LsDb, (d.permittedKeys link).length =
      (d.db.entries.filter fun e => (link.permits e.2.lsa).isSome).length := by
    intro d
    unfold permittedKeys HashMap.values
    rw [List.length_map, List.filter_map, List.length_map]
    rfl
  have hperm := (HashMap.insert_entries_perm db.db db.selfKey
    ⟨db.advertised adjs link now, now⟩).filter fun e => (link.permits e.2.lsa).isSome
  rw [hcount]
  change ((db.db.insert db.selfKey ⟨db.advertised adjs link now, now⟩).entries.filter _).length = _
  rw [hperm.length_eq, List.filter_cons, if_pos (permits_advertised hr), List.length_cons,
    List.filter_filter]
  unfold permittedOthers
  congr 2
  apply List.filter_congr
  intro e _
  simp [Bool.and_comm]

/-- A complete exchange fits: every permitted key is queued, and none is sent twice. -/
theorem ExchangeComplete.fits (hok : db.Ok) (h : db.FreshLink w link)
    (hall : db.ExchangeComplete w link now) : db.ExchangeFits w link := by
  rcases addPeer_cases db w link now with ⟨info, hb, heq⟩ | ⟨adjs, hb, heq⟩
  · -- The link is refused, so nothing is sent at all.
    refine Or.inl ⟨by rw [ownRouter_iff_body db now, hb]; simp, fun k r hk => ?_⟩
    simp only [ExchangeComplete, heq, h.empty, h.not_pending] at hall
    cases hp : link.permits r.lsa with
    | none => rfl
    | some l => simpa using hall k r l hk hp
  · refine Or.inr ⟨(ownRouter_iff_body db now).mpr ⟨adjs, hb⟩, ?_⟩
    by_cases hr : link.realms = ∅
    · exact Or.inl hr
    have hqueue := exchange_queue h adjs now (db.advertised adjs link now)
    simp only [ExchangeComplete, heq] at hall
    have hsub : (db.withPeer adjs link now).permittedKeys link ⊆ lsaKeys
        ((trackAll ((db.withPeer adjs link now).floodSends (db.advertised adjs link now)
          (some link.connectionId) ++ (db.withPeer adjs link now).exchangeSends link)
            (db.pendingTx, w)).2.node link.tx).queue := by
      intro key hkey
      obtain ⟨record, hrec, rfl⟩ := List.mem_map.mp hkey
      obtain ⟨hval, hperm⟩ := List.mem_filter.mp hrec
      obtain ⟨k, hk⟩ := HashMap.mem_values_iff.mp hval
      obtain ⟨l, hl⟩ := Option.isSome_iff_exists.mp hperm
      rcases hall k record l hk hl with hq | hp
      · rw [lsaKeys, List.mem_filterMap]
        exact ⟨.lsa l, hq, congrArg some (Link.permits_some hl).1⟩
      · exact exchange_pending hok h hp
    have hlen := ((nodup_permittedKeys hok.withPeer).subperm hsub).length_le
    rw [length_permittedKeys_withPeer db adjs now hr, hqueue] at hlen
    refine Or.inr ?_
    cases hc : (w.node link.tx).closed with
    | true => simp [hc, lsaKeys] at hlen
    | false =>
      rw [hc, if_neg Bool.false_ne_true] at hlen
      have htake := lsaKeys_take_length peerQueueCapacity
        ((db.withPeer adjs link now).db.values.filterMap fun record => link.message record.lsa)
      exact ⟨rfl, by omega⟩

/-- What fits is queued. -/
theorem ExchangeFits.complete (h : db.FreshLink w link) (hfits : db.ExchangeFits w link) :
    db.ExchangeComplete w link now := by
  rcases addPeer_cases db w link now with ⟨info, hb, heq⟩ | ⟨adjs, hb, heq⟩
  · simp only [ExchangeComplete, heq]
    intro k record l hk hl
    rcases hfits with ⟨_, hnone⟩ | ⟨hown, _⟩
    · rw [hnone k record hk] at hl
      cases hl
    · rw [ownRouter_iff_body db now, hb] at hown
      simp at hown
  · have hown : db.OwnRouter := (ownRouter_iff_body db now).mpr ⟨adjs, hb⟩
    have hqueue := exchange_queue h adjs now (db.advertised adjs link now)
    simp only [ExchangeComplete, heq]
    intro k record l hk hl
    have hr : link.realms ≠ ∅ := by
      intro hr
      rw [Link.permits_of_no_realms hr] at hl
      cases hl
    rcases hfits with ⟨hnot, _⟩ | ⟨_, hempty | ⟨hc, hlen⟩⟩
    · exact absurd hown hnot
    · exact absurd hempty hr
    · left
      have hcount := length_permittedKeys_withPeer db adjs now hr
      have hfit : ((db.withPeer adjs link now).db.values.filterMap
          fun record => link.message record.lsa).length ≤ peerQueueCapacity := by
        rw [← lsaKeys_length_message, lsaKeys_message]
        change ((db.withPeer adjs link now).permittedKeys link).length ≤ _
        omega
      rw [hqueue, hc, if_neg Bool.false_ne_true, List.take_of_length_le hfit, List.mem_filterMap]
      exact ⟨record, HashMap.mem_values_iff.mpr ⟨k, hk⟩, by rw [Link.message, hl]; rfl⟩

/-- The exchange with a new neighbour is complete exactly when everything fits. -/
theorem exchangeComplete_iff (db : LsDb) (w : Wires) (link : Link) (now : Instant) (hok : db.Ok)
    (h : db.FreshLink w link) : db.ExchangeComplete w link now ↔ db.ExchangeFits w link :=
  ⟨fun hall => hall.fits hok h, fun hfits => hfits.complete h⟩

end Peer

end LsDb

/-- A node that knows a number of global endpoints of node 2. -/
def endpointsDb (n : Nat) : LsDb :=
  { LsDb.new 1 0 with
    db := (List.range n).foldl (fun (m : HashMap LsaKey LsaRecord) i =>
      m.insert ⟨2, Fin.ofNat _ i⟩
        ⟨⟨⟨2, Fin.ofNat _ i⟩, 0, false, .endpoint ⟨.anycast, .global, 0⟩⟩, 0⟩) (LsDb.new 1 0).db }

/-- The first link of node 1, to node 3. -/
def firstPeer : Link := ⟨0, 3, 1, {.global}, 0⟩

theorem endpointsDb_fresh (n : Nat) : (endpointsDb n).FreshLink (.idle peerQueueCapacity) firstPeer where
  new_id := rfl
  not_pending _ := rfl
  new_channel c l h := by
    change (∅ : HashMap ConnectionId Link).get c = some l at h
    simp at h
  empty := rfl
  capacity := rfl

theorem endpointsDb_ok (n : Nat) : (endpointsDb n).Ok where
  record_key := by
    have hfold : ∀ (l : List Nat) (m : HashMap LsaKey LsaRecord),
        (∀ k r, m.get k = some r → r.lsa.key = k) →
        ∀ k r, (l.foldl (fun (m : HashMap LsaKey LsaRecord) i => m.insert ⟨2, Fin.ofNat _ i⟩
          ⟨⟨⟨2, Fin.ofNat _ i⟩, 0, false, .endpoint ⟨.anycast, .global, 0⟩⟩, 0⟩) m).get k = some r →
          r.lsa.key = k := by
      intro l
      induction l with
      | nil => exact fun m hm => hm
      | cons i l ih =>
        intro m hm
        refine ih _ fun k r hk => ?_
        rw [HashMap.get_insert] at hk
        split at hk
        · next heq =>
          cases hk
          exact heq.symm
        · exact hm k r hk
    refine hfold _ _ fun k r hk => ?_
    simp only [LsDb.new, HashMap.get_insert, HashMap.get_empty] at hk
    split at hk
    · next heq =>
      cases hk
      exact heq.symm
    · cases hk
  link_id c l h := by
    change (∅ : HashMap ConnectionId Link).get c = some l at h
    simp at h

/-- With 32 records beside its own, a node loses one of them. -/
theorem exchange_loses_a_record :
    ¬ ∀ (db : LsDb) (w : Wires) (link : Link) (now : Instant), db.Ok → db.FreshLink w link →
      db.ExchangeComplete w link now := by
  intro h
  have hfits := (h _ _ _ 0 (endpointsDb_ok 32) (endpointsDb_fresh 32)).fits (endpointsDb_ok 32)
    (endpointsDb_fresh 32)
  have hlen : ((endpointsDb 32).permittedOthers firstPeer).length = 32 := by decide +kernel
  have hown : (endpointsDb 32).OwnRouter := (LsDb.ownRouter_iff_body _ 0).mpr ⟨[], by decide +kernel⟩
  rcases hfits with ⟨hnot, _⟩ | ⟨_, hempty | ⟨_, hlt⟩⟩
  · exact hnot hown
  · exact absurd hempty (by decide)
  · rw [hlen] at hlt
    exact absurd hlt (by decide)

/-- With 31 records beside its own, a node hands over all of them. -/
theorem exchange_of_31_records :
    (endpointsDb 31).Ok ∧ (endpointsDb 31).FreshLink (.idle peerQueueCapacity) firstPeer ∧
      (endpointsDb 31).ExchangeComplete (.idle peerQueueCapacity) firstPeer 0 := by
  refine ⟨endpointsDb_ok 31, endpointsDb_fresh 31, (LsDb.exchangeComplete_iff _ _ _ 0
    (endpointsDb_ok 31) (endpointsDb_fresh 31)).mpr (Or.inr ⟨?_, Or.inr ⟨rfl, ?_⟩⟩)⟩
  · exact (LsDb.ownRouter_iff_body _ 0).mpr ⟨[], by decide +kernel⟩
  · have hlen : ((endpointsDb 31).permittedOthers firstPeer).length = 31 := by decide +kernel
    rw [hlen]
    decide

end Anybus
