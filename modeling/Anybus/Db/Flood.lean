import Anybus.Linkstate.Db

/-!
# What a flood does

A flood hands one LSA to several links, a database exchange hands several LSAs to
one link. Both are a list of hand-overs done in turn: each link's queue takes what
its realms permit until it is full, and only what was queued becomes pending.
-/

namespace Anybus

namespace Link

/-- The message an LSA becomes on a link, if the link may carry it. -/
def message (link : Link) (lsa : Lsa) : Option NodeMessage := (link.permits lsa).map .lsa

/-- A permitted LSA keeps its key, its number and its dead flag. -/
theorem permits_some {link : Link} {lsa lsa' : Lsa} (h : link.permits lsa = some lsa') :
    lsa'.key = lsa.key ∧ lsa'.seq = lsa.seq ∧ lsa'.dead = lsa.dead := by
  unfold permits at h
  cases hb : lsa.body with
  | router adjs =>
    simp only [hb] at h
    split at h
    · cases h
    · cases h
      exact ⟨rfl, rfl, rfl⟩
  | endpoint info =>
    simp only [hb] at h
    split at h
    · cases h
      exact ⟨rfl, rfl, rfl⟩
    · cases h

/-- A router LSA is carried if some adjacency shares a realm with the link. -/
theorem permits_router_isSome {link : Link} {lsa : Lsa} {adjs : List Adjacency}
    (hb : lsa.body = .router adjs) {adj : Adjacency} (ha : adj ∈ adjs)
    (hr : adj.realms ∩ link.realms ≠ ∅) : (link.permits lsa).isSome := by
  unfold permits
  simp only [hb]
  rw [if_neg, Option.isSome_some]
  rw [List.isEmpty_iff, List.filter_eq_nil_iff]
  intro hall
  exact hall _ (List.mem_map_of_mem ha) (by simpa using hr)

/-- Without realms a link carries nothing. -/
theorem permits_of_no_realms {link : Link} (h : link.realms = ∅) (lsa : Lsa) :
    link.permits lsa = none := by
  unfold permits
  cases lsa.body with
  | router adjs => simp [h]
  | endpoint info => simp [h]

@[simp] theorem sendLsa_handed (link : Link) (w : Wires) (lsa : Lsa) :
    (link.sendLsa w lsa).1.handed = w.handed ++ [(link.connectionId, lsa)] := by
  unfold sendLsa trySend
  cases link.permits lsa with
  | none => rfl
  | some l => cases hs : (w.node link.tx).trySend (.lsa l) <;> simp [hs]

@[simp] theorem sendLsa_client (link : Link) (w : Wires) (lsa : Lsa) :
    (link.sendLsa w lsa).1.client = w.client := by
  unfold sendLsa trySend
  cases link.permits lsa with
  | none => rfl
  | some l => cases hs : (w.node link.tx).trySend (.lsa l) <;> simp [hs]

/-- Handing over an LSA offers its message to the link's channel. -/
theorem sendLsa_node (link : Link) (w : Wires) (lsa : Lsa) (t : Tx) :
    (link.sendLsa w lsa).1.node t =
      (w.node t).offerAll (if link.tx = t then (link.message lsa).toList else []) := by
  unfold sendLsa trySend message
  cases link.permits lsa with
  | none => simp
  | some l =>
    by_cases ht : link.tx = t
    · subst ht
      rw [if_pos rfl, Option.map_some, Option.toList_some, ← Chan.offer_eq_offerAll, Chan.offer]
      cases hs : (w.node link.tx).trySend (.lsa l) <;> simp [hs, Except.toOption]
    · rw [if_neg ht, Chan.offerAll_nil]
      cases hs : (w.node link.tx).trySend (.lsa l) <;> simp [hs, Function.update_of_ne (Ne.symm ht)]

/-- An accepted hand-over is a permitted LSA that is now queued. -/
theorem sendLsa_ok {link : Link} {w : Wires} {lsa : Lsa} (h : (link.sendLsa w lsa).2 = .ok ()) :
    ∃ l, link.permits lsa = some l ∧ .lsa l ∈ ((link.sendLsa w lsa).1.node link.tx).queue := by
  unfold sendLsa trySend at h ⊢
  cases hp : link.permits lsa with
  | none => simp [hp] at h
  | some l =>
    cases hs : (w.node link.tx).trySend (.lsa l) with
    | error e => simp [hp, hs] at h
    | ok c =>
      obtain ⟨_, _, rfl⟩ := Chan.trySend_eq_ok_iff.mp hs
      exact ⟨l, rfl, by simp [hs]⟩

end Link

namespace LsDb

/-- Hand-overs done in turn. -/
def trackAll (sends : List (Link × Lsa)) (acc : HashMap (ConnectionId × LsaKey) Nat × Wires) :
    HashMap (ConnectionId × LsaKey) Nat × Wires :=
  sends.foldl (fun acc s => sendAndTrack s.1 s.2 acc) acc

/-- The hand-overs of a flood. -/
def floodSends (db : LsDb) (lsa : Lsa) (inConnectionId : Option ConnectionId) : List (Link × Lsa) :=
  (db.links.entries.filter fun e => !db.floodSkips lsa inConnectionId e.1 e.2).map
    fun e => (e.2, lsa)

/-- The hand-overs of a database exchange over a link. -/
def exchangeSends (db : LsDb) (link : Link) : List (Link × Lsa) :=
  db.db.values.map fun record => (link, record.lsa)

theorem floodAllNeighbors_eq (db : LsDb) (w : Wires) (lsa : Lsa) (inC : Option ConnectionId) :
    db.floodAllNeighbors w lsa inC =
      ({ db with pendingTx := (trackAll (db.floodSends lsa inC) (db.pendingTx, w)).1 },
        (trackAll (db.floodSends lsa inC) (db.pendingTx, w)).2) := by
  simp only [floodAllNeighbors, trackAll, floodSends, List.foldl_map]

theorem floodPeer_eq {db : LsDb} {w : Wires} {c : ConnectionId} (link : Link)
    (h : db.links.get c = some link) :
    db.floodPeer w c =
      ({ db with pendingTx := (trackAll (db.exchangeSends link) (db.pendingTx, w)).1 },
        (trackAll (db.exchangeSends link) (db.pendingTx, w)).2) := by
  simp only [floodPeer, h, trackAll, exchangeSends, List.foldl_map]

/-- A flood goes to the links it does not pass by. -/
theorem mem_floodSends {db : LsDb} {lsa lsa' : Lsa} {inC : Option ConnectionId} {link : Link} :
    (link, lsa') ∈ db.floodSends lsa inC ↔ lsa' = lsa ∧
      ∃ c, db.links.get c = some link ∧ db.floodSkips lsa inC c link = false := by
  simp only [floodSends, List.mem_map, List.mem_filter, Bool.not_eq_true', Prod.mk.injEq]
  constructor
  · rintro ⟨⟨c, l⟩, ⟨hmem, hskip⟩, rfl, rfl⟩
    exact ⟨rfl, c, HashMap.mem_entries_iff.mp hmem, hskip⟩
  · rintro ⟨rfl, c, hget, hskip⟩
    exact ⟨⟨c, link⟩, ⟨HashMap.mem_entries_iff.mpr hget, hskip⟩, rfl, rfl⟩

theorem trackAll_append (sends sends' : List (Link × Lsa))
    (acc : HashMap (ConnectionId × LsaKey) Nat × Wires) :
    trackAll (sends ++ sends') acc = trackAll sends' (trackAll sends acc) := by
  simp only [trackAll, List.foldl_append]

section TrackAll

variable (sends : List (Link × Lsa)) (acc : HashMap (ConnectionId × LsaKey) Nat × Wires)

@[simp] theorem sendAndTrack_snd (link : Link) (lsa : Lsa) :
    (sendAndTrack link lsa acc).2 = (link.sendLsa acc.2 lsa).1 := by
  unfold sendAndTrack
  cases h : link.sendLsa acc.2 lsa with
  | mk w r => cases r <;> simp

/-- Every hand-over is recorded in the trace. -/
theorem trackAll_handed :
    (trackAll sends acc).2.handed =
      acc.2.handed ++ sends.map fun s => (s.1.connectionId, s.2) := by
  unfold trackAll
  induction sends generalizing acc with
  | nil => simp
  | cons s sends ih =>
    rw [List.foldl_cons, ih, sendAndTrack_snd, Link.sendLsa_handed, List.map_cons,
      List.append_assoc, List.singleton_append]

/-- Listeners are not involved. -/
@[simp] theorem trackAll_client : (trackAll sends acc).2.client = acc.2.client := by
  unfold trackAll
  induction sends generalizing acc with
  | nil => rfl
  | cons s sends ih => rw [List.foldl_cons, ih, sendAndTrack_snd, Link.sendLsa_client]

/-- Each channel is offered the messages of the hand-overs to its link, in order. -/
theorem trackAll_node (t : Tx) :
    (trackAll sends acc).2.node t =
      (acc.2.node t).offerAll ((sends.filter fun s => s.1.tx = t).filterMap
        fun s => s.1.message s.2) := by
  unfold trackAll
  induction sends generalizing acc with
  | nil => simp
  | cons s sends ih =>
    rw [List.foldl_cons, ih, sendAndTrack_snd, Link.sendLsa_node, ← Chan.offerAll_append]
    congr 1
    by_cases ht : s.1.tx = t
    · cases hm : s.1.message s.2 <;> simp [ht, hm]
    · simp [ht]

variable {sends acc}

/-- Only queued LSAs become pending. -/
theorem trackAll_pending {c : ConnectionId} {k : LsaKey} {v : Nat}
    (h : (trackAll sends acc).1.get (c, k) = some v) :
    acc.1.get (c, k) = some v ∨ ∃ s ∈ sends, s.1.connectionId = c ∧ s.2.key = k ∧
      ∃ l, s.1.permits s.2 = some l ∧ .lsa l ∈ ((trackAll sends acc).2.node s.1.tx).queue := by
  unfold trackAll at h ⊢
  induction sends generalizing acc with
  | nil => exact Or.inl h
  | cons s sends ih =>
    rw [List.foldl_cons] at h ⊢
    rcases ih h with h | ⟨s', hs', hc, hk, l, hl, hq⟩
    · have hstep : (sendAndTrack s.1 s.2 acc).1.get (c, k) = some v → acc.1.get (c, k) = some v ∨
          (s.1.connectionId = c ∧ s.2.key = k ∧ (s.1.sendLsa acc.2 s.2).2 = .ok ()) := by
        unfold sendAndTrack
        cases hr : s.1.sendLsa acc.2 s.2 with
        | mk w r =>
          cases r with
          | error e => exact fun h => Or.inl h
          | ok u =>
            intro h
            simp only [HashMap.get_insert, Prod.mk.injEq] at h
            by_cases heq : c = s.1.connectionId ∧ k = s.2.key
            · exact Or.inr ⟨heq.1.symm, heq.2.symm, rfl⟩
            · rw [if_neg heq] at h
              exact Or.inl h
      rcases hstep h with h | ⟨hc, hk, hok⟩
      · exact Or.inl h
      · obtain ⟨l, hl, hq⟩ := Link.sendLsa_ok hok
        refine Or.inr ⟨s, List.mem_cons_self, hc, hk, l, hl, ?_⟩
        have hnode := trackAll_node sends (sendAndTrack s.1 s.2 acc) s.1.tx
        rw [trackAll] at hnode
        rw [hnode, sendAndTrack_snd]
        exact Chan.mem_offerAll_of_mem hq
    · exact Or.inr ⟨s', List.mem_cons_of_mem _ hs', hc, hk, l, hl, hq⟩

end TrackAll

/-- The maps of a database agree with what they store: a record under its own key, a
link under its own connection. -/
structure Ok (db : LsDb) : Prop where
  record_key : ∀ k r, db.db.get k = some r → r.lsa.key = k
  link_id : ∀ c link, db.links.get c = some link → link.connectionId = c

/-- The own router record, or the one created in its absence. -/
def ownRecord (db : LsDb) (now : Instant) : LsaRecord :=
  (db.db.get db.selfKey).getD ⟨⟨db.selfKey, 0, false, .router []⟩, now⟩

/-- The own router LSA with one more adjacency. -/
def advertised (db : LsDb) (adjacencies : List Adjacency) (link : Link) (now : Instant) : Lsa :=
  { (db.ownRecord now).lsa with
    seq := (db.ownRecord now).lsa.seq + 1
    body := .router (adjacencies ++ [⟨link.connectionId, link.peerId, link.cost, link.realms⟩]) }

/-- The database with a new link, before anything is sent. -/
def withPeer (db : LsDb) (adjacencies : List Adjacency) (link : Link) (now : Instant) : LsDb :=
  ({ db with
    db := db.db.insert db.selfKey ⟨db.advertised adjacencies link now, now⟩
    links := db.links.insert link.connectionId link } : LsDb).requestRebuild now

/-- A new link is refused only if the own record is not a router's; otherwise the
advertisement goes to the other links and the whole database to the new one. -/
theorem addPeer_cases (db : LsDb) (w : Wires) (link : Link) (now : Instant) :
    (∃ info, (db.ownRecord now).lsa.body = .endpoint info ∧ db.addPeer w link now = (db, w)) ∨
    (∃ adjs, (db.ownRecord now).lsa.body = .router adjs ∧
      db.addPeer w link now =
        let db' := db.withPeer adjs link now
        let r := trackAll (db'.floodSends (db.advertised adjs link now) (some link.connectionId) ++
          db'.exchangeSends link) (db.pendingTx, w)
        ({ db' with pendingTx := r.1 }, r.2)) := by
  cases hb : (db.ownRecord now).lsa.body with
  | endpoint info =>
    refine Or.inl ⟨info, rfl, ?_⟩
    unfold ownRecord at hb
    simp only [addPeer, addAdjacency, hb]
  | router adjs =>
    refine Or.inr ⟨adjs, rfl, ?_⟩
    have hadd : db.addAdjacency ⟨link.connectionId, link.peerId, link.cost, link.realms⟩ now =
        some ({ db with db := db.db.insert db.selfKey ⟨db.advertised adjs link now, now⟩ },
          db.advertised adjs link now) := by
      unfold ownRecord at hb
      simp only [addAdjacency, hb]
      rfl
    simp only [addPeer, hadd, floodAllNeighbors_eq]
    rw [floodPeer_eq link (by simp [requestRebuild]), trackAll_append]
    rfl

end LsDb

end Anybus
