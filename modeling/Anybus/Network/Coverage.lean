import Anybus.Db.FirstCopy
import Anybus.Db.Growing
import Anybus.Network.Realms

/-!
# How far a flood gets

Links that lose nothing, keep the order and all carry the same realms join the nodes of a
network in which nothing is withdrawn. A flood passes by the neighbour that the paths name
as the way back to the origin, and the paths are recomputed only afterwards, so a neighbour
may be left without the version. When nothing is on its way any more, a version is known
wherever links lead that no flood of it has passed by.
-/

namespace Anybus

/-- The plan of a network: the ids of its nodes, the other end of each connection, where the
channels lead, and the realms of every link. -/
structure Cabling (ι : Type*) where
  ids : ι → NodeId
  far : ι × ConnectionId → ι × ConnectionId
  wire : Wiring ι
  realms : RealmList
  ids_injective : Function.Injective ids
  far_far (x : ι × ConnectionId) : far (far x) = x
  realms_ne : realms ≠ ∅

/-- A version of an LSA that was not sent over a connection of a node. -/
structure Miss (ι : Type*) where
  node : ι
  connectionId : ConnectionId
  key : LsaKey
  seq : Nat

namespace Net

variable {ι : Type*}

/-- A node stores a version of an LSA, or a newer one. -/
def Has (s : Net ι) (i : ι) (k : LsaKey) (n : Nat) : Prop :=
  ∃ r, (s.db i).db.get k = some r ∧ n ≤ r.lsa.seq

/-- The number a node stores for a key. -/
def seqAt (s : Net ι) (i : ι) (k : LsaKey) : Option Nat :=
  ((s.db i).db.get k).map fun r => r.lsa.seq

/-- No flood of the version that a node stores for a key has passed by a connection. -/
def Unmissed (s : Net ι) (missed : Set (Miss ι)) (o : ι) (k : LsaKey) (i : ι) (c : ConnectionId) : Prop :=
  ∀ n, s.seqAt o k = some n → ⟨i, c, k, n⟩ ∉ missed

/-- No LSA is on its way. -/
def Settled (s : Net ι) : Prop := ∀ e ∈ s.flight, ∀ lsa, e.message ≠ .lsa lsa

/-- A message is the oldest one on its link. -/
def Oldest [DecidableEq ι] (s : Net ι) (e : Envelope ι) : Prop :=
  (s.flight.find? fun e' => decide (e'.dest = e.dest) && decide (e'.connectionId = e.connectionId)) =
    some e

end Net

namespace Cabling

variable {ι : Type*} (N : Cabling ι)

/-- A link is one end of the link that the plan has for its connection. -/
structure Fits (i : ι) (link : Link) : Prop where
  peer : link.peerId = N.ids (N.far (i, link.connectionId)).1
  channel : N.wire i link.tx = N.far (i, link.connectionId)
  realms : link.realms = N.realms

/-- A link is up at both its ends. -/
def Up (s : Net ι) (i : ι) (c : ConnectionId) : Prop :=
  (∃ link, (s.db i).links.get c = some link) ∧
    ∃ link, (s.db (N.far (i, c)).1).links.get (N.far (i, c)).2 = some link

/-- The links of the network carry an LSA as it is. -/
def Carried (lsa : Lsa) : Prop := ∀ link : Link, link.realms = N.realms → link.permits lsa = some lsa

/-- The versions an operation takes up and passes by a neighbour that does not have them. -/
def misses (s : Net ι) (i : ι) (op : Op) (db' : LsDb) : Set (Miss ι) :=
  {m | m.node = i ∧ (∃ r, db'.db.get m.key = some r ∧ r.lsa.seq = m.seq) ∧
    (∀ r, (s.db i).db.get m.key = some r → r.lsa.seq < m.seq) ∧
    (∃ link, (s.db i).links.get m.connectionId = some link ∧
      (s.db i).PassesBy op m.key m.seq m.connectionId link) ∧
    ¬ s.Has (N.far (i, m.connectionId)).1 m.key m.seq}

variable [DecidableEq ι]

/-- What a node does next: it takes up or gives up its end of a link, takes a registration
that leaves the key of the router LSA to it, or handles the oldest LSA on a link. -/
inductive Acts (s : Net ι) (i : ι) : Op → Net ι → Prop where
  | addPeer {link : Link} (hfits : N.Fits i link) (hnew : (s.db i).links.get link.connectionId = none) :
      Acts s i (.addPeer link) s
  | removePeer (c : ConnectionId) : Acts s i (.removePeer c) s
  | addEndpoint {request : RegistrationRequest} (hkeep : ¬ (s.db i).Overwrites request) :
      Acts s i (.addEndpoint request) s
  | lsa {c : ConnectionId} {lsa : Lsa} (h : s.Oldest ⟨i, c, .lsa lsa⟩) :
      Acts s i (.handleLsa lsa c) (s.without ⟨i, c, .lsa lsa⟩)

/-- The messages on their way after an operation at a node. -/
def flightAfter (s₀ : Net ι) (i : ι) (db db' : LsDb) (w : Wires) : List (Envelope ι) :=
  s₀.flight ++ Net.queued N.wire i (db.live db') w

/-- The runs of a network of fresh nodes, with what floods have passed by. Every operation is
followed by a new forwarding table, no queue of a link ever becomes full, and a message is
lost only after its sender has given up the link. -/
inductive Floods : Net ι → Set (Miss ι) → Prop where
  | start (now : ι → Instant) : Floods ⟨fun i => .new (N.ids i) (now i), []⟩ ∅
  | act {s s₀ : Net ι} {missed : Set (Miss ι)} {db' db₁ db₂ : LsDb} {w w' : Wires}
      {fib : ForwardingTable} (now : Instant) (i : ι) (op : Op) (h : Floods s missed)
      (ha : N.Acts s i op s₀) (hw : w.Drained) (hstep : (s.db i).step w now op = some (db', w'))
      (hroom : (s.db i).NeverFull db' w w') (hre : LsDb.Rehash db' db₁)
      (hfib : db₁.buildFib = some (db₂, fib)) :
      Floods ⟨Function.update s.db i db₂, N.flightAfter s₀ i (s.db i) db' w'⟩
        (missed ∪ N.misses s i op db')
  | ack {s : Net ι} {missed : Set (Miss ι)} {i : ι} {c : ConnectionId} {key : LsaKey} {seq : Nat}
      (h : Floods s missed) (ho : s.Oldest ⟨i, c, .lsaAck key seq⟩) :
      Floods { s.without ⟨i, c, .lsaAck key seq⟩ with
        db := Function.update s.db i ((s.db i).handleAck c key seq) } missed
  | lose {s : Net ι} {missed : Set (Miss ι)} (e : Envelope ι) (h : Floods s missed)
      (hdown : (s.db (N.far (e.dest, e.connectionId)).1).links.get
        (N.far (e.dest, e.connectionId)).2 = none) : Floods (s.without e) missed

/-- The far end of a connection has a version or a newer one, or one is on its way to it, or a
flood has passed it by. -/
def Told (s : Net ι) (missed : Set (Miss ι)) (i : ι) (c : ConnectionId) (k : LsaKey) (n : Nat) : Prop :=
  s.Has (N.far (i, c)).1 k n ∨
    (∃ lsa, ⟨(N.far (i, c)).1, (N.far (i, c)).2, .lsa lsa⟩ ∈ s.flight ∧ lsa.key = k ∧ n ≤ lsa.seq) ∨
      ⟨i, c, k, n⟩ ∈ missed

/-- What holds in every run: what is on its way its sender stores, no node stores a newer
version than the origin, and over each link the other end is told what its node stores. -/
structure Covered (s : Net ι) (missed : Set (Miss ι)) : Prop where
  self (i : ι) : (s.db i).selfId = N.ids i
  growing (i : ι) : (s.db i).Growing
  fits (i : ι) (c : ConnectionId) (link : Link) : (s.db i).links.get c = some link → N.Fits i link
  carried (i : ι) (k : LsaKey) (r : LsaRecord) : (s.db i).db.get k = some r →
    k.origin ≠ N.ids i → N.Carried r.lsa
  onWay (e : Envelope ι) (lsa : Lsa) : e ∈ s.flight → e.message = .lsa lsa →
    lsa.dead = false ∧ N.Carried lsa ∧ s.Has (N.far (e.dest, e.connectionId)).1 lsa.key lsa.seq
  newest (i o : ι) (k : LsaKey) (r : LsaRecord) : (s.db i).db.get k = some r → k.origin = N.ids o →
    s.Has o k r.lsa.seq
  told (i : ι) (c : ConnectionId) (link : Link) (k : LsaKey) (r : LsaRecord) :
    (s.db i).links.get c = some link → (s.db i).db.get k = some r → k.origin ≠ link.peerId →
      (link.permits r.lsa).isSome → N.Told s missed i c k r.lsa.seq

/-- A node is joined to another one by links that are up, over connections of some kind. -/
inductive Joined (s : Net ι) (via : ι → ConnectionId → Prop) (o : ι) : ι → Prop where
  | origin : Joined s via o o
  | hop {i : ι} (c : ConnectionId) (h : Joined s via o i) (hup : N.Up s i c) (hvia : via i c) :
      Joined s via o (N.far (i, c)).1

/-- When no LSA is on its way, nodes joined by links that are up store the same number for
every key of a node they are joined to. -/
def FloodsEverywhere : Prop :=
  ∀ s missed, N.Floods s missed → s.Settled → ∀ o k, k.origin = N.ids o → ∀ u v,
    N.Joined s (fun _ _ => True) o u → N.Joined s (fun _ _ => True) o v → s.seqAt u k = s.seqAt v k

section Step

variable {N} {s s₀ : Net ι} {missed : Set (Miss ι)} {i : ι} {op : Op} {db' : LsDb} {w w' : Wires}
  {now : Instant}

theorem Acts.grows (ha : N.Acts s i op s₀) (h : N.Covered s missed) : (s.db i).Grows op := by
  cases ha with
  | addPeer _ hnew => exact .addPeer hnew
  | removePeer c => exact .removePeer c
  | addEndpoint hkeep => exact .addEndpoint hkeep
  | lsa ho => exact .handleLsa _ (h.onWay _ _ (List.mem_of_find?_eq_some ho) rfl).1

/-- Nothing new is on its way when a message is taken. -/
theorem Acts.mem_flight (ha : N.Acts s i op s₀) {e : Envelope ι} (he : e ∈ s₀.flight) : e ∈ s.flight := by
  cases ha with
  | lsa _ => exact List.mem_of_mem_erase he
  | addPeer | removePeer | addEndpoint => exact he

/-- Everything but the handled message stays on its way. -/
theorem Acts.flight_cases (ha : N.Acts s i op s₀) {e : Envelope ι} (he : e ∈ s.flight) :
    e ∈ s₀.flight ∨ ∃ lsa c, op = .handleLsa lsa c ∧ e = ⟨i, c, .lsa lsa⟩ := by
  cases ha with
  | @lsa c lsa _ =>
    by_cases heq : e = ⟨i, c, .lsa lsa⟩
    · exact .inr ⟨lsa, c, rfl, heq⟩
    · exact .inl ((List.mem_erase_of_ne heq).mpr he)
  | addPeer | removePeer | addEndpoint => exact .inl he

/-- The links around an operation are those of the plan. -/
theorem Acts.fits (ha : N.Acts s i op s₀) (h : N.Covered s missed)
    (hstep : (s.db i).step w now op = some (db', w')) {link : Link} (hl : (s.db i).Live db' link) :
    N.Fits i link := by
  obtain ⟨c, hc | hc⟩ := hl
  · exact h.fits i c link hc
  · rcases LsDb.step_links hstep hc with hc | ⟨rfl, -⟩
    · exact h.fits i c link hc
    · cases ha with
      | addPeer hfits _ => exact hfits

/-- Records only grow. -/
theorem Covered.has_mono (h : N.Covered s missed) (ha : N.Acts s i op s₀)
    (hstep : (s.db i).step w now op = some (db', w')) (flight : List (Envelope ι)) {j : ι} {k : LsaKey}
    {n : Nat} (hhas : s.Has j k n) : (⟨Function.update s.db i db', flight⟩ : Net ι).Has j k n := by
  obtain ⟨r, hr, hle⟩ := hhas
  by_cases hj : j = i
  · subst hj
    obtain ⟨r', hr', hnew⟩ := (h.growing j).kept (ha.grows h) hstep hr
    refine ⟨r', by simpa using hr', ?_⟩
    rcases hnew with rfl | hlt
    · exact hle
    · omega
  · exact ⟨r, by simpa [hj] using hr, hle⟩

/-- A message that was put on its way leads to the other end of a link, and what is in it is
stored at this end. -/
theorem Acts.queued (ha : N.Acts s i op s₀) (h : N.Covered s missed) (hw : w.Drained)
    (hstep : (s.db i).step w now op = some (db', w')) {e : Envelope ι} {lsa : Lsa}
    (he : e ∈ Net.queued N.wire i ((s.db i).live db') w') (hm : e.message = .lsa lsa) :
    (N.far (e.dest, e.connectionId)).1 = i ∧ N.Carried lsa ∧
      ∃ r, db'.db.get lsa.key = some r ∧ r.lsa.seq = lsa.seq ∧ r.lsa.dead = lsa.dead := by
  obtain ⟨link, -, hmem, hwire⟩ := Net.mem_queued.mp he
  have hqueues : Queues ((s.db i).Live db') (fun l => ∃ r, db'.db.get l.key = some r ∧ r.lsa = l) w w' := by
    refine LsDb.queues_of_sends hstep fun x hx => ⟨LsDb.live_of_sends (h.growing i).ok hstep hx, ?_⟩
    exact (h.growing i).stored_of_sends (ha.grows h) hstep hx
  rw [hm] at hmem
  rcases hqueues _ _ hmem with hold | ⟨link', lsa₀, hlive, htx, ⟨r, hr, rfl⟩, hp⟩
  · rw [hw] at hold
    cases hold
  · have hfits := ha.fits h hstep hlive
    obtain ⟨hkey, hseq, hdead⟩ := Link.permits_some hp
    refine ⟨?_, fun other hother => ?_, r, by rw [hkey, hr], hseq.symm, hdead.symm⟩
    · rw [← hwire, ← htx, hfits.channel, N.far_far]
    · exact Link.permits_again (hother.trans hfits.realms.symm) hp

/-- What is handed to a link that carries it is on its way to the other end. -/
theorem Acts.sent (ha : N.Acts s i op s₀) (h : N.Covered s missed)
    (hstep : (s.db i).step w now op = some (db', w')) (hroom : (s.db i).NeverFull db' w w')
    {link : Link} {lsa l : Lsa} (hs : (link, lsa) ∈ (s.db i).sends w now op)
    (hl : link.permits lsa = some l) :
    ⟨(N.far (i, link.connectionId)).1, (N.far (i, link.connectionId)).2, .lsa l⟩ ∈
      N.flightAfter s₀ i (s.db i) db' w' := by
  have hok := (h.growing i).ok
  have hlive : (s.db i).Live db' link := LsDb.live_of_sends hok hstep hs
  have hsent := LsDb.sentOn_of_sends hok hstep hroom hs hl
  rw [LsDb.sentOn, LsDb.upLink_of_sends hok hstep hs] at hsent
  have hqueue : .lsa l ∈ (w'.node link.tx).queue := List.mem_of_mem_drop (mem_lsasOf.mp hsent)
  refine List.mem_append_right _ (Net.mem_queued.mpr ⟨link, LsDb.mem_live.mpr hlive, hqueue, ?_⟩)
  exact (ha.fits h hstep hlive).channel

/-- What a node stores after an operation it has stored before, issued itself or handled. -/
theorem Acts.stored (ha : N.Acts s i op s₀) (h : N.Covered s missed)
    (hstep : (s.db i).step w now op = some (db', w')) {k : LsaKey} {r : LsaRecord}
    (hr : db'.db.get k = some r) :
    k.origin = N.ids i ∨ (∃ r₀, (s.db i).db.get k = some r₀ ∧ r₀.lsa = r.lsa) ∨
      ∃ c, op = .handleLsa r.lsa c ∧ ⟨i, c, .lsa r.lsa⟩ ∈ s.flight := by
  have hok := (h.growing i).ok
  have hkey := (LsDb.step_advances hok hstep).ok.record_key k r hr
  rcases LsDb.step_stores hok hstep hr with hown | ⟨k₀, r₀, hr₀, heq⟩ | ⟨c, rfl⟩
  · left
    rw [← hkey, hown, h.self]
  · have hk₀ := hok.record_key k₀ r₀ hr₀
    rw [heq, hkey] at hk₀
    exact .inr (.inl ⟨r₀, by rw [hk₀, hr₀], heq⟩)
  · cases ha with
    | lsa ho => exact .inr (.inr ⟨c, rfl, List.mem_of_find?_eq_some ho⟩)

/-- Who is told stays told. -/
theorem Told.acts {j : ι} {c : ConnectionId} {k : LsaKey} {n : Nat} (ht : N.Told s missed j c k n)
    (hfar : k.origin ≠ N.ids (N.far (j, c)).1) (h : N.Covered s missed) (ha : N.Acts s i op s₀)
    (hstep : (s.db i).step w now op = some (db', w')) :
    N.Told ⟨Function.update s.db i db', N.flightAfter s₀ i (s.db i) db' w'⟩
      (missed ∪ N.misses s i op db') j c k n := by
  rcases ht with hhas | ⟨lsa, he, hkey, hle⟩ | hmiss
  · exact .inl (h.has_mono ha hstep _ hhas)
  · rcases ha.flight_cases he with he | ⟨lsa', c', rfl, heq⟩
    · exact .inr (.inl ⟨lsa, List.mem_append_left _ he, hkey, hle⟩)
    · -- The message has arrived, so its node has the version.
      obtain ⟨hdest, -, hmessage⟩ := Envelope.mk.inj heq
      cases hmessage
      have hd := (h.onWay _ _ he rfl).1
      rcases LsDb.stored_of_handleLsa hd hstep with hown | ⟨r, hr, hle'⟩
      · rw [hkey, h.self, ← hdest] at hown
        exact absurd hown hfar
      · left
        rw [hdest]
        refine ⟨r, ?_, by omega⟩
        rw [hkey] at hr
        simpa using hr
  · exact .inr (.inr (.inl hmiss))

/-- The other end of each link of a node is told what the node stores after an operation. -/
theorem Acts.told (ha : N.Acts s i op s₀) (h : N.Covered s missed)
    (hstep : (s.db i).step w now op = some (db', w')) (hroom : (s.db i).NeverFull db' w w')
    {c : ConnectionId} {link : Link} {k : LsaKey} {r : LsaRecord} (hc : db'.links.get c = some link)
    (hr : db'.db.get k = some r) (hpeer : k.origin ≠ link.peerId) (hp : (link.permits r.lsa).isSome) :
    N.Told ⟨Function.update s.db i db', N.flightAfter s₀ i (s.db i) db' w'⟩
      (missed ∪ N.misses s i op db') i c k r.lsa.seq := by
  have hadv := LsDb.step_advances (h.growing i).ok hstep
  have hid := hadv.ok.link_id c link hc
  have hfits := ha.fits h hstep ⟨c, .inr hc⟩
  rcases (h.growing i).due (ha.grows h) hstep hr hc hpeer with ⟨hc₀, hr₀⟩ | hs | ⟨⟨hc₀, hnew⟩, hin⟩
  · refine (h.told i c link k r hc₀ hr₀ hpeer hp).acts ?_ h ha hstep
    rwa [← hid, ← hfits.peer]
  · obtain ⟨l, hl⟩ := Option.isSome_iff_exists.mp hp
    obtain ⟨hkey, hseq, -⟩ := Link.permits_some hl
    have hsent := ha.sent h hstep hroom hs hl
    rw [hid] at hsent
    refine .inr (.inl ⟨l, hsent, ?_, hseq.ge⟩)
    rw [hkey, hadv.ok.record_key k r hr]
  · rcases hin with rfl | hpass
    · cases ha with
      | lsa ho =>
        have hhas := (h.onWay _ _ (List.mem_of_find?_eq_some ho) rfl).2.2
        rw [hadv.ok.record_key k r hr] at hhas
        exact .inl (h.has_mono (.lsa ho) hstep _ hhas)
    · by_cases hhas : s.Has (N.far (i, c)).1 k r.lsa.seq
      · exact .inl (h.has_mono ha hstep _ hhas)
      · exact .inr (.inr (.inr ⟨rfl, ⟨r, hr, rfl⟩, hnew, ⟨link, hc₀, hpass⟩, hhas⟩))

/-- An operation keeps the cover. -/
theorem Covered.acts (h : N.Covered s missed) (ha : N.Acts s i op s₀) (hw : w.Drained)
    (hstep : (s.db i).step w now op = some (db', w')) (hroom : (s.db i).NeverFull db' w w') :
    N.Covered ⟨Function.update s.db i db', N.flightAfter s₀ i (s.db i) db' w'⟩
      (missed ∪ N.misses s i op db') := by
  have hadv := LsDb.step_advances (h.growing i).ok hstep
  have hgrowing := (h.growing i).step (ha.grows h) hstep
  refine ⟨fun j => ?_, fun j => ?_, fun j c link hc => ?_, fun j k r hr ho => ?_,
    fun e lsa he hm => ?_, fun j o k r hr ho => ?_, fun j c link k r hc hr hpeer hp => ?_⟩
  · by_cases hj : j = i
    · subst hj
      simpa using hadv.self_eq.trans (h.self j)
    · simpa [hj] using h.self j
  · by_cases hj : j = i
    · subst hj
      simpa using hgrowing
    · simpa [hj] using h.growing j
  · by_cases hj : j = i
    · subst hj
      simp only [Function.update_self] at hc
      exact ha.fits h hstep ⟨c, .inr hc⟩
    · simp only [Function.update_of_ne hj] at hc
      exact h.fits j c link hc
  · by_cases hj : j = i
    · subst hj
      simp only [Function.update_self] at hr
      rcases ha.stored h hstep hr with hown | ⟨r₀, hr₀, heq⟩ | ⟨c, -, hmem⟩
      · exact absurd hown ho
      · exact heq ▸ h.carried j k r₀ hr₀ ho
      · exact (h.onWay _ _ hmem rfl).2.1
    · simp only [Function.update_of_ne hj] at hr
      exact h.carried j k r hr ho
  · rcases List.mem_append.mp he with he | he
    · obtain ⟨hd, hcarried, hhas⟩ := h.onWay e lsa (ha.mem_flight he) hm
      exact ⟨hd, hcarried, h.has_mono ha hstep _ hhas⟩
    · obtain ⟨hfar, hcarried, r, hr, hseq, hdead⟩ := ha.queued h hw hstep he hm
      refine ⟨?_, hcarried, r, ?_, hseq.ge⟩
      · rw [← hdead]
        exact hgrowing.alive _ _ hr
      · rw [hfar]
        simpa using hr
  · by_cases hj : j = i
    · subst hj
      simp only [Function.update_self] at hr
      rcases ha.stored h hstep hr with hown | ⟨r₀, hr₀, heq⟩ | ⟨c, -, hmem⟩
      · obtain rfl : o = j := N.ids_injective (ho.symm.trans hown)
        exact ⟨r, by simpa using hr, Nat.le_refl _⟩
      · exact heq ▸ h.has_mono ha hstep _ (h.newest j o k r₀ hr₀ ho)
      · obtain ⟨r₁, hr₁, hle⟩ := (h.onWay _ _ hmem rfl).2.2
        have hkey := hadv.ok.record_key k r hr
        rw [hkey] at hr₁
        obtain ⟨r₂, hr₂, hle'⟩ := h.newest _ o k r₁ hr₁ ho
        exact h.has_mono ha hstep _ ⟨r₂, hr₂, hle.trans hle'⟩
    · simp only [Function.update_of_ne hj] at hr
      exact h.has_mono ha hstep _ (h.newest j o k r hr ho)
  · by_cases hj : j = i
    · subst hj
      simp only [Function.update_self] at hc hr
      exact ha.told h hstep hroom hc hr hpeer hp
    · simp only [Function.update_of_ne hj] at hc hr
      refine (h.told j c link k r hc hr hpeer hp).acts ?_ h ha hstep
      rwa [← (h.growing j).ok.link_id c link hc, ← (h.fits j c link hc).peer]

omit [DecidableEq ι] in
/-- The cover depends only on the records and links of the nodes, and on the LSAs that are on
their way over links that are up. -/
theorem Covered.of_frame (h : N.Covered s missed) {s' : Net ι}
    (hself : ∀ j, (s'.db j).selfId = (s.db j).selfId)
    (hrecord : ∀ j k, (s'.db j).db.get k = (s.db j).db.get k)
    (hlink : ∀ j c, (s'.db j).links.get c = (s.db j).links.get c)
    (hgrowing : ∀ j, (s'.db j).Growing) (hflight : ∀ e ∈ s'.flight, e ∈ s.flight)
    (hkept : ∀ j c link lsa, (s.db j).links.get c = some link →
      ⟨(N.far (j, c)).1, (N.far (j, c)).2, .lsa lsa⟩ ∈ s.flight →
        ⟨(N.far (j, c)).1, (N.far (j, c)).2, .lsa lsa⟩ ∈ s'.flight) : N.Covered s' missed := by
  have hhas : ∀ {j k n}, s.Has j k n → s'.Has j k n := by
    rintro j k n ⟨r, hr, hle⟩
    exact ⟨r, (hrecord j k).trans hr, hle⟩
  refine ⟨fun j => (hself j).trans (h.self j), hgrowing, fun j c link hc => ?_, fun j k r hr ho => ?_,
    fun e lsa he hm => ?_, fun j o k r hr ho => ?_, fun j c link k r hc hr hpeer hp => ?_⟩
  · exact h.fits j c link (hlink j c ▸ hc)
  · exact h.carried j k r (hrecord j k ▸ hr) ho
  · obtain ⟨hd, hcarried, hsender⟩ := h.onWay e lsa (hflight e he) hm
    exact ⟨hd, hcarried, hhas hsender⟩
  · exact hhas (h.newest j o k r (hrecord j k ▸ hr) ho)
  · rw [hlink] at hc
    rw [hrecord] at hr
    rcases h.told j c link k r hc hr hpeer hp with hold | ⟨lsa, he, hkey, hle⟩ | hmiss
    · exact .inl (hhas hold)
    · exact .inr (.inl ⟨lsa, hkept j c link lsa hc he, hkey, hle⟩)
    · exact .inr (.inr hmiss)

/-- Rehashing and a new forwarding table at one node keep the cover. -/
theorem Covered.settle (h : N.Covered s missed) {db db₁ db₂ : LsDb} {flight : List (Envelope ι)}
    {fib : ForwardingTable} (hs : s = ⟨Function.update s₀.db i db, flight⟩) (hre : LsDb.Rehash db db₁)
    (hfib : db₁.buildFib = some (db₂, fib)) :
    N.Covered ⟨Function.update s₀.db i db₂, flight⟩ missed := by
  have hframe := (LsDb.Settles.buildFib (.rehash (.refl db) hre) hfib).frame
  have hnode : ∀ j, j ≠ i → (⟨Function.update s₀.db i db₂, flight⟩ : Net ι).db j = s.db j := by
    intro j hj
    rw [hs]
    simp [hj]
  have hdb : s.db i = db := by simp [hs]
  have hdb₂ : (⟨Function.update s₀.db i db₂, flight⟩ : Net ι).db i = db₂ := by simp
  refine h.of_frame (fun j => ?_) (fun j k => ?_) (fun j c => ?_) (fun j => ?_)
    (fun e he => hs ▸ he) (fun j c link lsa _ he => ?_)
  · by_cases hj : j = i
    · rw [hj, hdb, hdb₂, hframe.1]
    · rw [hnode j hj]
  · by_cases hj : j = i
    · rw [hj, hdb, hdb₂, hframe.2.1]
    · rw [hnode j hj]
  · by_cases hj : j = i
    · rw [hj, hdb, hdb₂, hframe.2.2]
    · rw [hnode j hj]
  · by_cases hj : j = i
    · rw [hj, hdb₂]
      exact ((hdb ▸ h.growing i).rehash hre).buildFib hfib
    · rw [hnode j hj]
      exact h.growing j
  · rw [hs] at he
    exact he

/-- An acknowledgement concerns no record. -/
theorem Covered.ack (h : N.Covered s missed) (c : ConnectionId) (key : LsaKey) (seq : Nat) :
    N.Covered { s.without ⟨i, c, .lsaAck key seq⟩ with
      db := Function.update s.db i ((s.db i).handleAck c key seq) } missed := by
  obtain ⟨p, hp⟩ := LsDb.handleAck_frame (s.db i) c key seq
  have hnode : ∀ j, ∃ q, (Function.update s.db i ((s.db i).handleAck c key seq)) j =
      { s.db j with pendingTx := q } := by
    intro j
    by_cases hj : j = i
    · subst hj
      exact ⟨p, by rw [Function.update_self, hp]⟩
    · exact ⟨(s.db j).pendingTx, by rw [Function.update_of_ne hj]⟩
  refine h.of_frame (fun j => ?_) (fun j k => ?_) (fun j c => ?_) (fun j => ?_)
    (fun e he => List.mem_of_mem_erase he) (fun j c' link lsa _ he => ?_)
  · obtain ⟨q, hq⟩ := hnode j
    simp only [hq]
  · obtain ⟨q, hq⟩ := hnode j
    simp only [hq]
  · obtain ⟨q, hq⟩ := hnode j
    simp only [hq]
  · obtain ⟨q, hq⟩ := hnode j
    simp only [hq]
    exact (h.growing j).of_parts rfl rfl
  · refine (List.mem_erase_of_ne fun heq => ?_).mpr he
    cases (Envelope.mk.inj heq).2.2

/-- A message whose sender has given up the link may be lost. -/
theorem Covered.lose (h : N.Covered s missed) (e : Envelope ι)
    (hdown : (s.db (N.far (e.dest, e.connectionId)).1).links.get
      (N.far (e.dest, e.connectionId)).2 = none) : N.Covered (s.without e) missed := by
  refine h.of_frame (fun _ => rfl) (fun _ _ => rfl) (fun _ _ => rfl) h.growing
    (fun e' he' => List.mem_of_mem_erase he') (fun j c link lsa hc he => ?_)
  refine (List.mem_erase_of_ne ?_).mpr he
  rintro rfl
  rw [N.far_far, hc] at hdown
  cases hdown

/-- Every run keeps the cover. -/
theorem Floods.covered (h : N.Floods s missed) : N.Covered s missed := by
  induction h with
  | start now =>
    have hrecord : ∀ i k r, (LsDb.new (N.ids i) (now i)).db.get k = some r →
        k = ⟨N.ids i, N.ids i⟩ := by
      intro i k r hr
      simp only [LsDb.new, HashMap.get_insert] at hr
      split at hr
      · assumption
      · simp at hr
    refine ⟨fun i => rfl, fun i => .new _ _, fun i c link hc => ?_, fun i k r hr ho => ?_,
      fun e lsa he => ?_, fun i o k r hr ho => ?_, fun i c link k r hc => ?_⟩
    · cases hc
    · rw [hrecord i k r hr] at ho
      exact absurd rfl ho
    · cases he
    · have hk := hrecord i k r hr
      rw [hk] at ho
      obtain rfl : i = o := N.ids_injective ho
      exact ⟨r, hr, Nat.le_refl _⟩
    · cases hc
  | act now i op _ ha hw hstep hroom hre hfib ih =>
    exact (ih.acts ha hw hstep hroom).settle rfl hre hfib
  | ack _ _ ih => exact ih.ack _ _ _
  | lose e _ hdown ih => exact ih.lose e hdown

omit [DecidableEq ι] in
/-- A link that is up carries what its node stores, but for an own endpoint of another realm. -/
theorem Covered.permits (h : N.Covered s missed) {c : ConnectionId} {link : Link} {k : LsaKey}
    {r : LsaRecord} (hc : (s.db i).links.get c = some link) (hr : (s.db i).db.get k = some r)
    (hrealm : k.origin = N.ids i → ∀ info, r.lsa.body = .endpoint info → info.realm ∈ N.realms) :
    (link.permits r.lsa).isSome := by
  have hfits := h.fits i c link hc
  by_cases ho : k.origin = N.ids i
  · cases hb : r.lsa.body with
    | endpoint info =>
      have hmem := hrealm ho info hb
      rw [← hfits.realms] at hmem
      simp [Link.permits, hb, hmem]
    | router adjs =>
      -- The own router LSA lists this link, and shares all its realms with it.
      have hk := (h.growing i).sound.own_key k r adjs hr hb (ho.trans (h.self i).symm)
      obtain ⟨r', adjs', hr', hb', hmirrors⟩ := (h.growing i).ownRecord
      obtain rfl : r' = r := by
        rw [hk, hr', Option.some.injEq] at hr
        exact hr
      obtain rfl : adjs' = adjs := by
        rw [hb', LsaBody.router.injEq] at hb
        exact hb
      have hid := (h.growing i).ok.link_id c link hc
      have hadj : link.adjacency ∈ adjs' := by
        refine (hmirrors.mem_iff _).mpr ⟨link, ?_, rfl⟩
        change (s.db i).links.get link.connectionId = some link
        rw [hid, hc]
      refine Link.permits_router_isSome hb hadj ?_
      change link.realms ∩ link.realms ≠ ∅
      rw [Finset.inter_self, hfits.realms]
      exact N.realms_ne
  · rw [h.carried i k r hr ho link hfits.realms]
    rfl

omit [DecidableEq ι] in
/-- When no LSA is on its way, the far end of a link that no flood has passed by stores the
version of the origin if this end does. -/
theorem Covered.far_seqAt (h : N.Covered s missed) (hsettled : s.Settled) {o : ι} {k : LsaKey}
    (ho : k.origin = N.ids o)
    (hrealm : ∀ r info, (s.db o).db.get k = some r → r.lsa.body = .endpoint info → info.realm ∈ N.realms)
    {c : ConnectionId} (hup : N.Up s i c) (hmiss : s.Unmissed missed o k i c)
    (hi : s.seqAt i k = s.seqAt o k) : s.seqAt (N.far (i, c)).1 k = s.seqAt o k := by
  cases hn : s.seqAt o k with
  | none =>
    -- What the origin does not store nobody stores.
    rw [Net.seqAt, Option.map_eq_none_iff] at hn ⊢
    cases hr : (s.db (N.far (i, c)).1).db.get k with
    | none => rfl
    | some r =>
      obtain ⟨r₀, hr₀, -⟩ := h.newest _ o k r hr ho
      rw [hn] at hr₀
      cases hr₀
  | some n =>
    obtain ⟨r₀, hr₀, hseq₀⟩ := Option.map_eq_some_iff.mp hn
    rw [hn] at hi
    obtain ⟨r, hr, hseq⟩ := Option.map_eq_some_iff.mp hi
    obtain ⟨⟨link, hc⟩, -⟩ := hup
    by_cases hpeer : k.origin = link.peerId
    · have hfar : (N.far (i, c)).1 = o := by
        apply N.ids_injective
        rw [← ho, hpeer, (h.fits i c link hc).peer, (h.growing i).ok.link_id c link hc]
      rw [hfar, hn]
    · have hpermits : (link.permits r.lsa).isSome := by
        refine h.permits hc hr fun hown info hb => ?_
        obtain rfl : i = o := N.ids_injective (hown.symm.trans ho)
        exact hrealm r info hr hb
      rcases h.told i c link k r hc hr hpeer hpermits with ⟨r', hr', hle⟩ | ⟨lsa, he, -⟩ | hm
      · obtain ⟨r₁, hr₁, hle₁⟩ := h.newest _ o k r' hr' ho
        rw [hr₀] at hr₁
        cases hr₁
        rw [Net.seqAt, hr', Option.map_some, Option.some.injEq]
        omega
      · exact absurd rfl (hsettled _ he lsa)
      · rw [hseq] at hm
        exact absurd hm (hmiss n hn)

end Step

instance (i : ι) (link : Link) : Decidable (N.Fits i link) :=
  decidable_of_iff (link.peerId = N.ids (N.far (i, link.connectionId)).1 ∧
      N.wire i link.tx = N.far (i, link.connectionId) ∧ link.realms = N.realms)
    ⟨fun ⟨hpeer, hchannel, hrealms⟩ => ⟨hpeer, hchannel, hrealms⟩,
      fun h => ⟨h.peer, h.channel, h.realms⟩⟩

/-- An operation over idle channels and the new forwarding table after it; `none` if the node
panics or a queue becomes full. -/
def act (s s₀ : Net ι) (i : ι) (op : Op) : Option (Net ι) :=
  match (s.db i).step (.idle 32) 0 op with
  | none => none
  | some (db', w') =>
    if ∀ e ∈ (s.db i).links.entries ++ db'.links.entries,
        (w'.node e.2.tx).queue.length < (w'.node e.2.tx).capacity then
      db'.buildFib.map fun r => ⟨Function.update s.db i r.1, N.flightAfter s₀ i (s.db i) db' w'⟩
    else none

/-- The moves of a run that delivers the oldest message of all. -/
inductive Move (ι : Type*) where
  | up (i : ι) (link : Link)
  | down (i : ι) (c : ConnectionId)
  | listen (i : ι) (request : RegistrationRequest)
  | deliver

/-- The network after a move; `none` if it is not one of a run. -/
def move (s : Net ι) : Move ι → Option (Net ι)
  | .up i link =>
    if N.Fits i link ∧ (s.db i).links.get link.connectionId = none then N.act s s i (.addPeer link) else none
  | .down i c => N.act s s i (.removePeer c)
  | .listen i request =>
    if request.endpointId = (s.db i).selfId then none else N.act s s i (.addEndpoint request)
  | .deliver =>
    match s.flight with
    | [] => none
    | ⟨i, c, .lsa lsa⟩ :: _ => N.act s (s.without ⟨i, c, .lsa lsa⟩) i (.handleLsa lsa c)
    | ⟨i, c, .lsaAck key seq⟩ :: _ =>
      some { s.without ⟨i, c, .lsaAck key seq⟩ with
        db := Function.update s.db i ((s.db i).handleAck c key seq) }
    | ⟨_, _, .wirePacket _⟩ :: _ => none

/-- A version cannot be missed next on a connection: it is not in use, or its node has the
version already. -/
def spares (s : Net ι) (m : Miss ι) : Bool :=
  ((s.db m.node).links.get m.connectionId).isNone ||
    (s.seqAt m.node m.key).any fun n => decide (m.seq ≤ n)

/-- A move from a network that spares a version. -/
def moveSparing (m : Miss ι) (s : Net ι) (mv : Move ι) : Option (Net ι) :=
  if spares s m then N.move s mv else none

/-- Fresh nodes. -/
def fresh : Net ι := ⟨fun i => .new (N.ids i) 0, []⟩

section Moves

variable {N} {s s₀ s' : Net ι} {missed : Set (Miss ι)}

theorem floods_of_act {i : ι} {op : Op} (h : N.Floods s missed) (ha : N.Acts s i op s₀)
    (hact : N.act s s₀ i op = some s') : ∃ db', N.Floods s' (missed ∪ N.misses s i op db') := by
  unfold act at hact
  split at hact
  · cases hact
  · next db' w' hstep =>
    split at hact
    · next hroom =>
      obtain ⟨⟨db₂, fib⟩, hfib, rfl⟩ := Option.map_eq_some_iff.mp hact
      refine ⟨db', .act 0 i op h ha (Wires.drained_idle 32) hstep ?_ (.refl db') hfib⟩
      exact LsDb.neverFull_of_links fun e he => ⟨rfl, hroom e he⟩
    · cases hact

theorem oldest_of_head {e : Envelope ι} {rest : List (Envelope ι)} (h : s.flight = e :: rest) :
    s.Oldest e := by
  rw [Net.Oldest, h]
  simp

omit [DecidableEq ι] in
theorem not_mem_misses {i : ι} {op : Op} {db' : LsDb} {m : Miss ι} (h : spares s m = true) :
    m ∉ N.misses s i op db' := by
  rintro ⟨rfl, -, hnew, ⟨link, hc, -⟩, -⟩
  rcases Bool.or_eq_true_iff.mp h with hnone | hany
  · rw [hc] at hnone
    cases hnone
  · rw [Net.seqAt, Option.any_map, Option.any_eq_true] at hany
    obtain ⟨r, hr, hle⟩ := hany
    exact Nat.not_lt.mpr (of_decide_eq_true hle) (hnew r hr)

/-- A move of a run, with a version that is not missed meanwhile. -/
theorem floods_of_move {mv : Move ι} (h : N.Floods s missed) (hm : N.move s mv = some s') :
    ∃ missed', N.Floods s' missed' ∧ ∀ m, spares s m = true → m ∉ missed → m ∉ missed' := by
  have hact : ∀ {s₀ i op}, N.Acts s i op s₀ → N.act s s₀ i op = some s' →
      ∃ missed', N.Floods s' missed' ∧ ∀ m, spares s m = true → m ∉ missed → m ∉ missed' := by
    intro s₀ i op ha hact
    obtain ⟨db', h'⟩ := floods_of_act h ha hact
    refine ⟨_, h', fun m hspares hmem hmem' => ?_⟩
    rcases hmem' with hold | hnew
    · exact hmem hold
    · exact not_mem_misses hspares hnew
  cases mv with
  | up i link =>
    simp only [move] at hm
    split at hm
    · next hcond => exact hact (.addPeer hcond.1 hcond.2) hm
    · cases hm
  | down i c => exact hact (.removePeer c) hm
  | listen i request =>
    simp only [move] at hm
    split at hm
    · cases hm
    · next hne => exact hact (.addEndpoint fun ho => hne ho.1) hm
  | deliver =>
    simp only [move] at hm
    split at hm
    · cases hm
    · next hflight => exact hact (.lsa (oldest_of_head hflight)) hm
    · next hflight =>
      obtain rfl := Option.some.inj hm
      exact ⟨missed, h.ack (oldest_of_head hflight), fun _ _ hmem => hmem⟩
    · cases hm

theorem floods_of_moves {moves : List (Move ι)} (h : N.Floods s missed)
    (hm : moves.foldlM N.move s = some s') : ∃ missed', N.Floods s' missed' := by
  induction moves generalizing s missed with
  | nil =>
    obtain rfl := Option.some.inj hm
    exact ⟨missed, h⟩
  | cons mv moves ih =>
    obtain ⟨s₁, hs₁, hrest⟩ := Option.bind_eq_some_iff.mp hm
    obtain ⟨missed₁, h₁, -⟩ := floods_of_move h hs₁
    exact ih h₁ hrest

theorem floods_of_movesSparing {moves : List (Move ι)} {m : Miss ι} (h : N.Floods s missed)
    (hmem : m ∉ missed) (hm : moves.foldlM (N.moveSparing m) s = some s') :
    ∃ missed', N.Floods s' missed' ∧ m ∉ missed' := by
  induction moves generalizing s missed with
  | nil =>
    obtain rfl := Option.some.inj hm
    exact ⟨missed, h, hmem⟩
  | cons mv moves ih =>
    obtain ⟨s₁, hs₁, hrest⟩ := Option.bind_eq_some_iff.mp hm
    unfold moveSparing at hs₁
    split at hs₁
    · next hspares =>
      obtain ⟨missed₁, h₁, hkept⟩ := floods_of_move h hs₁
      exact ih h₁ (hkept m hspares hmem) hrest
    · cases hs₁

end Moves

end Cabling

/-- The other end of a connection of one of three nodes, where connection 1 leads to the next
node and connection 2 back. -/
def triangleFar (x : Fin 3 × ConnectionId) : Fin 3 × ConnectionId :=
  if x.2 = 1 then (x.1 + 1, 2) else if x.2 = 2 then (x.1 + 2, 1) else x

/-- Three nodes, each joined to both others. -/
def triangle : Cabling (Fin 3) where
  ids i := ⟨i.val + 1, threeNodes_succ_lt i⟩
  far := triangleFar
  wire i t := triangleFar (i, t)
  realms := {.global}
  ids_injective := by
    intro i j hij
    have hval := congrArg Fin.val hij
    ext
    change i.val + 1 = j.val + 1 at hval
    omega
  far_far := by
    rintro ⟨i, c⟩
    have hround : i + 1 + 2 = i ∧ i + 2 + 1 = i := by
      revert i
      decide
    unfold triangleFar
    by_cases h₁ : c = 1
    · simp [h₁, hround]
    · by_cases h₂ : c = 2
      · simp [h₂, hround]
      · simp [h₁, h₂]
  realms_ne := by decide

/-- The links of the triangle; the one between the first two nodes costs more than the way
round. -/
def triangleLink (i : Fin 3) (c : ConnectionId) : Link :=
  ⟨c, triangle.ids (triangle.far (i, c)).1, c, {.global},
    if (i = 0 ∧ c = 1) ∨ (i = 1 ∧ c = 2) then ⟨10, Cost.ten_le_max⟩ else ⟨1, Cost.one_le_max⟩⟩

/-- All links come up and all is delivered; then the first and the last node lose their link. -/
def triangleMoves : List (Cabling.Move (Fin 3)) :=
  [.up 0 (triangleLink 0 1), .up 1 (triangleLink 1 2), .up 1 (triangleLink 1 1),
    .up 2 (triangleLink 2 2), .up 2 (triangleLink 2 1), .up 0 (triangleLink 0 2)] ++
    List.replicate 34 .deliver ++ [.down 0 2, .down 2 1] ++ List.replicate 6 .deliver

/-- The links from the first node to the second and from there to the last are up, nothing is
on its way, and the last node has missed that the first one lost a link. -/
theorem triangle_misses :
    (triangleMoves.foldlM triangle.move triangle.fresh).map (fun s =>
      (s.flight.length, s.seqAt 0 ⟨1, 1⟩, s.seqAt 2 ⟨1, 1⟩,
        [(0, 1), (1, 2), (1, 1), (2, 2)].all fun x => ((s.db x.1).links.get x.2).isSome)) =
      some (0, some 3, some 2, true) := by
  decide +kernel

/-- Two nodes and the link between them. -/
def pairCabling : Cabling Bool where
  ids := Net.pairIds
  far x := (!x.1, x.2)
  wire := Net.pairWire
  realms := {.userspace, .global}
  ids_injective := by decide
  far_far := by
    rintro ⟨i, c⟩
    simp
  realms_ne := by decide

/-- The link comes up, the first node gets a listener of its own process, and all is delivered. -/
def pairMoves : List (Cabling.Move Bool) :=
  [.up false (Net.pairLink false), .up true (Net.pairLink true),
    .listen false ⟨5, ⟨.unicast, .process, 0⟩, 7⟩] ++ List.replicate 4 .deliver

theorem pair_hides :
    (pairMoves.foldlM pairCabling.move pairCabling.fresh).map (fun s =>
      (s.flight.length, s.seqAt false ⟨1, 5⟩, s.seqAt true ⟨1, 5⟩,
        [false, true].all fun i => ((s.db i).links.get 1).isSome)) = some (0, some 0, none, true) := by
  decide +kernel

/-- The link between the two nodes comes up. -/
def pairUpMoves : List (Cabling.Move Bool) :=
  [.up false (Net.pairLink false), .up true (Net.pairLink true), .deliver, .deliver]

theorem pair_agrees :
    (pairUpMoves.foldlM (pairCabling.moveSparing ⟨false, 1, ⟨1, 1⟩, 1⟩) pairCabling.fresh).map (fun s =>
      (s.flight.all fun e => e.message.lsaOf.isNone, s.seqAt false ⟨1, 1⟩,
        ((s.db false).db.get ⟨1, 1⟩).map fun r => r.lsa.body,
        [false, true].all fun i => ((s.db i).links.get 1).isSome)) =
      some (true, some 1, some (.router [(Net.pairLink false).adjacency]), true) := by
  decide +kernel

end Anybus
