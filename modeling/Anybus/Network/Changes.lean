import Anybus.Network.Alike
import Anybus.Network.Delivery
import Anybus.Network.Realms

/-!
# Changes of an endpoint in a network at rest

Links and router LSAs stay while clients register and drop listeners, anywhere and at any
time. A change of an endpoint at a node makes a new version of its LSA, which is flooded from
node to node. No flood goes over the way back to the origin, but the neighbour there is nearer
to it. So the version has reached every node when nothing of it is on its way any more.
-/

namespace Anybus

/-- The LSA of an endpoint goes over a link as it is, or not at all. -/
theorem Lsa.IsEndpoint.eq_of_permits {v l : Lsa} (hv : v.IsEndpoint) {link : Link}
    (h : link.permits v = some l) : l = v := by
  obtain ⟨info, hb⟩ := hv
  simp only [Link.permits, hb] at h
  split at h
  · exact (Option.some.inj h).symm
  · cases h

namespace LsDb

/-- An operation is a change of the own endpoint of a key, or the arrival of its LSA. -/
def Concerns (db : LsDb) (op : Op) (k : LsaKey) : Prop :=
  (∃ e, op.endpoint = some e ∧ k = ⟨db.selfId, e⟩) ∨ ∃ lsa c, op = .handleLsa lsa c ∧ k = lsa.key

/-- An operation takes up one version of an endpoint's LSA, which it concerns, or none. -/
def TakesEndpoint (db : LsDb) (w : Wires) (now : Instant) (op : Op) (db' : LsDb) : Prop :=
  TakesNone db w now op db' ∨ ∃ v inC, TakesUp db w now op db' v inC ∧ v.IsEndpoint ∧
    v.key.endpointId ≠ v.key.origin ∧ Concerns db op v.key

section Queue

variable {db db' : LsDb} {w w' : Wires} {now : Instant} {op : Op} {v l : Lsa}
  {inC : Option ConnectionId} {t : Tx}

/-- Only a new link is handed more than floods. -/
theorem mem_floods_of_sends (hop : ∀ link, op ≠ .addPeer link) {s : Link × Lsa}
    (h : s ∈ db.sends w now op) : ∃ inC, (s.2, inC) ∈ db.floods w now op := by
  rcases List.mem_append.mp h with h | h
  · obtain ⟨⟨lsa, inC⟩, hf, hs⟩ := List.mem_flatMap.mp h
    exact ⟨inC, (mem_floodSends.mp hs).1 ▸ hf⟩
  · cases op with
    | addPeer link => exact absurd rfl (hop link)
    | _ => cases h

/-- An operation that takes up nothing queues no LSA. -/
theorem TakesNone.not_mem_queue (h : TakesNone db w now op db') (hop : ∀ link, op ≠ .addPeer link)
    (hw : w.Drained) (hstep : db.step w now op = some (db', w')) : .lsa l ∉ (w'.node t).queue := by
  intro hl
  have hqueues : Queues (fun _ => True) (fun _ => False) w w' := by
    refine queues_of_sends hstep fun s hs => ?_
    obtain ⟨inC, hf⟩ := mem_floods_of_sends hop hs
    rw [h.floods] at hf
    cases hf
  rcases hqueues t l hl with hold | ⟨_, _, _, _, hfalse, _⟩
  · rw [hw t] at hold
    cases hold
  · exact hfalse

/-- Any other one queues only the version that it takes up. -/
theorem TakesUp.eq_of_mem_queue (h : TakesUp db w now op db' v inC) (hop : ∀ link, op ≠ .addPeer link)
    (hv : v.IsEndpoint) (hw : w.Drained) (hstep : db.step w now op = some (db', w'))
    (hl : .lsa l ∈ (w'.node t).queue) : l = v := by
  have hqueues : Queues (fun _ => True) (fun lsa => lsa = v) w w' := by
    refine queues_of_sends hstep fun s hs => ⟨trivial, ?_⟩
    obtain ⟨inC', hf⟩ := mem_floods_of_sends hop hs
    rw [h.floods, List.mem_singleton] at hf
    exact (Prod.mk.inj hf).1
  rcases hqueues t l hl with hold | ⟨link, lsa, _, _, rfl, hp⟩
  · rw [hw t] at hold
    cases hold
  · exact hv.eq_of_permits hp

/-- It queues the version for every link that carries it, but for the link it passes by, the
link to the origin and the way back to it. -/
theorem TakesUp.mem_queue (h : TakesUp db w now op db' v inC) (hok : db.Ok)
    (hstep : db.step w now op = some (db', w')) (hroom : NeverFull db db' w w')
    (hlinks : db'.links = db.links) {c : ConnectionId} {link : Link} (hc : db.links.get c = some link)
    (hp : link.permits v = some v) (hin : inC ≠ some c) (hpeer : v.key.origin ≠ link.peerId)
    (hback : db.isBackPath v.key.origin link = false) : .lsa v ∈ (w'.node link.tx).queue := by
  have hf : (v, inC) ∈ db.floods w now op := by
    rw [h.floods]
    exact List.mem_singleton_self _
  have hs := mem_sends_of_floods hstep hf hc (.inl (hlinks ▸ hc)) hin hpeer hback
  have hsent := sentOn_of_sends hok hstep hroom hs hp
  rw [sentOn, upLink_of_sends hok hstep hs] at hsent
  exact List.mem_of_mem_drop (mem_lsasOf.mp hsent)

end Queue

end LsDb

namespace Net

variable {ι : Type*}

/-- No version of an LSA is on its way. -/
def Quiet (s : Net ι) (k : LsaKey) : Prop :=
  ∀ env ∈ s.flight, ∀ lsa, env.message = .lsa lsa → lsa.key ≠ k

variable [DecidableEq ι]

/-- What can happen at a node: listeners of an endpoint come, go or change their cost, or an
LSA or an acknowledgement arrives. -/
inductive Happens (s : Net ι) (i : ι) : Op → Net ι → Prop where
  | change {op : Op} {e : EndpointId} (hop : op.endpoint = some e) (hkeep : e ≠ (s.db i).selfId) :
      Happens s i op s
  | lsa {c : ConnectionId} {lsa : Lsa} (h : ⟨i, c, .lsa lsa⟩ ∈ s.flight) :
      Happens s i (.handleLsa lsa c) (s.without ⟨i, c, .lsa lsa⟩)
  | ack {c : ConnectionId} {key : LsaKey} {seq : Nat} (h : ⟨i, c, .lsaAck key seq⟩ ∈ s.flight) :
      Happens s i (.handleAck c key seq) (s.without ⟨i, c, .lsaAck key seq⟩)

/-- A change of an endpoint at a node comes in turn: nothing of the last one is on its way. A
listener asks for a realm that all links carry, connection 0 is not in use then, and the
first listener comes when the node has no record of the endpoint. -/
structure InTurn (s : Net ι) (o : ι) (e : EndpointId) (op : Op) : Prop where
  quiet : s.Quiet ⟨(s.db o).selfId, e⟩
  carried : ∀ request, op = .addEndpoint request → (s.db o).links.get 0 = none ∧
    ∀ i c link, (s.db i).links.get c = some link → request.endpointInfo.realm ∈ link.realms
  first : (s.db o).FirstAfresh op e

/-- The runs in which links stay and no queue of a link becomes full. The changes of one
endpoint at one node come in turn; all others come at any time, and messages are delivered in
any order. -/
inductive Changes (wire : Wiring ι) (o : ι) (e : EndpointId) (s₀ : Net ι) : Net ι → Prop where
  | start : Changes wire o e s₀ s₀
  | act {s s₁ : Net ι} {db' : LsDb} {w w' : Wires} (now : Instant) (i : ι) (op : Op)
      (h : Changes wire o e s₀ s) (ha : s.Happens i op s₁)
      (hturn : i = o → op.endpoint = some e → s.InTurn o e op) (hw : w.Drained)
      (hstep : (s.db i).step w now op = some (db', w')) (hroom : (s.db i).NeverFull db' w w') :
      Changes wire o e s₀ (s₁.post wire i (db', w'))
  | settle {s s' : Net ι} (i : ι) (h : Changes wire o e s₀ s) (hs : SettlesAt i s s') :
      Changes wire o e s₀ s'

/-- A network at rest in which all nodes know the same of an endpoint. -/
structure AllKnow (wire : Wiring ι) (o : ι) (e : EndpointId) (fib : ι → ForwardingTable) (s : Net ι) :
    Prop where
  net : Converged s.db fib wire
  ids : Function.Injective fun i => (s.db i).selfId
  ok : ∀ i, (s.db i).Ok
  /-- The ways back that a node has stored are those of its table. -/
  paths : ∀ i n link, (s.db i).nextHop.get n = some link → (fib i).nextHop.get n = some link
  /-- Every node has a way to the node of the endpoint. -/
  reached : ∀ i, i ≠ o → ∃ link, (fib i).nextHop.get (s.db o).selfId = some link
  other : e ≠ (s.db o).selfId
  alive : ∀ i k l, (s.db i).lsaAt k = some l → l.dead = false
  /-- LSAs that are on their way are those of endpoints, and of others than this one. -/
  flight : ∀ env ∈ s.flight, ∀ lsa, env.message = .lsa lsa →
    lsa.IsEndpoint ∧ lsa.key.endpointId ≠ lsa.key.origin
  quiet : s.Quiet ⟨(s.db o).selfId, e⟩
  same : ∀ i, (s.db i).lsaAt ⟨(s.db o).selfId, e⟩ = (s.db o).lsaAt ⟨(s.db o).selfId, e⟩
  /-- All links carry the realm of the endpoint. -/
  carried : ∀ l info, (s.db o).lsaAt ⟨(s.db o).selfId, e⟩ = some l → l.body = .endpoint info →
    ∀ i c link, (s.db i).links.get c = some link → info.realm ∈ link.realms

/-- What such runs leave as it was. -/
structure Steady (s₀ s : Net ι) : Prop where
  alike : ∀ i, LsDb.Alike (s₀.db i) (s.db i)
  nearer : ∀ i, Converged.Nearer s₀.db i (s.db i)
  ok : ∀ i, (s.db i).Ok
  alive : ∀ i k l, (s.db i).lsaAt k = some l → l.dead = false
  flight : ∀ env ∈ s.flight, ∀ lsa, env.message = .lsa lsa →
    lsa.IsEndpoint ∧ lsa.key.endpointId ≠ lsa.key.origin

/-- What they leave as it was at one node. -/
structure SteadyAt (s₀ : Net ι) (i : ι) (d : LsDb) : Prop where
  alike : LsDb.Alike (s₀.db i) d
  nearer : Converged.Nearer s₀.db i d
  ok : d.Ok
  alive : ∀ k l, d.lsaAt k = some l → l.dead = false

/-- A version of an LSA spreads in place of an older one, or of none. A node has either; what
is on its way comes from a node that has the version; and such a node leaves out none but
neighbours that have it too, that it is on its way to, or that are nearer to the origin. -/
structure Spreading (wire : Wiring ι) (s₀ : Net ι) (o : ι) (v : Lsa) (old : Option Lsa) (s : Net ι) :
    Prop where
  news : v.IsNews old
  held : ∀ i, (s.db i).lsaAt v.key = old ∨ (s.db i).lsaAt v.key = v.left
  origin : (s.db o).lsaAt v.key = v.left
  onWay : ∀ env ∈ s.flight, ∀ lsa, env.message = .lsa lsa → lsa.key = v.key → lsa = v ∧
    ∀ back, (s.db env.dest).links.get env.connectionId = some back →
      (s.db (wire env.dest back.tx).1).lsaAt v.key = v.left
  told : ∀ i, (s.db i).lsaAt v.key = v.left → ∀ c link, (s.db i).links.get c = some link →
    (s.db (wire i link.tx).1).lsaAt v.key = v.left ∨
      ⟨(wire i link.tx).1, (wire i link.tx).2, .lsa v⟩ ∈ s.flight ∨
        (s₀.db o).spfGraph.dist link.peerId (s₀.db o).selfId <
          (s₀.db o).spfGraph.dist (s₀.db i).selfId (s₀.db o).selfId

/-- All nodes hold the same of a key, and nothing of it is on its way. -/
structure Agreed (k : LsaKey) (l : Option Lsa) (s : Net ι) : Prop where
  quiet : s.Quiet k
  same : ∀ i, (s.db i).lsaAt k = l

section Steady

variable {wire : Wiring ι} {o : ι} {e : EndpointId} {fib : ι → ForwardingTable} {s₀ s s₁ : Net ι}
  {i : ι} {op : Op} {db' : LsDb} {w w' : Wires} {now : Instant}

theorem Happens.db_eq (ha : s.Happens i op s₁) : s₁.db = s.db := by
  cases ha with
  | change | lsa | ack => rfl

theorem Happens.mem_flight (ha : s.Happens i op s₁) {env : Envelope ι} (h : env ∈ s₁.flight) :
    env ∈ s.flight := by
  cases ha with
  | change => exact h
  | lsa | ack => exact List.mem_of_mem_erase h

/-- No link is taken up. -/
theorem Happens.ne_addPeer (ha : s.Happens i op s₁) (link : Link) : op ≠ .addPeer link := by
  rintro rfl
  cases ha with
  | change hop => cases hop

theorem mem_post {r : LsDb × Wires} {env : Envelope ι} :
    env ∈ (s₁.post wire i r).flight ↔ env ∈ s₁.flight ∨ env ∈ Net.sent wire i r.1 r.2 := by
  rw [Net.post, List.mem_append]

theorem post_self (r : LsDb × Wires) : (s₁.post wire i r).db i = r.1 := Function.update_self _ _ _

theorem Happens.post_of_ne (ha : s.Happens i op s₁) (r : LsDb × Wires) {j : ι} (hj : j ≠ i) :
    (s₁.post wire i r).db j = s.db j := by
  have h : (s₁.post wire i r).db j = s₁.db j := Function.update_of_ne hj _ _
  rw [h, ha.db_eq]

/-- What holds of the node and held of all others holds of all. -/
theorem Happens.forall_post (ha : s.Happens i op s₁) {r : LsDb × Wires} {p : ι → LsDb → Prop}
    (hi : p i r.1) (hrest : ∀ j, p j (s.db j)) (j : ι) : p j ((s₁.post wire i r).db j) := by
  by_cases hj : j = i
  · subst hj
    rw [post_self]
    exact hi
  · rw [ha.post_of_ne _ hj]
    exact hrest j

omit [DecidableEq ι] in
theorem Steady.node (h : Steady s₀ s) (i : ι) : SteadyAt s₀ i (s.db i) :=
  ⟨h.alike i, h.nearer i, h.ok i, h.alive i⟩

omit [DecidableEq ι] in
theorem Steady.of_nodes (hnode : ∀ i, SteadyAt s₀ i (s.db i))
    (hflight : ∀ env ∈ s.flight, ∀ lsa, env.message = .lsa lsa →
      lsa.IsEndpoint ∧ lsa.key.endpointId ≠ lsa.key.origin) : Steady s₀ s :=
  ⟨fun i => (hnode i).alike, fun i => (hnode i).nearer, fun i => (hnode i).ok,
    fun i => (hnode i).alive, hflight⟩

/-- What happens at a node takes up one version of an endpoint's LSA, or none, and moves nothing. -/
theorem Happens.takes (ha : s.Happens i op s₁) (net : Converged s₀.db fib wire) (h : Steady s₀ s)
    (hstep : (s.db i).step w now op = some (db', w')) :
    LsDb.Unmoved (s.db i) db' ∧ (s.db i).TakesEndpoint w now op db' := by
  have hkeyed := (h.alike i).keyed (net.routersKeyed i)
  cases ha with
  | @change _ e' hop hkeep =>
    refine ⟨LsDb.unmoved_of_change hop hstep, ?_⟩
    have hbody : ∀ l, (s.db i).lsaAt ⟨(s.db i).selfId, e'⟩ = some l → l.dead = false ∧ l.IsEndpoint :=
      fun l hl => ⟨h.alive i _ l hl, hkeyed.isEndpoint hkeep hl⟩
    rcases LsDb.announces_of_change (h.ok i) hop hbody hstep with hnone | ⟨v, inC, hnext, hup, -⟩
    · exact .inl hnone
    · obtain ⟨info, hb, -⟩ := hnext.realm
      refine .inr ⟨v, inC, hup, ⟨info, hb⟩, ?_, .inl ⟨e', hop, hnext.key⟩⟩
      rw [hnext.key]
      exact hkeep
  | @lsa c lsa hmem =>
    obtain ⟨hbody, hkey⟩ := h.flight _ hmem lsa rfl
    refine ⟨LsDb.unmoved_of_handleLsa hbody hstep, ?_⟩
    by_cases hown : lsa.key.origin = (s.db i).selfId
    · exact .inl (LsDb.takesNone_of_own hown hstep)
    · rcases LsDb.takesUp_of_handleLsa hown (fun l hl => hkeyed.isEndpoint hkey hl) hstep with
        ⟨-, hup⟩ | ⟨-, hnone⟩
      · exact .inr ⟨lsa, _, hup, hbody, hkey, .inr ⟨lsa, c, rfl, rfl⟩⟩
      · exact .inl hnone
  | @ack c key seq _ =>
    obtain ⟨rfl, -⟩ := Prod.mk.inj (Option.some.inj hstep)
    obtain ⟨p, hp⟩ := LsDb.handleAck_frame (s.db i) c key seq
    rw [hp]
    exact ⟨⟨rfl, rfl, rfl⟩, .inl (.of_db rfl rfl)⟩

omit [DecidableEq ι] in
/-- What is put on its way is the version that was taken up. -/
theorem sent_of_takes (hop : ∀ link, op ≠ .addPeer link) (hw : w.Drained)
    (hstep : (s.db i).step w now op = some (db', w'))
    (htakes : (s.db i).TakesEndpoint w now op db') {env : Envelope ι}
    (hmem : env ∈ Net.sent wire i db' w') {lsa : Lsa} (hm : env.message = .lsa lsa) :
    ∃ inC, (s.db i).TakesUp w now op db' lsa inC ∧ lsa.IsEndpoint ∧
      lsa.key.endpointId ≠ lsa.key.origin ∧ (s.db i).Concerns op lsa.key := by
  obtain ⟨c, link, -, hqueue, -⟩ := Net.mem_sent.mp hmem
  rw [hm] at hqueue
  rcases htakes with hnone | ⟨v, inC, hup, hbody, hkey⟩
  · exact absurd hqueue (hnone.not_mem_queue hop hw hstep)
  · obtain rfl := hup.eq_of_mem_queue hop hbody hw hstep hqueue
    exact ⟨inC, hup, hbody, hkey⟩

/-- What does not concern a key changes nothing there, and sends nothing of it. -/
theorem Happens.apart (ha : s.Happens i op s₁) (net : Converged s₀.db fib wire) (h : Steady s₀ s)
    (hw : w.Drained) (hstep : (s.db i).step w now op = some (db', w')) {k : LsaKey}
    (hk : ¬ (s.db i).Concerns op k) :
    (∀ j, ((s₁.post wire i (db', w')).db j).lsaAt k = (s.db j).lsaAt k) ∧
      ∀ env ∈ Net.sent wire i db' w', ∀ lsa, env.message = .lsa lsa → lsa.key ≠ k := by
  obtain ⟨-, htakes⟩ := ha.takes net h hstep
  have hsame : db'.lsaAt k = (s.db i).lsaAt k := by
    rcases htakes with hnone | ⟨v, inC, hup, -, -, hconcerns⟩
    · exact hnone.same k
    · refine hup.others k ?_
      rintro rfl
      exact hk hconcerns
  refine ⟨ha.forall_post (p := fun j d => d.lsaAt k = (s.db j).lsaAt k) hsame fun _ => rfl,
    fun env hmem lsa hm heq => ?_⟩
  · obtain ⟨_, -, -, -, hconcerns⟩ := sent_of_takes ha.ne_addPeer hw hstep htakes hmem hm
    exact hk (heq ▸ hconcerns)

/-- Links stay. -/
theorem Happens.post_links (ha : s.Happens i op s₁) (hunmoved : LsDb.Unmoved (s.db i) db') (j : ι)
    (c : ConnectionId) :
    ((s₁.post wire i (db', w')).db j).links.get c = (s.db j).links.get c := by
  refine ha.forall_post (p := fun j d => d.links.get c = (s.db j).links.get c) ?_ (fun _ => rfl) j
  rw [hunmoved.links]

/-- Everything that happens at a node keeps what is to stay. -/
theorem Steady.act (h : Steady s₀ s) (net : Converged s₀.db fib wire) (ha : s.Happens i op s₁)
    (hw : w.Drained) (hstep : (s.db i).step w now op = some (db', w')) :
    Steady s₀ (s₁.post wire i (db', w')) := by
  obtain ⟨hunmoved, htakes⟩ := ha.takes net h hstep
  have halike : LsDb.Alike (s.db i) db' := by
    refine ⟨hunmoved.self, fun c => by rw [hunmoved.links], fun k => ?_⟩
    rcases htakes with hnone | ⟨v, inC, hup, hbody, hkey⟩
    · exact LsDb.routerLsa_congr (hnone.same k)
    · exact hup.routers ((h.alike i).keyed (net.routersKeyed i)) hkey.1 hbody k
  have hnode : SteadyAt s₀ i db' := by
    refine ⟨(h.alike i).trans halike, fun n link hhop => ?_, (LsDb.step_advances (h.ok i) hstep).ok,
      fun k l hl => ?_⟩
    · rw [hunmoved.hops] at hhop
      exact h.nearer i n link hhop
    · rcases htakes with hnone | ⟨v, inC, hup, -, -⟩
      · exact h.alive i k l (hnone.same k ▸ hl)
      · by_cases hk : k = v.key
        · subst hk
          rw [hup.stored, Lsa.left] at hl
          split at hl
          · cases hl
          · next hd => exact Option.some.inj hl ▸ Bool.eq_false_iff.mpr hd
        · exact h.alive i k l (hup.others k hk ▸ hl)
  refine .of_nodes (ha.forall_post hnode h.node) fun env hmem lsa hm => ?_
  rcases mem_post.mp hmem with hmem | hmem
  · exact h.flight env (ha.mem_flight hmem) lsa hm
  · obtain ⟨_, -, hbody, hkey, -⟩ := sent_of_takes ha.ne_addPeer hw hstep htakes hmem hm
    exact ⟨hbody, hkey⟩

/-- So does everything a node does of its own. -/
theorem Steady.settle (h : Steady s₀ s) (net : Converged s₀.db fib wire) {s' : Net ι}
    (hs : SettlesAt i s s') :
    Steady s₀ s' ∧ s'.flight = s.flight ∧ ∀ j k, (s'.db j).lsaAt k = (s.db j).lsaAt k := by
  obtain ⟨d, hsettles, rfl⟩ := hs
  obtain ⟨halike, hnear⟩ := net.nearer_of_settles hsettles (h.alike i) (h.nearer i)
  have hat : ∀ k, d.lsaAt k = (s.db i).lsaAt k := by
    intro k
    rw [LsDb.lsaAt, hsettles.frame.2.1 k, LsDb.lsaAt]
  have hnode : SteadyAt s₀ i d := by
    refine ⟨(h.alike i).trans halike, hnear, ⟨fun k r hr => (h.ok i).record_key k r ?_,
      fun c link hl => (h.ok i).link_id c link ?_⟩, fun k l hl => h.alive i k l (hat k ▸ hl)⟩
    · rw [← hsettles.frame.2.1 k, hr]
    · rw [← hsettles.frame.2.2 c, hl]
  refine ⟨.of_nodes ?_ h.flight, rfl, ?_⟩
  · exact (Function.forall_update_iff s.db (SteadyAt s₀)).mpr ⟨hnode, fun j _ => h.node j⟩
  · exact (Function.forall_update_iff s.db fun j d => ∀ k, d.lsaAt k = (s.db j).lsaAt k).mpr
      ⟨hat, fun _ _ _ => rfl⟩

end Steady

section Spread

variable {wire : Wiring ι} {o : ι} {e : EndpointId} {fib : ι → ForwardingTable} {s₀ s s₁ s' : Net ι}
  {i : ι} {op : Op} {db' : LsDb} {w w' : Wires} {now : Instant} {v : Lsa} {old : Option Lsa}
  {inC : Option ConnectionId}

omit [DecidableEq ι] in
/-- When nothing of a version is on its way any more, all nodes have it: a node has a neighbour
that is nearer to the origin, which has left out only those that are nearer still. -/
theorem Spreading.everywhere (h : Spreading wire s₀ o v old s) (start : AllKnow wire o e fib s₀)
    (hsteady : Steady s₀ s) (hq : s.Quiet v.key) (i : ι) : (s.db i).lsaAt v.key = v.left := by
  induction hd : (s₀.db o).spfGraph.dist (s₀.db i).selfId (s₀.db o).selfId using
    WellFoundedLT.induction generalizing i with
  | ind d ih =>
    by_cases hi : i = o
    · rw [hi]
      exact h.origin
    · obtain ⟨hop, hhop⟩ := start.reached i hi
      obtain ⟨_, hb⟩ := start.net.built i
      obtain ⟨-, ⟨c, hc⟩, -⟩ := LsDb.nextHop_spec hb (start.net.linksMatch i) hhop
      have hlt := start.net.nearer (o := o) hhop
      obtain ⟨hpeer, back, hback, hself, hwire⟩ := start.net.wired i c hop hc
      have hhas := ih _ (hd ▸ hlt) (wire i hop.tx).1 (by rw [hpeer])
      rw [← (hsteady.alike _).links] at hback
      rcases h.told _ hhas _ back hback with hleft | hflight | hfar
      · rw [hwire] at hleft
        exact hleft
      · exact absurd rfl (hq _ hflight v rfl)
      · rw [hself, hpeer] at hfar
        exact absurd hfar (not_lt.mpr hlt.le)

omit [DecidableEq ι] in
/-- A version goes on spreading while nodes that have it take copies of it, and while other
things happen. -/
theorem Spreading.keep (h : Spreading wire s₀ o v old s)
    (hsame : ∀ j, (s'.db j).lsaAt v.key = (s.db j).lsaAt v.key)
    (hlinks : ∀ j c, (s'.db j).links.get c = (s.db j).links.get c)
    (hnew : ∀ env ∈ s'.flight, ∀ lsa, env.message = .lsa lsa → lsa.key = v.key → env ∈ s.flight)
    (hkept : ∀ env ∈ s.flight, env.message = .lsa v →
      env ∈ s'.flight ∨ (s.db env.dest).lsaAt v.key = v.left) : Spreading wire s₀ o v old s' := by
  refine ⟨h.news, fun j => ?_, ?_, fun env hmem lsa hm hk => ?_, fun j hj c link hc => ?_⟩
  · rw [hsame]
    exact h.held j
  · rw [hsame]
    exact h.origin
  · obtain ⟨heq, hsender⟩ := h.onWay env (hnew env hmem lsa hm hk) lsa hm hk
    refine ⟨heq, fun back hback => ?_⟩
    rw [hsame]
    exact hsender back (hlinks _ _ ▸ hback)
  · rw [hsame] at hj
    rw [hlinks] at hc
    rcases h.told j hj c link hc with hleft | hflight | hfar
    · exact .inl ((hsame _).trans hleft)
    · rcases hkept _ hflight rfl with hmem | hleft
      · exact .inr (.inl hmem)
      · exact .inl ((hsame _).trans hleft)
    · exact .inr (.inr hfar)

omit [DecidableEq ι] in
/-- A node that takes up a version tells each of its neighbours, but for the one on the link the
version passes by, the origin, and those that are nearer to it. -/
theorem told_of_takesUp (start : AllKnow wire o e fib s₀) (hsteady : Steady s₀ s)
    (hup : (s.db i).TakesUp w now op db' v inC) (hunmoved : LsDb.Unmoved (s.db i) db')
    (horigin : v.key.origin = (s₀.db o).selfId)
    (hcarried : ∀ i c link, (s₀.db i).links.get c = some link → link.permits v = some v)
    (hstep : (s.db i).step w now op = some (db', w')) (hroom : (s.db i).NeverFull db' w w')
    {c : ConnectionId} {link : Link} (hc : (s.db i).links.get c = some link) :
    inC = some c ∨ (wire i link.tx).1 = o ∨
      ⟨(wire i link.tx).1, (wire i link.tx).2, .lsa v⟩ ∈ Net.sent wire i db' w' ∨
        (s₀.db o).spfGraph.dist link.peerId (s₀.db o).selfId <
          (s₀.db o).spfGraph.dist (s₀.db i).selfId (s₀.db o).selfId := by
  have hc₀ : (s₀.db i).links.get c = some link := (hsteady.alike i).links c ▸ hc
  by_cases hin : inC = some c
  · exact .inl hin
  by_cases hpeer : v.key.origin = link.peerId
  · have hid : (s₀.db (wire i link.tx).1).selfId = (s₀.db o).selfId := by
      rw [(start.net.wired i c link hc₀).1, ← hpeer, horigin]
    exact .inr (.inl (start.ids hid))
  cases hback : (s.db i).isBackPath v.key.origin link with
  | true =>
    unfold LsDb.isBackPath at hback
    split at hback
    · next hop hhop =>
      have hlt := hsteady.nearer i _ hop hhop
      rw [of_decide_eq_true hback, horigin, start.net.spfGraph_eq i o] at hlt
      exact .inr (.inr (.inr hlt))
    · cases hback
  | false =>
    have hqueue := hup.mem_queue (hsteady.ok i) hstep hroom hunmoved.links hc (hcarried i c link hc₀) hin
      hpeer hback
    exact .inr (.inr (.inl (Net.mem_sent.mpr ⟨c, link, by rw [hunmoved.links, hc], hqueue, rfl⟩)))

omit [DecidableEq ι] in
/-- What a node sends comes from that node. -/
theorem sender_of_sent (net : Converged s₀.db fib wire) (hsteady : Steady s₀ s)
    (hunmoved : LsDb.Unmoved (s.db i) db') {env : Envelope ι} (hmem : env ∈ Net.sent wire i db' w')
    {back : Link} (hback : (s.db env.dest).links.get env.connectionId = some back) :
    (wire env.dest back.tx).1 = i := by
  obtain ⟨c, link, hc, -, hwire⟩ := Net.mem_sent.mp hmem
  rw [hunmoved.links, (hsteady.alike i).links] at hc
  obtain ⟨-, back', hback', -, hto⟩ := net.wired i c link hc
  rw [hwire] at hback' hto
  rw [(hsteady.alike _).links, hback', Option.some.injEq] at hback
  rw [← hback, hto]

/-- A change of an endpoint that all nodes agree on begins to spread. -/
theorem Agreed.begin (h : Agreed v.key old s) (start : AllKnow wire o e fib s₀) (hsteady : Steady s₀ s)
    (ha : s.Happens o op s₁) (hflight : s₁.flight = s.flight) (hup : (s.db o).TakesUp w now op db' v inC)
    (hbody : v.IsEndpoint) (hnews : v.IsNews old) (horigin : v.key.origin = (s₀.db o).selfId)
    (hcarried : ∀ i c link, (s₀.db i).links.get c = some link → link.permits v = some v)
    (hin : ∀ c, inC = some c → (s.db o).links.get c = none) (hw : w.Drained)
    (hstep : (s.db o).step w now op = some (db', w')) (hroom : (s.db o).NeverFull db' w w') :
    Spreading wire s₀ o v old (s₁.post wire o (db', w')) := by
  obtain ⟨hunmoved, -⟩ := ha.takes start.net hsteady hstep
  have horig : ((s₁.post wire o (db', w')).db o).lsaAt v.key = v.left := by
    rw [post_self]
    exact hup.stored
  have hrest : ∀ j, j ≠ o → ((s₁.post wire o (db', w')).db j).lsaAt v.key = old := by
    intro j hj
    rw [ha.post_of_ne _ hj]
    exact h.same j
  refine ⟨hnews, fun j => ?_, horig, fun env hmem lsa hm hk => ?_, fun j hj c link hc => ?_⟩
  · by_cases hj : j = o
    · rw [hj]
      exact .inr horig
    · exact .inl (hrest j hj)
  · rcases mem_post.mp hmem with hmem | hmem
    · rw [hflight] at hmem
      exact absurd hk (h.quiet env hmem lsa hm)
    · refine ⟨?_, fun back hback => ?_⟩
      · obtain ⟨_, _, -, hqueue, -⟩ := Net.mem_sent.mp hmem
        rw [hm] at hqueue
        exact hup.eq_of_mem_queue ha.ne_addPeer hbody hw hstep hqueue
      · rw [ha.post_links hunmoved] at hback
        rw [sender_of_sent start.net hsteady hunmoved hmem hback]
        exact horig
  · by_cases hjo : j = o
    · subst hjo
      rw [ha.post_links hunmoved] at hc
      rcases told_of_takesUp start hsteady hup hunmoved horigin hcarried hstep hroom hc with
        hpassed | heq | hsent | hfar
      · rw [hin c hpassed] at hc
        cases hc
      · left
        rw [heq]
        exact horig
      · exact .inr (.inl (mem_post.mpr (.inr hsent)))
      · exact .inr (.inr hfar)
    · rw [hrest j hjo] at hj
      exact absurd hj.symm hnews.left_ne

/-- A copy that is news to a node makes it one that has the version. -/
theorem Spreading.arrive (h : Spreading wire s₀ o v old s) (start : AllKnow wire o e fib s₀)
    (hsteady : Steady s₀ s) {c : ConnectionId} (hmem : ⟨i, c, .lsa v⟩ ∈ s.flight)
    (hnews : v.IsNews ((s.db i).lsaAt v.key))
    (hup : (s.db i).TakesUp w now (.handleLsa v c) db' v (if v.dead then none else some c))
    (horigin : v.key.origin = (s₀.db o).selfId)
    (hcarried : ∀ i c link, (s₀.db i).links.get c = some link → link.permits v = some v)
    (hw : w.Drained) (hstep : (s.db i).step w now (.handleLsa v c) = some (db', w'))
    (hroom : (s.db i).NeverFull db' w w') :
    Spreading wire s₀ o v old ((s.without ⟨i, c, .lsa v⟩).post wire i (db', w')) := by
  have ha : s.Happens i (.handleLsa v c) (s.without ⟨i, c, .lsa v⟩) := .lsa hmem
  obtain ⟨hunmoved, htakes⟩ := ha.takes start.net hsteady hstep
  have hbody := (hsteady.flight _ hmem v rfl).1
  have hhere : (((s.without ⟨i, c, .lsa v⟩).post wire i (db', w')).db i).lsaAt v.key = v.left := by
    rw [post_self]
    exact hup.stored
  -- Who had the version still has it.
  have hkeeps : ∀ j, (s.db j).lsaAt v.key = v.left →
      (((s.without ⟨i, c, .lsa v⟩).post wire i (db', w')).db j).lsaAt v.key = v.left :=
    ha.forall_post (p := fun j d => (s.db j).lsaAt v.key = v.left → d.lsaAt v.key = v.left)
      (fun _ => hup.stored) fun _ => id
  have hheld : ∀ j, ((((s.without ⟨i, c, .lsa v⟩).post wire i (db', w')).db j).lsaAt v.key = old ∨
      (((s.without ⟨i, c, .lsa v⟩).post wire i (db', w')).db j).lsaAt v.key = v.left) :=
    ha.forall_post (p := fun _ d => d.lsaAt v.key = old ∨ d.lsaAt v.key = v.left)
      (.inr hup.stored) h.held
  refine ⟨h.news, hheld, hkeeps o h.origin, fun env henv lsa hm hk => ?_, fun j hj c' link hc => ?_⟩
  · rcases mem_post.mp henv with henv | henv
    · obtain ⟨heq, hsender⟩ := h.onWay env (ha.mem_flight henv) lsa hm hk
      refine ⟨heq, fun back hback => hkeeps _ (hsender back ?_)⟩
      rw [ha.post_links hunmoved] at hback
      exact hback
    · refine ⟨?_, fun back hback => ?_⟩
      · obtain ⟨_, _, -, hqueue, -⟩ := Net.mem_sent.mp henv
        rw [hm] at hqueue
        exact hup.eq_of_mem_queue ha.ne_addPeer hbody hw hstep hqueue
      · rw [ha.post_links hunmoved] at hback
        rw [sender_of_sent start.net hsteady hunmoved henv hback]
        exact hhere
  · rw [ha.post_links hunmoved] at hc
    by_cases hji : j = i
    · subst hji
      rcases told_of_takesUp start hsteady hup hunmoved horigin hcarried hstep hroom hc with
        hpassed | heq | hsent | hfar
      · -- The other end of the link it came over has sent it.
        have hcc : c = c' := by
          split at hpassed
          · cases hpassed
          · exact Option.some.inj hpassed
        subst hcc
        exact .inl (hkeeps _ ((h.onWay _ hmem v rfl rfl).2 link hc))
      · left
        rw [heq]
        exact hkeeps o h.origin
      · exact .inr (.inl (mem_post.mpr (.inr hsent)))
      · exact .inr (.inr hfar)
    · rw [ha.post_of_ne _ hji] at hj
      rcases h.told j hj c' link hc with hleft | hflight | hfar
      · exact .inl (hkeeps _ hleft)
      · by_cases heq : (⟨(wire j link.tx).1, (wire j link.tx).2, .lsa v⟩ : Envelope ι) = ⟨i, c, .lsa v⟩
        · left
          rw [(Envelope.mk.inj heq).1]
          exact hhere
        · exact .inr (.inl (mem_post.mpr (.inl ((List.mem_erase_of_ne heq).mpr hflight))))
      · exact .inr (.inr hfar)

end Spread

/-- All links of a network carry the LSA of an endpoint. -/
def LinksCarry (s₀ : Net ι) (v : Lsa) : Prop :=
  ∃ info, v.body = .endpoint info ∧
    ∀ i c link, (s₀.db i).links.get c = some link → info.realm ∈ link.realms

/-- All nodes agree on a key, or one version of it spreads. -/
inductive Phase (wire : Wiring ι) (s₀ : Net ι) (o : ι) (k : LsaKey) (s : Net ι) : Prop where
  | rest {l : Option Lsa} (h : Agreed k l s) (hl : ∀ v, l = some v → s₀.LinksCarry v)
  | spreads {v : Lsa} {old : Option Lsa} (hk : v.key = k) (hv : s₀.LinksCarry v)
      (h : Spreading wire s₀ o v old s)

section Phase

variable {wire : Wiring ι} {o : ι} {e : EndpointId} {fib : ι → ForwardingTable} {s₀ s s₁ s' : Net ι}
  {i : ι} {op : Op} {db' : LsDb} {w w' : Wires} {now : Instant} {v : Lsa} {k : LsaKey}

omit [DecidableEq ι] in
theorem LinksCarry.permits (h : s₀.LinksCarry v) {c : ConnectionId} {link : Link}
    (hc : (s₀.db i).links.get c = some link) : link.permits v = some v := by
  obtain ⟨info, hb, hrealm⟩ := h
  simp only [Link.permits, hb, if_pos (hrealm i c link hc)]

omit [DecidableEq ι] in
/-- When nothing of the key is on its way, all nodes agree on it. -/
theorem Phase.settled (h : Phase wire s₀ o k s) (start : AllKnow wire o e fib s₀)
    (hsteady : Steady s₀ s) (hq : s.Quiet k) :
    ∃ l, Agreed k l s ∧ ∀ v, l = some v → s₀.LinksCarry v := by
  cases h with
  | rest h hl => exact ⟨_, h, hl⟩
  | @spreads v old hk hv h =>
    subst hk
    refine ⟨v.left, ⟨hq, h.everywhere start hsteady hq⟩, fun v' hv' => ?_⟩
    unfold Lsa.left at hv'
    split at hv'
    · cases hv'
    · rwa [← Option.some.inj hv']

omit [DecidableEq ι] in
/-- What neither stores nor sends anything of the key keeps the phase, if each version it takes
off its way is at a node that has it. -/
theorem Phase.keep (h : Phase wire s₀ o k s) (hsame : ∀ j, (s'.db j).lsaAt k = (s.db j).lsaAt k)
    (hlinks : ∀ j c, (s'.db j).links.get c = (s.db j).links.get c)
    (hnew : ∀ env ∈ s'.flight, ∀ lsa, env.message = .lsa lsa → lsa.key = k → env ∈ s.flight)
    (hkept : ∀ env ∈ s.flight, ∀ lsa, env.message = .lsa lsa → lsa.key = k →
      env ∈ s'.flight ∨ (s.db env.dest).lsaAt k = lsa.left) : Phase wire s₀ o k s' := by
  cases h with
  | rest h hl =>
    refine .rest ⟨fun env hmem lsa hm hk => ?_, fun j => ?_⟩ hl
    · exact h.quiet env (hnew env hmem lsa hm hk) lsa hm hk
    · rw [hsame]
      exact h.same j
  | spreads hk hv h =>
    subst hk
    exact .spreads rfl hv (h.keep hsame hlinks hnew fun env hmem hm => hkept env hmem _ hm rfl)

/-- What happens and takes up nothing of the key keeps the phase. -/
theorem Phase.stay (h : Phase wire s₀ o k s) (net : Converged s₀.db fib wire) (hsteady : Steady s₀ s)
    (ha : s.Happens i op s₁) (hstep : (s.db i).step w now op = some (db', w'))
    (hsame : ∀ j, ((s₁.post wire i (db', w')).db j).lsaAt k = (s.db j).lsaAt k)
    (hsent : ∀ env ∈ Net.sent wire i db' w', ∀ lsa, env.message = .lsa lsa → lsa.key ≠ k)
    (hkept : ∀ env ∈ s.flight, ∀ lsa, env.message = .lsa lsa → lsa.key = k →
      env ∈ s₁.flight ∨ (s.db env.dest).lsaAt k = lsa.left) :
    Phase wire s₀ o k (s₁.post wire i (db', w')) := by
  refine h.keep hsame (ha.post_links (ha.takes net hsteady hstep).1) (fun env hmem lsa hm hk => ?_)
    fun env hmem lsa hm hk => ?_
  · rcases mem_post.mp hmem with hmem | hmem
    · exact ha.mem_flight hmem
    · exact absurd hk (hsent env hmem lsa hm)
  · rcases hkept env hmem lsa hm hk with hmem | hleft
    · exact .inl (mem_post.mpr (.inl hmem))
    · exact .inr hleft

/-- So does what takes up nothing at all. -/
theorem Phase.of_takesNone (h : Phase wire s₀ o k s) (net : Converged s₀.db fib wire)
    (hsteady : Steady s₀ s) (ha : s.Happens i op s₁) (hw : w.Drained)
    (hstep : (s.db i).step w now op = some (db', w')) (hnone : (s.db i).TakesNone w now op db')
    (hkept : ∀ env ∈ s.flight, ∀ lsa, env.message = .lsa lsa → lsa.key = k →
      env ∈ s₁.flight ∨ (s.db env.dest).lsaAt k = lsa.left) :
    Phase wire s₀ o k (s₁.post wire i (db', w')) := by
  refine h.stay net hsteady ha hstep ?_ (fun env hmem lsa hm => ?_) hkept
  · exact ha.forall_post (p := fun j d => d.lsaAt k = (s.db j).lsaAt k) (hnone.same k) fun _ => rfl
  · obtain ⟨_, _, -, hqueue, -⟩ := Net.mem_sent.mp hmem
    rw [hm] at hqueue
    exact absurd hqueue (hnone.not_mem_queue ha.ne_addPeer hw hstep)

/-- What does not concern a key takes nothing of it off its way. -/
theorem Happens.kept (ha : s.Happens i op s₁) (hk : ¬ (s.db i).Concerns op k) {env : Envelope ι}
    (hmem : env ∈ s.flight) {lsa : Lsa} (hm : env.message = .lsa lsa) (hkey : lsa.key = k) :
    env ∈ s₁.flight := by
  cases ha with
  | change => exact hmem
  | @lsa c lsa' _ =>
    refine (List.mem_erase_of_ne ?_).mpr hmem
    rintro rfl
    obtain rfl := NodeMessage.lsa.inj hm
    exact hk (.inr ⟨lsa', c, rfl, hkey.symm⟩)
  | ack =>
    refine (List.mem_erase_of_ne ?_).mpr hmem
    rintro rfl
    cases hm

/-- A change of the endpoint, in turn, begins to spread. -/
theorem Phase.change (h : Phase wire s₀ o ⟨(s₀.db o).selfId, e⟩ s) (start : AllKnow wire o e fib s₀)
    (hsteady : Steady s₀ s) (hop : op.endpoint = some e) (hturn : s.InTurn o e op) (hw : w.Drained)
    (hstep : (s.db o).step w now op = some (db', w')) (hroom : (s.db o).NeverFull db' w w') :
    Phase wire s₀ o ⟨(s₀.db o).selfId, e⟩ (s.post wire o (db', w')) := by
  have hself : (s.db o).selfId = (s₀.db o).selfId := (hsteady.alike o).self
  have ha : s.Happens o op s := .change hop (hself ▸ start.other)
  obtain ⟨l, hagreed, hcarries⟩ := h.settled start hsteady (hself ▸ hturn.quiet)
  have hat : (s.db o).lsaAt ⟨(s.db o).selfId, e⟩ = l := by
    rw [hself]
    exact hagreed.same o
  have hbody : ∀ l', (s.db o).lsaAt ⟨(s.db o).selfId, e⟩ = some l' → l'.dead = false ∧ l'.IsEndpoint := by
    intro l' hl'
    obtain ⟨info, hb, -⟩ := hcarries l' (hat.symm.trans hl')
    exact ⟨hsteady.alive o _ l' hl', info, hb⟩
  rcases LsDb.announces_of_change (hsteady.ok o) hop hbody hstep with hnone | ⟨v, inC, hnext, hup, hpass⟩
  · exact h.of_takesNone start.net hsteady ha hw hstep hnone fun env hmem _ _ _ => .inl hmem
  · have hkey : v.key = ⟨(s₀.db o).selfId, e⟩ := hself ▸ hnext.key
    obtain ⟨info, hb, hrealm⟩ := hnext.realm
    have hv : s₀.LinksCarry v := by
      refine ⟨info, hb, fun i c link hc => ?_⟩
      rcases hrealm with ⟨request, hreq, rfl⟩ | ⟨l', info', hl', hb', heq⟩
      · refine (hturn.carried request hreq).2 i c link ?_
        rw [(hsteady.alike i).links]
        exact hc
      · obtain ⟨info'', hb'', hall⟩ := hcarries l' (hat.symm.trans hl')
        obtain rfl := LsaBody.endpoint.inj (hb'.symm.trans hb'')
        rw [heq]
        exact hall i c link hc
    have hpassed : ∀ c, inC = some c → (s.db o).links.get c = none := by
      intro c hc
      obtain ⟨rfl, -, request, hreq⟩ := hpass c hc
      exact (hturn.carried request hreq).1
    have hnews : v.IsNews l := hat ▸ hnext.news hturn.first
    refine .spreads hkey hv ((hkey ▸ hagreed : Agreed v.key l s).begin start hsteady ha rfl hup
      ⟨info, hb⟩ hnews ?_ (fun i c link hc => hv.permits hc) hpassed hw hstep hroom)
    rw [hkey]

/-- A copy that arrives makes its node one that has the version, if it is not one already. -/
theorem Phase.deliver (h : Phase wire s₀ o k s) (start : AllKnow wire o e fib s₀)
    (hsteady : Steady s₀ s) (horigin : k.origin = (s₀.db o).selfId) {c : ConnectionId}
    (hmem : ⟨i, c, .lsa v⟩ ∈ s.flight) (hk : v.key = k) (hw : w.Drained)
    (hstep : (s.db i).step w now (.handleLsa v c) = some (db', w'))
    (hroom : (s.db i).NeverFull db' w w') :
    Phase wire s₀ o k ((s.without ⟨i, c, .lsa v⟩).post wire i (db', w')) := by
  subst hk
  have ha : s.Happens i (.handleLsa v c) (s.without ⟨i, c, .lsa v⟩) := .lsa hmem
  have hphase := h
  cases h with
  | rest hagreed => exact absurd rfl (hagreed.quiet _ hmem v rfl)
  | @spreads v' old hk hv hspread =>
    obtain ⟨rfl, -⟩ := hspread.onWay _ hmem v rfl hk.symm
    -- A node that is not changed has the version already.
    have hidle : (s.db i).TakesNone w now (.handleLsa v c) db' → (s.db i).lsaAt v.key = v.left →
        Phase wire s₀ o v.key ((s.without ⟨i, c, .lsa v⟩).post wire i (db', w')) := by
      intro hnone hleft
      refine hphase.of_takesNone start.net hsteady ha hw hstep hnone fun env henv lsa hm hkey => ?_
      by_cases heq : env = ⟨i, c, .lsa v⟩
      · subst heq
        obtain rfl := NodeMessage.lsa.inj hm
        exact .inr hleft
      · exact .inl ((List.mem_erase_of_ne heq).mpr henv)
    have hself : (s.db i).selfId = (s₀.db i).selfId := (hsteady.alike i).self
    by_cases hown : v.key.origin = (s.db i).selfId
    · have hi : i = o := start.ids ((hself.symm.trans hown.symm).trans horigin)
      refine hidle (LsDb.takesNone_of_own hown hstep) ?_
      rw [hi]
      exact hspread.origin
    · obtain ⟨-, hkey⟩ := hsteady.flight _ hmem v rfl
      have hkeyed := (hsteady.alike i).keyed (start.net.routersKeyed i)
      rcases LsDb.takesUp_of_handleLsa hown (fun l hl => hkeyed.isEndpoint hkey hl) hstep with
        ⟨hnews, hup⟩ | ⟨hstale, hnone⟩
      · exact .spreads rfl hv (hspread.arrive start hsteady hmem hnews hup horigin
          (fun i c link hc => hv.permits hc) hw hstep hroom)
      · refine hidle hnone ((hspread.held i).resolve_left fun hold => ?_)
        exact hstale (hold ▸ hspread.news)

/-- Whatever happens at a node keeps all nodes agreed, or one version spreading. -/
theorem Phase.act (h : Phase wire s₀ o ⟨(s₀.db o).selfId, e⟩ s) (start : AllKnow wire o e fib s₀)
    (hsteady : Steady s₀ s) (ha : s.Happens i op s₁)
    (hturn : i = o → op.endpoint = some e → s.InTurn o e op) (hw : w.Drained)
    (hstep : (s.db i).step w now op = some (db', w')) (hroom : (s.db i).NeverFull db' w w') :
    Phase wire s₀ o ⟨(s₀.db o).selfId, e⟩ (s₁.post wire i (db', w')) := by
  by_cases hk : (s.db i).Concerns op ⟨(s₀.db o).selfId, e⟩
  · rcases hk with ⟨e', hop, hkey⟩ | ⟨v, c, rfl, hkey⟩
    · obtain ⟨horigin, rfl⟩ := LsaKey.mk.inj hkey
      have hi : i = o := start.ids ((horigin.trans (hsteady.alike i).self).symm)
      subst hi
      have hs₁ : s₁ = s := by
        cases ha with
        | change => rfl
        | lsa | ack => cases hop
      subst hs₁
      exact h.change start hsteady hop (hturn rfl hop) hw hstep hroom
    · cases ha with
      | change hop => cases hop
      | lsa hmem => exact h.deliver start hsteady rfl hmem hkey.symm hw hstep hroom
  · obtain ⟨hsame, hsent⟩ := ha.apart start.net hsteady hw hstep hk
    exact h.stay start.net hsteady ha hstep hsame hsent
      fun env hmem lsa hm hkey => .inl (ha.kept hk hmem hm hkey)

/-- In every run the network stays at rest, and each change of the endpoint spreads. -/
theorem Changes.phase (h : Changes wire o e s₀ s) (start : AllKnow wire o e fib s₀) :
    Steady s₀ s ∧ Phase wire s₀ o ⟨(s₀.db o).selfId, e⟩ s := by
  induction h with
  | start =>
    refine ⟨⟨fun i => .refl _, fun i n link hn => ?_, start.ok, start.alive, start.flight⟩,
      .rest ⟨start.quiet, start.same⟩ fun v hv => ?_⟩
    · exact start.net.nearer (start.paths i n link hn)
    · obtain ⟨info, hb⟩ := (start.net.routersKeyed o).isEndpoint start.other hv
      exact ⟨info, hb, start.carried v info hv hb⟩
  | act now i op _ ha hturn hw hstep hroom ih =>
    obtain ⟨hsteady, hphase⟩ := ih
    exact ⟨hsteady.act start.net ha hw hstep, hphase.act start hsteady ha hturn hw hstep hroom⟩
  | settle i _ hs ih =>
    obtain ⟨hsteady, hphase⟩ := ih
    obtain ⟨hsteady', hflight, hsame⟩ := hsteady.settle start.net hs
    refine ⟨hsteady', hphase.keep (fun j => hsame j _) (fun j c => ?_) ?_ ?_⟩
    · rw [(hsteady'.alike j).links, (hsteady.alike j).links]
    · intro env hmem _ _ _
      rwa [← hflight]
    · intro env hmem _ _ _
      left
      rwa [hflight]

/-- Whenever nothing of an endpoint is on its way any more, every node holds the LSA of it that
its own node holds, or none if that has withdrawn it. -/
theorem changes_reach_all (start : AllKnow wire o e fib s₀) (h : Changes wire o e s₀ s)
    (hq : s.Quiet ⟨(s.db o).selfId, e⟩) (i : ι) :
    (s.db i).lsaAt ⟨(s.db o).selfId, e⟩ = (s.db o).lsaAt ⟨(s.db o).selfId, e⟩ := by
  obtain ⟨hsteady, hphase⟩ := h.phase start
  rw [(hsteady.alike o).self] at hq ⊢
  obtain ⟨l, hagreed, -⟩ := hphase.settled start hsteady hq
  rw [hagreed.same i, hagreed.same o]

end Phase

/-- What an operation makes of its node, if it does not panic. -/
def carriedOut (s : Net ι) (w : Wires) (i : ι) (op : Op) : LsDb × Wires :=
  ((s.db i).step w 0 op).getD (s.db i, w)

/-- An operation does not panic, and its links have room. -/
def HasRoom (s : Net ι) (w : Wires) (i : ι) (op : Op) : Prop :=
  ((s.db i).step w 0 op).isSome = true ∧
    ∀ e ∈ (s.db i).links.entries ++ (s.carriedOut w i op).1.links.entries,
      (w.node e.2.tx).closed = false ∧ ((s.carriedOut w i op).2.node e.2.tx).queue.length <
        ((s.carriedOut w i op).2.node e.2.tx).capacity

instance (s : Net ι) (w : Wires) (i : ι) (op : Op) : Decidable (s.HasRoom w i op) :=
  inferInstanceAs (Decidable (_ ∧ _))

omit [DecidableEq ι] in
theorem HasRoom.step {s : Net ι} {w : Wires} {i : ι} {op : Op} (h : s.HasRoom w i op) :
    ∃ db' w', s.carriedOut w i op = (db', w') ∧ (s.db i).step w 0 op = some (db', w') ∧
      (s.db i).NeverFull db' w w' := by
  obtain ⟨hsome, hlinks⟩ := h
  obtain ⟨⟨db', w'⟩, hstep⟩ := Option.isSome_iff_exists.mp hsome
  have hout : s.carriedOut w i op = (db', w') := by rw [carriedOut, hstep, Option.getD_some]
  rw [hout] at hlinks
  exact ⟨db', w', hout, hstep, LsDb.neverFull_of_links hlinks⟩

theorem Changes.carryOut {wire : Wiring ι} {o i : ι} {e : EndpointId} {s₀ s s₁ : Net ι} {op : Op}
    {w : Wires} (h : Changes wire o e s₀ s) (ha : s.Happens i op s₁)
    (hturn : i = o → op.endpoint = some e → s.InTurn o e op) (hw : w.Drained)
    (hroom : s.HasRoom w i op) :
    Changes wire o e s₀ (s₁.post wire i (s.carriedOut w i op)) := by
  obtain ⟨db', w', hout, hstep, hfree⟩ := hroom.step
  rw [hout]
  exact .act 0 i op h ha hturn hw hstep hfree

end Net

/-- The square at rest. -/
def squareNet : Net (Fin 4) := ⟨squareDb, []⟩

/-- The channel of the listener at node 4 is closed. -/
def squareWires : Wires :=
  ⟨fun _ => .channel 32, fun _ => { Chan.channel 32 with closed := true }, []⟩

/-- The withdrawal of the endpoint. -/
def squareWithdrawal : Lsa := ⟨⟨4, 9⟩, 2, true, .endpoint ⟨.unicast, .global, 0⟩⟩

/-- A copy of the withdrawal arrives. -/
def squareDeliver (s : Net (Fin 4)) (i : Fin 4) (c : ConnectionId) : Net (Fin 4) :=
  (s.without ⟨i, c, .lsa squareWithdrawal⟩).post squareWire i
    (s.carriedOut (.idle 32) i (.handleLsa squareWithdrawal c))

/-- The listener at node 4 is gone, and its node withdraws the endpoint. -/
def squareClosed : Net (Fin 4) :=
  squareNet.post squareWire 3 (squareNet.carriedOut squareWires 3 (.removeEndpoint 9))

/-- The withdrawal has gone around the square, both ways. -/
def squareGone : Net (Fin 4) :=
  squareDeliver (squareDeliver (squareDeliver (squareDeliver (squareDeliver (squareDeliver
    squareClosed 1 1) 2 1) 0 0) 0 1) 1 0) 2 0

theorem squareNet_allKnow : Net.AllKnow squareWire 3 9 squareFib squareNet where
  net := square_converged
  ids := square_balanced.ids
  ok i := by
    have hkeys : ∀ e ∈ squareLsas.entries, e.2.lsa.key = e.1 := by decide +kernel
    refine ⟨fun k r hr => hkeys ⟨k, r⟩ (HashMap.mem_entries_iff.mpr hr), fun c link hc => ?_⟩
    obtain ⟨a, -, rfl, rfl⟩ := mem_squareDb_links.mp hc
    rfl
  paths i n link h := by
    cases h
  reached i hi := square_balanced.exists_nextHop square_converged hi
  other := by decide
  alive i k l h := by
    obtain ⟨r, hr, rfl⟩ := LsDb.lsaAt_eq_some.mp h
    rcases mem_squareLsas hr with rfl | ⟨j, -, rfl⟩
    · rfl
    · rfl
  flight env h := by
    cases h
  quiet env h := by
    cases h
  same i := rfl
  carried l info hl hb i c link hc := by
    have hat : (squareDb 3).lsaAt ⟨4, 9⟩ = some squareEndpoint.lsa := by decide +kernel
    obtain rfl := Option.some.inj (hat.symm.trans hl)
    obtain rfl := LsaBody.endpoint.inj hb
    obtain ⟨a, -, -, rfl⟩ := mem_squareDb_links.mp hc
    exact Finset.mem_singleton_self _

/-- What holds when the withdrawal is made, and after each delivery, holds in the end. -/
theorem squareGone_induct {P : Net (Fin 4) → Prop} (hclosed : P squareClosed)
    (hdeliver : ∀ (s : Net (Fin 4)) (i : Fin 4) (c : ConnectionId), P s →
      ⟨i, c, .lsa squareWithdrawal⟩ ∈ s.flight → s.HasRoom (.idle 32) i (.handleLsa squareWithdrawal c) →
      P (squareDeliver s i c)) : P squareGone := by
  have h₁ := hdeliver _ 1 1 hclosed (by decide +kernel) (by decide +kernel)
  have h₂ := hdeliver _ 2 1 h₁ (by decide +kernel) (by decide +kernel)
  have h₃ := hdeliver _ 0 0 h₂ (by decide +kernel) (by decide +kernel)
  have h₄ := hdeliver _ 0 1 h₃ (by decide +kernel) (by decide +kernel)
  have h₅ := hdeliver _ 1 0 h₄ (by decide +kernel) (by decide +kernel)
  exact hdeliver _ 2 0 h₅ (by decide +kernel) (by decide +kernel)

/-- The withdrawal comes in turn. -/
theorem squareNet_inTurn : squareNet.InTurn 3 9 (.removeEndpoint 9) := by
  refine ⟨squareNet_allKnow.quiet, fun request hop => ?_, fun request hop => ?_⟩
  · cases hop
  · cases hop

theorem squareGone_changes : Net.Changes squareWire 3 9 squareNet squareGone := by
  refine squareGone_induct ?_ fun s i c h hmem hroom => ?_
  · exact Net.Changes.start.carryOut (.change rfl (by decide)) (fun _ _ => squareNet_inTurn)
      (fun _ => rfl) (by decide +kernel)
  · exact h.carryOut (.lsa hmem) (fun _ hop => by cases hop) (Wires.drained_idle 32) hroom

theorem squareGone_quiet : squareGone.Quiet ⟨(squareGone.db 3).selfId, 9⟩ := by
  have hacks : ∀ env ∈ squareGone.flight, env.message = .lsaAck ⟨4, 9⟩ 2 := by decide +kernel
  intro env hmem lsa hm
  rw [hacks env hmem] at hm
  cases hm

/-- No corner holds the endpoint any more. -/
theorem square_forgets : (squareNet.db 0).lsaAt ⟨4, 9⟩ ≠ none ∧
    (squareGone.db 3).lsaAt ⟨(squareGone.db 3).selfId, 9⟩ = none ∧
    ∀ i, (squareGone.db i).lsaAt ⟨(squareGone.db 3).selfId, 9⟩ =
      (squareGone.db 3).lsaAt ⟨(squareGone.db 3).selfId, 9⟩ :=
  ⟨by decide +kernel, by decide +kernel,
    Net.changes_reach_all squareNet_allKnow squareGone_changes squareGone_quiet⟩

end Anybus
