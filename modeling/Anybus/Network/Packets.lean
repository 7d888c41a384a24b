import Anybus.Network.Basic
import Anybus.Router.Copies
import Anybus.Router.Fib
import Mathlib.Algebra.BigOperators.Group.Finset.Basic

/-!
# Packets in a converged network

All nodes hold the same router LSAs, and every node's links are those of its own. A
packet enters at one node, and from there every node that accepts a copy passes it on.
The next hop towards the source is nearer to it, so the acceptors form a tree with the
source at its root, whatever order the copies arrive in.
-/

namespace Anybus

/-- The router LSA stored under a key. -/
def LsDb.routerLsa (db : LsDb) (k : LsaKey) : Option Lsa :=
  (db.db.get k).bind fun r =>
    match r.lsa.body with
    | .router _ => some r.lsa
    | .endpoint _ => none

theorem LsDb.routerLsa_eq_some {db : LsDb} {k : LsaKey} {lsa : Lsa} :
    db.routerLsa k = some lsa ↔
      ∃ r adjs, db.db.get k = some r ∧ r.lsa.body = .router adjs ∧ r.lsa = lsa := by
  unfold routerLsa
  cases db.db.get k with
  | none => simp
  | some r => cases hb : r.lsa.body <;> simp [hb]

/-- A network at rest: the same router LSAs everywhere, under the ids of their origins and
with positive costs, each node's links as its own router LSA has them, both ends of every
link up, and each node's forwarding table built from its database. -/
structure Converged {ι : Type*} (db : ι → LsDb) (fib : ι → ForwardingTable) (wire : Wiring ι) :
    Prop where
  built : ∀ i, ∃ db', (db i).buildFib = some (db', fib i)
  keyed : ∀ i k lsa, (db i).routerLsa k = some lsa → k.endpointId = k.origin
  same : ∀ i j k, (db i).routerLsa k = (db j).routerLsa k
  positive : ∀ i k lsa adjs, (db i).routerLsa k = some lsa → lsa.body = .router adjs →
    ∀ adj ∈ adjs, 0 < adj.cost.val
  linksMatch : ∀ i, (db i).LinksMatch
  advertised : ∀ i, (db i).LinksAdvertised
  /-- A link leads to the node it names, and that node's end leads back. -/
  wired : ∀ i c link, (db i).links.get c = some link →
    (db (wire i link.tx).1).selfId = link.peerId ∧
      ∃ back, (db (wire i link.tx).1).links.get (wire i link.tx).2 = some back ∧
        back.peerId = (db i).selfId ∧ wire (wire i link.tx).1 back.tx = (i, c)

/-- A listener stands at most once among the routes of any endpoint. -/
def LsDb.RegisteredOnce (db : LsDb) (x : Sender) : Prop :=
  ∀ e re, db.routes.table.get e = some re → re.listeners.count x ≤ 1

/-- Nothing is queued in any channel; the channels may be of any size or closed. -/
def Wires.Empty (w : Wires) : Prop :=
  (∀ t, (w.node t).queue = []) ∧ ∀ s, (w.client s).queue = []

/-- How far a packet has spread. -/
structure Transit (ι : Type*) where
  /-- What is on its way, by the sending node and its channel. -/
  flight : ι → Tx → List NodeMessage
  /-- How many messages each channel of each node has taken so far. -/
  sent : ι → Tx → ℕ
  /-- How many copies each node has accepted. -/
  accepted : ι → ℕ
  /-- What each listener of each node has got. -/
  inbox : ι → Sender → List ClientMessage

namespace Transit

variable {ι : Type*} [DecidableEq ι]

/-- No packet has entered. -/
def start : Transit ι := ⟨fun _ _ => [], fun _ _ => 0, fun _ => 0, fun _ _ => []⟩

/-- What an operation at a node has queued goes on its way, and its listeners take theirs. -/
def post (s : Transit ι) (i : ι) (w : Wires) : Transit ι where
  flight := Function.update s.flight i fun t => s.flight i t ++ (w.node t).queue
  sent := Function.update s.sent i fun t => s.sent i t + (w.node t).queue.length
  accepted := s.accepted
  inbox := Function.update s.inbox i fun x => s.inbox i x ++ (w.client x).queue

/-- A local client's packet enters. -/
def inject (fib : ι → ForwardingTable) (i : ι) (w : Wires) (packet : Packet) : Transit ι :=
  match (fib i).send w packet with
  | .ok w => start.post i w
  | .error _ => start

/-- A copy is taken off its channel, and counts as accepted if it passes the checks. -/
def arrive (s : Transit ι) (fib : ι → ForwardingTable) (wire : Wiring ι) (i : ι) (t : Tx)
    (p : WirePacket) : Transit ι where
  flight := Function.update s.flight i
    (Function.update (s.flight i) t ((s.flight i t).erase (.wirePacket p)))
  sent := s.sent
  accepted := Function.update s.accepted (wire i t).1 (s.accepted (wire i t).1 +
    if (fib (wire i t).1).accepts p (wire i t).2 then 1 else 0)
  inbox := s.inbox

/-- A copy on a channel of a node is delivered to the other end and forwarded there. -/
def deliver (s : Transit ι) (fib : ι → ForwardingTable) (wire : Wiring ι) (i : ι) (t : Tx)
    (w : Wires) (p : WirePacket) : Transit ι :=
  (s.arrive fib wire i t p).post (wire i t).1 ((fib (wire i t).1).forward w p (wire i t).2)

/-- The states after a packet has entered, for every order of deliveries. Each operation
meets channels that satisfy a side condition. -/
inductive Reaches (env : Wires → Prop) (fib : ι → ForwardingTable) (wire : Wiring ι) (src : ι)
    (packet : Packet) : Transit ι → Prop where
  | inject {w : Wires} (hw : env w) : Reaches env fib wire src packet (inject fib src w packet)
  | deliver {s : Transit ι} (h : Reaches env fib wire src packet s) {i : ι} {t : Tx} {w : Wires}
      {p : WirePacket} (hw : env w) (hp : .wirePacket p ∈ s.flight i t) :
      Reaches env fib wire src packet (s.deliver fib wire i t w p)

end Transit

section

variable {ι : Type*} {db : ι → LsDb} {fib : ι → ForwardingTable} {wire : Wiring ι}

namespace Converged

variable (net : Converged db fib wire)

include net

/-- Different links lead to different ends. -/
theorem link_eq_of_wire {i i' : ι} {c c' : ConnectionId} {link link' : Link}
    (hl : (db i).links.get c = some link) (hl' : (db i').links.get c' = some link')
    (h : wire i link.tx = wire i' link'.tx) : i = i' ∧ link = link' := by
  obtain ⟨_, back, hback, _, hto⟩ := net.wired i c link hl
  obtain ⟨_, back', hback', _, hto'⟩ := net.wired i' c' link' hl'
  rw [← h] at hback' hto'
  obtain rfl := Option.some.inj (hback.symm.trans hback')
  obtain ⟨rfl, rfl⟩ := Prod.mk.inj (hto.symm.trans hto')
  exact ⟨rfl, Option.some.inj (hl.symm.trans hl')⟩

theorem nodup_tx {i : ι} {links : List Link}
    (hl : ∀ link ∈ links, ∃ c, (db i).links.get c = some link) (hn : links.Nodup) :
    (links.map Link.tx).Nodup := by
  apply List.Nodup.map_on _ hn
  intro link hlink link' hlink' htx
  obtain ⟨c, hc⟩ := hl link hlink
  obtain ⟨c', hc'⟩ := hl link' hlink'
  exact (net.link_eq_of_wire hc hc' (by rw [htx])).2

end Converged

/-- What an operation on one packet may have queued: copies of it, at most `n` in the
channel of each link and none elsewhere, and at most `n` for each listener. -/
structure Posted (db : LsDb) (p : WirePacket) (n : ℕ) (w : Wires) : Prop where
  content : ∀ t, ∀ m ∈ (w.node t).queue, m = .wirePacket p
  node : ∀ t, (w.node t).queue.length ≤ n
  link : ∀ t, (w.node t).queue ≠ [] → ∃ c link, db.links.get c = some link ∧ link.tx = t
  client : ∀ x, db.RegisteredOnce x → (w.client x).queue.length ≤ n

theorem Posted.of_empty {db : LsDb} {p : WirePacket} {n : ℕ} {w : Wires} (hw : w.Empty) :
    Posted db p n w where
  content t m hm := by rw [hw.1 t] at hm; cases hm
  node t := by rw [hw.1 t]; exact Nat.zero_le n
  link t ht := absurd (hw.1 t) ht
  client x _ := by rw [hw.2 x]; exact Nat.zero_le n

/-- Copies stand only in the channels they were meant for. -/
theorem Wires.Empty.meant {w w' : Wires} (hw : w.Empty) {txs : List Tx} {senders : List Sender}
    {m : NodeMessage} {m' : ClientMessage}
    (hnode : ∀ t, w'.node t = (w.node t).offerAll (List.replicate (txs.count t) m))
    (hclient : ∀ x, w'.client x = (w.client x).offerAll (List.replicate (senders.count x) m')) :
    (∀ t, (w'.node t).queue ≠ [] → t ∈ txs) ∧ ∀ x, (w'.client x).queue ≠ [] → x ∈ senders := by
  refine ⟨fun t ht => ?_, fun x hx => ?_⟩
  · obtain ⟨m, hm⟩ := List.exists_mem_of_ne_nil _ ht
    rw [hnode t] at hm
    rcases Chan.mem_of_mem_offerAll hm with hold | hnew
    · rw [hw.1 t] at hold
      cases hold
    · exact List.count_pos_iff.mp (Nat.pos_of_ne_zero (List.mem_replicate.mp hnew).1)
  · obtain ⟨m, hm⟩ := List.exists_mem_of_ne_nil _ hx
    rw [hclient x] at hm
    rcases Chan.mem_of_mem_offerAll hm with hold | hnew
    · rw [hw.2 x] at hold
      cases hold
    · exact List.count_pos_iff.mp (Nat.pos_of_ne_zero (List.mem_replicate.mp hnew).1)

namespace Converged

variable (net : Converged db fib wire)

include net

/-- The links of an entry are links of the node, each in a channel of its own. -/
theorem entry_links {i : ι} {e : EndpointId} {entry : FibEntry}
    (he : (fib i).table.get e = some entry) :
    (∀ link ∈ entry.remotes, ∃ c, (db i).links.get c = some link) ∧
      (entry.remotes.map Link.tx).Nodup ∧
      ∀ x, (db i).RegisteredOnce x → entry.locals.count x ≤ 1 := by
  obtain ⟨db', hb⟩ := net.built i
  rw [LsDb.table_of_built hb] at he
  obtain ⟨re, hre, hjoin⟩ := Option.bind_eq_some_iff.mp he
  have hf : db'.fibEntry re = some (some entry) := Option.join_eq_some_iff.mp hjoin
  obtain ⟨s, _, hnext, hnext'⟩ := LsDb.nextHop_of_built hb
  have hlinks : ∀ link ∈ entry.remotes, ∃ c, (db i).links.get c = some link := by
    intro link hlink
    obtain ⟨n, hn⟩ := LsDb.mem_remotes hf hlink
    rw [hnext', ← hnext] at hn
    exact (LsDb.nextHop_spec hb (net.linksMatch i) hn).2.1
  refine ⟨hlinks, ?_, fun x hx => (LsDb.count_locals_le hf x).trans (hx e re hre)⟩
  apply net.nodup_tx hlinks
  exact List.Nodup.of_map _ (LsDb.nodup_remotes_peers hb (net.linksMatch i) hf)

theorem posted {i : ι} {e : EndpointId} {entry : FibEntry}
    (he : (fib i).table.get e = some entry) {links : List Link}
    (hsub : links.Sublist entry.remotes) {w w' : Wires} (hw : w.Empty) {p : WirePacket}
    {m : ClientMessage}
    (hnode : ∀ t, w'.node t =
      (w.node t).offerAll (List.replicate ((links.map Link.tx).count t) (.wirePacket p)))
    (hclient : ∀ x, w'.client x = (w.client x).offerAll (List.replicate (entry.locals.count x) m)) :
    Posted (db i) p 1 w' := by
  obtain ⟨hlinks, htx, hlocals⟩ := net.entry_links he
  refine ⟨fun t m hm => ?_, fun t => ?_, fun t ht => ?_, fun x hx => ?_⟩
  · rw [hnode t] at hm
    rcases Chan.mem_of_mem_offerAll hm with hold | hnew
    · rw [hw.1 t] at hold
      cases hold
    · exact List.eq_of_mem_replicate hnew
  · rw [hnode t]
    apply (Chan.length_offerAll_le (hw.1 t) _).trans
    rw [List.length_replicate]
    exact List.nodup_iff_count_le_one.mp (htx.sublist (hsub.map _)) t
  · obtain ⟨link, hlink, rfl⟩ := List.mem_map.mp ((hw.meant hnode hclient).1 t ht)
    obtain ⟨c, hc⟩ := hlinks link (hsub.subset hlink)
    exact ⟨c, link, hc, rfl⟩
  · rw [hclient x]
    apply (Chan.length_offerAll_le (hw.2 x) _).trans
    rw [List.length_replicate]
    exact hlocals x hx

/-- What the source sends. -/
theorem posted_send {i : ι} {w w' : Wires} (hw : w.Empty) {packet : Packet}
    (h : (fib i).send w packet = .ok w') : Posted (db i) packet.toWire 1 w' := by
  obtain ⟨entry, he, hnode, hclient⟩ := ForwardingTable.send_copies h
  exact net.posted he (List.Sublist.refl _) hw hnode hclient

/-- What a node passes on. -/
theorem posted_forward {i : ι} {w : Wires} (hw : w.Empty) (p : WirePacket) (c : ConnectionId) :
    Posted (db i) p (if (fib i).accepts p c then 1 else 0) ((fib i).forward w p c) := by
  cases he : (fib i).table.get (p.toAddress.getEndpoint (fib i).ourId) with
  | none =>
    rw [ForwardingTable.forward_drops (Or.inr he)]
    exact .of_empty hw
  | some entry =>
    cases ha : (fib i).accepts p c with
    | false =>
      rw [ForwardingTable.forward_drops (Or.inl ha)]
      exact .of_empty hw
    | true =>
      obtain ⟨hnode, hclient⟩ := ForwardingTable.forward_copies ha he w
      exact net.posted he List.filter_sublist hw hnode hclient

/-- Other endpoints do not disturb a network at rest. -/
theorem of_routers {db' : ι → LsDb} {fib' : ι → ForwardingTable}
    (hbuilt : ∀ i, ∃ db'', (db' i).buildFib = some (db'', fib' i))
    (hrouter : ∀ i k, (db' i).routerLsa k = (db i).routerLsa k)
    (hself : ∀ i, (db' i).selfId = (db i).selfId) (hlinks : ∀ i, (db' i).links = (db i).links)
    (hown : ∀ i, (db' i).ownAdjacencies = (db i).ownAdjacencies) : Converged db' fib' wire where
  built := hbuilt
  keyed i k lsa h := net.keyed i k lsa (hrouter i k ▸ h)
  same i j k := by rw [hrouter, hrouter, net.same i j]
  positive i k lsa adjs h := net.positive i k lsa adjs (hrouter i k ▸ h)
  linksMatch i adj hadj := by
    rw [hown] at hadj
    rw [hlinks]
    exact net.linksMatch i adj hadj
  advertised i c link hl := by
    rw [hlinks] at hl
    rw [hown]
    exact net.advertised i c link hl
  wired i c link hl := by
    rw [hlinks] at hl
    rw [hself, hself, hlinks]
    exact net.wired i c link hl

theorem uniqueRouters (i : ι) : (db i).UniqueRouters := by
  apply LsDb.UniqueRouters.of_keyed
  rintro ⟨k, r⟩ he adjs hb
  have hr := HashMap.mem_entries_iff.mp he
  exact net.keyed i k r.lsa (LsDb.routerLsa_eq_some.mpr ⟨r, adjs, hr, hb, rfl⟩)

/-- All nodes search the same graph. -/
theorem spfGraph_eq (i j : ι) : (db i).spfGraph = (db j).spfGraph := by
  have hedge : ∀ i j u v c, (db i).lsaGraph.Edge u v c → (db j).lsaGraph.Edge u v c := by
    rintro i j u v c ⟨k, r, adjs, hk, hb, ho, hadj⟩
    have hlsa := LsDb.routerLsa_eq_some.mpr ⟨r, adjs, hk, hb, rfl⟩
    rw [net.same i j] at hlsa
    obtain ⟨r', adjs', hk', hb', heq⟩ := LsDb.routerLsa_eq_some.mp hlsa
    exact ⟨k, r', adjs, hk', by rw [heq, hb], ho, hadj⟩
  have h : (db i).lsaGraph = (db j).lsaGraph := by
    refine congrArg WGraph.mk (funext fun u => funext fun v => funext fun c => propext ?_)
    exact ⟨hedge i j u v c, hedge j i u v c⟩
  unfold LsDb.spfGraph
  rw [(net.uniqueRouters i).routerGraph_eq, (net.uniqueRouters j).routerGraph_eq, h]

theorem cost_pos {i : ι} {adj : Adjacency} (h : adj ∈ (db i).ownAdjacencies) :
    0 < adj.cost.val := by
  unfold LsDb.ownAdjacencies rootAdjacencies at h
  cases hn : (routerLsas (db i).db).get (db i).selfId with
  | none => simp [hn] at h
  | some adjs =>
    rw [hn, Option.getD_some] at h
    obtain ⟨k, r, hk, hb, _⟩ := get_routerLsas hn
    exact net.positive i k r.lsa adjs (LsDb.routerLsa_eq_some.mpr ⟨r, adjs, hk, hb, rfl⟩) hb adj h

/-- The peer of a next hop is nearer to the target. -/
theorem nearer {o j : ι} {n : NodeId} {link : Link} (h : (fib j).nextHop.get n = some link) :
    (db o).spfGraph.dist link.peerId n < (db o).spfGraph.dist (db j).selfId n := by
  obtain ⟨db', hb⟩ := net.built j
  obtain ⟨_, _, ⟨adj, hadj, _, d, hwalk, hmin⟩, _⟩ := LsDb.nextHop_spec hb (net.linksMatch j) h
  rw [net.spfGraph_eq o j]
  have hpos := net.cost_pos hadj
  have hlt : ((d : ℕ) : ℕ∞) < ((adj.cost.val + d : ℕ) : ℕ∞) := by
    exact_mod_cast Nat.lt_add_of_pos_left hpos
  calc (db j).spfGraph.dist link.peerId n ≤ d := WGraph.dist_le hwalk
    _ < ((adj.cost.val + d : ℕ) : ℕ∞) := hlt
    _ ≤ (db j).spfGraph.dist (db j).selfId n :=
      WGraph.le_dist fun e he => by exact_mod_cast hmin e he

/-- A packet is accepted only from a neighbour that is nearer to its source, and only on
one connection. -/
theorem accepts_spec {o i j : ι} {p : WirePacket} {c c' : ConnectionId} {link : Link}
    (hl : (db i).links.get c = some link) (hw : wire i link.tx = (j, c'))
    (ha : (fib j).accepts p c' = true) :
    (db j).selfId ≠ p.fromNode ∧ (∀ c'', (fib j).accepts p c'' = true → c'' = c') ∧
      (db o).spfGraph.dist (db i).selfId p.fromNode < (db o).spfGraph.dist (db j).selfId p.fromNode := by
  obtain ⟨db', hb⟩ := net.built j
  obtain ⟨hfrom, hop, hhop, hconn⟩ := ForwardingTable.accepts_iff.mp ha
  obtain ⟨_, ⟨k, hk⟩, _⟩ := LsDb.nextHop_spec hb (net.linksMatch j) hhop
  -- The next hop is the other end of the link the packet came over.
  have hkey := (net.advertised j).key_eq hk
  obtain ⟨_, back, hback, hpeer, _⟩ := net.wired i c link hl
  rw [hw] at hback
  obtain rfl : hop = back := by
    rw [← hkey, hconn] at hk
    exact Option.some.inj (hk.symm.trans hback)
  refine ⟨fun heq => hfrom ?_, fun c'' h'' => ?_, ?_⟩
  · rw [LsDb.ourId_of_built hb, heq]
  · obtain ⟨_, hop', hhop', hconn'⟩ := ForwardingTable.accepts_iff.mp h''
    obtain rfl := Option.some.inj (hhop.symm.trans hhop')
    exact hconn'.symm.trans hconn
  · rw [← hpeer]
    exact net.nearer hhop

end Converged

namespace Transit

variable [DecidableEq ι]

theorem post_flight (s : Transit ι) (i : ι) (w : Wires) (j : ι) (t : Tx) :
    (s.post i w).flight j t = s.flight j t ++ if j = i then (w.node t).queue else [] := by
  by_cases h : j = i
  · subst h
    simp [post]
  · simp [post, h]

theorem post_sent (s : Transit ι) (i : ι) (w : Wires) (j : ι) (t : Tx) :
    (s.post i w).sent j t = s.sent j t + if j = i then (w.node t).queue.length else 0 := by
  by_cases h : j = i
  · subst h
    simp [post]
  · simp [post, h]

theorem post_inbox (s : Transit ι) (i : ι) (w : Wires) (j : ι) (x : Sender) :
    (s.post i w).inbox j x = s.inbox j x ++ if j = i then (w.client x).queue else [] := by
  by_cases h : j = i
  · subst h
    simp [post]
  · simp [post, h]

theorem arrive_accepted (s : Transit ι) (i : ι) (t : Tx) (p : WirePacket) (j : ι) :
    (s.arrive fib wire i t p).accepted j = s.accepted j +
      if j = (wire i t).1 then if (fib (wire i t).1).accepts p (wire i t).2 then 1 else 0 else 0 := by
  by_cases h : j = (wire i t).1
  · subst h
    simp [arrive]
  · simp [arrive, h]

theorem arrive_flight_sublist (s : Transit ι) (fib : ι → ForwardingTable) (wire : Wiring ι) (i : ι)
    (t : Tx) (p : WirePacket) (j : ι) (u : Tx) :
    ((s.arrive fib wire i t p).flight j u).Sublist (s.flight j u) := by
  by_cases hj : j = i
  · subst hj
    simp only [arrive, Function.update_self]
    by_cases hu : u = t
    · subst hu
      rw [Function.update_self]
      exact List.erase_sublist
    · rw [Function.update_of_ne hu]
  · simp only [arrive, Function.update_of_ne hj]
    exact List.Sublist.refl _

theorem arrive_flight_length (fib : ι → ForwardingTable) (wire : Wiring ι) {s : Transit ι} {i : ι}
    {t : Tx} {p : WirePacket} (hp : .wirePacket p ∈ s.flight i t) :
    ((s.arrive fib wire i t p).flight i t).length + 1 = (s.flight i t).length := by
  simp only [arrive, Function.update_self]
  have hpos := List.length_pos_of_mem hp
  rw [List.length_erase_of_mem hp]
  omega

/-- What holds however far the packet has spread, while each node still has some copies due
to every link and listener. A node sends at most one copy on a link for each one it
accepted, and accepts no more than came over its link towards the source. -/
structure Inv (db : ι → LsDb) (fib : ι → ForwardingTable) (wire : Wiring ι) (src : ι)
    (p : WirePacket) (due : ι → ℕ) (s : Transit ι) : Prop where
  content : ∀ i t, ∀ m ∈ s.flight i t, m = .wirePacket p
  link : ∀ i t, 0 < s.sent i t → ∃ c link, (db i).links.get c = some link ∧ link.tx = t
  flight : ∀ i t, (s.flight i t).length ≤ s.sent i t
  sent : ∀ i t, s.sent i t + due i ≤ s.accepted i + if i = src then 1 else 0
  inbox : ∀ i x, (db i).RegisteredOnce x →
    (s.inbox i x).length + due i ≤ s.accepted i + if i = src then 1 else 0
  arrivals : ∀ i c link, (db i).links.get c = some link →
    (fib (wire i link.tx).1).accepts p (wire i link.tx).2 = true →
      s.accepted (wire i link.tx).1 + (s.flight i link.tx).length ≤ s.sent i link.tx
  source : ∀ j, 0 < s.accepted j → ∃ i c link c', (db i).links.get c = some link ∧
    wire i link.tx = (j, c') ∧ (fib j).accepts p c' = true

variable {src : ι} {p : WirePacket}

/-- Before the packet enters, its source has one copy due. -/
theorem Inv.start : Inv db fib wire src p (fun i => if i = src then 1 else 0) start where
  content i t m hm := by cases hm
  link i t h := absurd h (Nat.lt_irrefl 0)
  flight i t := Nat.zero_le _
  sent i t := le_of_eq rfl
  inbox i x _ := le_of_eq rfl
  arrivals i c link _ _ := Nat.zero_le _
  source j h := absurd h (Nat.lt_irrefl 0)

/-- What is due need not be sent. -/
theorem Inv.waive {s : Transit ι} {due : ι → ℕ} (h : Inv db fib wire src p due s) :
    Inv db fib wire src p (fun _ => 0) s :=
  { h with
    sent := fun i t => (Nat.le_add_right _ _).trans (h.sent i t)
    inbox := fun i x hx => (Nat.le_add_right _ _).trans (h.inbox i x hx) }

/-- A node sends what it has due. -/
theorem Inv.post {s : Transit ι} {j : ι} {n : ℕ} {w : Wires}
    (h : Inv db fib wire src p (fun i => if i = j then n else 0) s) (hw : Posted (db j) p n w) :
    Inv db fib wire src p (fun _ => 0) (s.post j w) where
  content i t m hm := by
    rw [post_flight] at hm
    rcases List.mem_append.mp hm with hold | hnew
    · exact h.content i t m hold
    · split at hnew
      · exact hw.content t m hnew
      · cases hnew
  link i t hpos := by
    by_cases hs : 0 < s.sent i t
    · exact h.link i t hs
    · rw [post_sent] at hpos
      split at hpos
      · next heq =>
        subst heq
        exact hw.link t (List.ne_nil_of_length_pos (by omega))
      · omega
  flight i t := by
    have hold := h.flight i t
    rw [post_flight, post_sent, List.length_append]
    split
    · omega
    · simpa using hold
  sent i t := by
    have hold := h.sent i t
    have hnew := hw.node t
    rw [post_sent]
    change _ ≤ s.accepted i + _
    by_cases hi : i = j
    · rw [if_pos hi] at hold ⊢
      omega
    · rw [if_neg hi] at hold ⊢
      exact hold
  inbox i x hx := by
    have hold := h.inbox i x hx
    rw [post_inbox, List.length_append]
    change _ ≤ s.accepted i + _
    by_cases hi : i = j
    · have hnew := hw.client x (hi ▸ hx)
      rw [if_pos hi] at hold ⊢
      omega
    · rw [if_neg hi] at hold ⊢
      exact hold
  arrivals i c link hl ha := by
    have hold := h.arrivals i c link hl ha
    rw [post_flight, post_sent, List.length_append]
    change s.accepted (wire i link.tx).1 + _ ≤ _
    split
    · omega
    · rw [List.length_nil]
      omega
  source := h.source

theorem Inv.inject (net : Converged db fib wire) {packet : Packet} {w : Wires} (hw : w.Empty) :
    Inv db fib wire src packet.toWire (fun _ => 0) (inject fib src w packet) := by
  unfold Transit.inject
  split
  · next w' hsend => exact Inv.start.post (net.posted_send hw hsend)
  · exact Inv.start.waive

/-- A copy that comes over the link towards the source leaves one due to every link. -/
theorem Inv.arrive (net : Converged db fib wire) {s : Transit ι}
    (h : Inv db fib wire src p (fun _ => 0) s) {i : ι} {t : Tx} (hp : .wirePacket p ∈ s.flight i t) :
    Inv db fib wire src p
      (fun j => if j = (wire i t).1 then
        if (fib (wire i t).1).accepts p (wire i t).2 then 1 else 0 else 0)
      (s.arrive fib wire i t p) := by
  have hsub := arrive_flight_sublist s fib wire i t p
  obtain ⟨c, link, hlink, rfl⟩ := h.link i t ((List.length_pos_of_mem hp).trans_le (h.flight i t))
  refine ⟨fun i' t' m hm => ?_, h.link, fun i' t' => ?_, fun i' t' => ?_, fun i' x hx => ?_,
    fun i' c' link' hl' ha' => ?_, fun j hj => ?_⟩
  · exact h.content i' t' m ((hsub i' t').subset hm)
  · exact (hsub i' t').length_le.trans (h.flight i' t')
  · have hold := h.sent i' t'
    rw [arrive_accepted]
    change s.sent i' t' + _ ≤ _
    omega
  · have hold := h.inbox i' x hx
    rw [arrive_accepted]
    change (s.inbox i' x).length + _ ≤ _
    omega
  · have hold := h.arrivals i' c' link' hl' ha'
    have hle := (hsub i' link'.tx).length_le
    rw [arrive_accepted]
    change _ ≤ s.sent i' link'.tx
    by_cases hj : (wire i' link'.tx).1 = (wire i link.tx).1
    · rw [if_pos hj]
      split
      · next hacc =>
        -- Only one link is accepted from, so this is the one the copy came over.
        have huniq := (net.accepts_spec (o := i) hlink rfl hacc).2.1 _ (hj ▸ ha')
        obtain ⟨rfl, rfl⟩ := net.link_eq_of_wire hl' hlink (Prod.ext hj huniq)
        have hlen := arrive_flight_length fib wire hp
        omega
      · omega
    · rw [if_neg hj]
      omega
  · rw [arrive_accepted] at hj
    split at hj
    · next heq =>
      subst heq
      split at hj
      · next hacc => exact ⟨i, c, link, (wire i link.tx).2, hlink, rfl, hacc⟩
      · exact h.source _ hj
    · exact h.source j hj

theorem Inv.deliver (net : Converged db fib wire) {s : Transit ι}
    (h : Inv db fib wire src p (fun _ => 0) s) {i : ι} {t : Tx} {w : Wires} (hw : w.Empty)
    (hp : .wirePacket p ∈ s.flight i t) :
    Inv db fib wire src p (fun _ => 0) (s.deliver fib wire i t w p) :=
  (h.arrive net hp).post (net.posted_forward hw p (wire i t).2)

theorem Reaches.inv (net : Converged db fib wire) {packet : Packet} {s : Transit ι}
    (h : Reaches Wires.Empty fib wire src packet s) : Inv db fib wire src packet.toWire (fun _ => 0) s := by
  induction h with
  | inject hw => exact .inject net hw
  | @deliver s _ i t w p hw hp ih =>
    obtain rfl := NodeMessage.wirePacket.inj (ih.content i t _ hp)
    exact ih.deliver net hw hp

/-- No node but the source passes the packet on twice, and the source accepts nothing: by
induction on the distance to the source, all copies a node accepts come from one nearer
neighbour, over one link. -/
theorem Inv.accepted_le (net : Converged db fib wire) (hfrom : p.fromNode = (db src).selfId)
    {s : Transit ι} (h : Inv db fib wire src p (fun _ => 0) s) (j : ι) :
    s.accepted j + (if j = src then 1 else 0) ≤ 1 := by
  induction hd : (db src).spfGraph.dist (db j).selfId p.fromNode using WellFoundedLT.induction
    generalizing j with
  | ind d ih =>
    rcases Nat.eq_zero_or_pos (s.accepted j) with hzero | hpos
    · rw [hzero]
      split <;> omega
    · obtain ⟨i, c, link, c', hl, hw, ha⟩ := h.source j hpos
      obtain ⟨hne, _, hlt⟩ := net.accepts_spec (o := src) hl hw ha
      have harr := h.arrivals i c link hl (by rw [hw]; exact ha)
      simp only [hw] at harr
      have hsent := h.sent i link.tx
      have hle := ih _ (hd ▸ hlt) i rfl
      rw [if_neg fun heq => hne (by rw [heq, hfrom])]
      omega

theorem sum_map_le_length {α : Type*} {f : α → ℕ} {l : List α} (h : ∀ a, f a ≤ 1) :
    (l.map f).sum ≤ l.length := by
  induction l with
  | nil => exact le_rfl
  | cons a l ih =>
    have ha := h a
    rw [List.map_cons, List.sum_cons, List.length_cons]
    omega

/-- A packet that enters once is accepted at most once by every node and reaches every
listener at most once, and all its copies together cross no more links than there are. -/
theorem packet_spreads_once [Fintype ι] (net : Converged db fib wire) {packet : Packet}
    (hfrom : packet.fromNode = (db src).selfId) {s : Transit ι}
    (h : Reaches Wires.Empty fib wire src packet s) :
    (∀ i, s.accepted i ≤ 1) ∧
      (∀ i x, (db i).RegisteredOnce x → (s.inbox i x).length ≤ 1) ∧
      (∀ i t, 0 < s.sent i t → t ∈ (db i).txs) ∧
      ∑ i, ((db i).txs.map (s.sent i)).sum ≤ ∑ i, (db i).links.entries.length := by
  have hinv := h.inv net
  have hone := hinv.accepted_le net hfrom
  refine ⟨fun i => (Nat.le_add_right _ _).trans (hone i), fun i x hx => ?_, fun i t hpos => ?_, ?_⟩
  · exact (hinv.inbox i x hx).trans (hone i)
  · obtain ⟨c, link, hl, rfl⟩ := hinv.link i t hpos
    unfold LsDb.txs
    rw [List.mem_dedup]
    exact List.mem_map_of_mem (HashMap.mem_values_iff.mpr ⟨c, hl⟩)
  · apply Finset.sum_le_sum
    intro i _
    calc ((db i).txs.map (s.sent i)).sum
        ≤ (db i).txs.length := sum_map_le_length fun t => (hinv.sent i t).trans (hone i)
      _ ≤ ((db i).links.values.map Link.tx).length := (List.dedup_sublist _).length_le
      _ = (db i).links.entries.length := by rw [List.length_map, HashMap.values, List.length_map]

end Transit

end

/-- The nodes of a square, 1 opposite 4. -/
def squareId (i : Fin 4) : NodeId := ⟨i.val + 1, by omega⟩

/-- The links of a corner of the square: the two ways from 1 to 4 cost the same. -/
def squareEnds : Fin 4 → List (ConnectionId × NodeId × Cost)
  | 0 => [(0, 2, ⟨1, Cost.one_le_max⟩), (1, 3, ⟨2, Cost.two_le_max⟩)]
  | 1 => [(0, 1, ⟨1, Cost.one_le_max⟩), (1, 4, ⟨2, Cost.two_le_max⟩)]
  | 2 => [(0, 1, ⟨2, Cost.two_le_max⟩), (1, 4, ⟨1, Cost.one_le_max⟩)]
  | 3 => [(0, 2, ⟨2, Cost.two_le_max⟩), (1, 3, ⟨1, Cost.one_le_max⟩)]

/-- Where the two channels of each corner lead. -/
def squareWire : Wiring (Fin 4)
  | 0, 0 => (1, 0)
  | 0, _ => (2, 0)
  | 1, 0 => (0, 0)
  | 1, _ => (3, 0)
  | 2, 0 => (0, 1)
  | 2, _ => (3, 1)
  | 3, 0 => (1, 1)
  | 3, _ => (2, 1)

/-- The endpoint LSA of a unicast endpoint 9 at node 4. -/
def squareEndpoint : LsaRecord :=
  ⟨⟨⟨4, 9⟩, 1, false, .endpoint ⟨.unicast, .global, 0⟩⟩, 0⟩

/-- The LSAs every corner holds. -/
def squareLsas : HashMap LsaKey LsaRecord :=
  (List.finRange 4).foldl (fun (m : HashMap LsaKey LsaRecord) i =>
    m.insert ⟨squareId i, squareId i⟩ (routerRecord (squareId i) (squareEnds i)))
    ((∅ : HashMap LsaKey LsaRecord).insert ⟨4, 9⟩ squareEndpoint)

/-- The routes of a corner: to the other nodes, and to the endpoint at node 4. -/
def squareRoutes (i : Fin 4) : HashMap EndpointId LsRouteEntry :=
  ((List.finRange 4).filter (· ≠ i)).foldl (fun (m : HashMap EndpointId LsRouteEntry) j =>
    m.insert (squareId j) ⟨[⟨.remote (squareId j), 0, .global, .node⟩], .node⟩)
    ((∅ : HashMap EndpointId LsRouteEntry).insert 9
      ⟨[⟨if i = 3 then .loc 7 else .remote 4, 0, .global, .unicast⟩], .unicast⟩)

/-- A corner of the square. -/
def squareDb (i : Fin 4) : LsDb :=
  { LsDb.new (squareId i) 0 with
    db := squareLsas
    links := (squareEnds i).foldl (fun (m : HashMap ConnectionId Link) a =>
      m.insert a.1 ⟨a.1, a.2.1, a.1, {.global}, a.2.2⟩) ∅
    routes := ⟨squareRoutes i⟩ }

/-- The forwarding table a corner builds. -/
def squareFib (i : Fin 4) : ForwardingTable :=
  ((squareDb i).buildFib.map Prod.snd).getD (.new (squareId i))

theorem squareFib_built (i : Fin 4) : ∃ db', (squareDb i).buildFib = some (db', squareFib i) := by
  have hsome : ∀ i, ((squareDb i).buildFib).isSome = true := by decide +kernel
  obtain ⟨⟨db', fib⟩, hb⟩ := Option.isSome_iff_exists.mp (hsome i)
  refine ⟨db', ?_⟩
  rw [squareFib, hb]
  rfl

theorem squareDb_ownAdjacencies (i : Fin 4) : (squareDb i).ownAdjacencies =
    (squareEnds i).map fun a => ⟨a.1, a.2.1, a.2.2, {.global}⟩ := by
  revert i
  decide +kernel

theorem mem_squareLsas {k : LsaKey} {r : LsaRecord} (h : squareLsas.get k = some r) :
    r = squareEndpoint ∨ ∃ i, k = ⟨squareId i, squareId i⟩ ∧
      r = routerRecord (squareId i) (squareEnds i) := by
  have hall : ∀ e ∈ squareLsas.entries, e.2 = squareEndpoint ∨
      ∃ i, e.1 = ⟨squareId i, squareId i⟩ ∧ e.2 = routerRecord (squareId i) (squareEnds i) := by
    decide +kernel
  exact hall ⟨k, r⟩ (HashMap.mem_entries_iff.mpr h)

theorem squareDb_routerLsa {i : Fin 4} {k : LsaKey} {lsa : Lsa}
    (h : (squareDb i).routerLsa k = some lsa) :
    ∃ j, k = ⟨squareId j, squareId j⟩ ∧ lsa = (routerRecord (squareId j) (squareEnds j)).lsa := by
  obtain ⟨r, adjs, hr, hb, rfl⟩ := LsDb.routerLsa_eq_some.mp h
  rcases mem_squareLsas hr with rfl | ⟨j, hk, rfl⟩
  · cases hb
  · exact ⟨j, hk, rfl⟩

theorem mem_squareDb_links {i : Fin 4} {c : ConnectionId} {link : Link} :
    (squareDb i).links.get c = some link ↔
      ∃ a ∈ squareEnds i, a.1 = c ∧ link = ⟨a.1, a.2.1, a.1, {.global}, a.2.2⟩ := by
  have hall : ∀ i, (∀ e ∈ (squareDb i).links.entries, ∃ a ∈ squareEnds i,
      a.1 = e.1 ∧ e.2 = ⟨a.1, a.2.1, a.1, {.global}, a.2.2⟩) ∧
      ∀ a ∈ squareEnds i, (squareDb i).links.get a.1 =
        some ⟨a.1, a.2.1, a.1, {.global}, a.2.2⟩ := by
    decide +kernel
  constructor
  · intro h
    exact (hall i).1 ⟨c, link⟩ (HashMap.mem_entries_iff.mpr h)
  · rintro ⟨a, ha, rfl, rfl⟩
    exact (hall i).2 a ha

theorem square_converged : Converged squareDb squareFib squareWire where
  built := squareFib_built
  keyed i k lsa h := by
    obtain ⟨j, rfl, _⟩ := squareDb_routerLsa h
    rfl
  same i j k := rfl
  positive i k lsa adjs h hb adj hadj := by
    obtain ⟨j, _, rfl⟩ := squareDb_routerLsa h
    obtain rfl := LsaBody.router.inj hb
    obtain ⟨a, ha, rfl⟩ := List.mem_map.mp hadj
    have hpos : ∀ j, ∀ a ∈ squareEnds j, 0 < a.2.2.val := by decide
    exact hpos j a ha
  linksMatch i adj hadj := by
    rw [squareDb_ownAdjacencies] at hadj
    obtain ⟨a, ha, rfl⟩ := List.mem_map.mp hadj
    exact ⟨_, mem_squareDb_links.mpr ⟨a, ha, rfl, rfl⟩, rfl, rfl, rfl⟩
  advertised i c link h := by
    obtain ⟨a, ha, rfl, rfl⟩ := mem_squareDb_links.mp h
    rw [squareDb_ownAdjacencies]
    exact ⟨_, List.mem_map_of_mem ha, rfl, rfl, rfl, rfl⟩
  wired i c link h := by
    obtain ⟨a, ha, rfl, rfl⟩ := mem_squareDb_links.mp h
    have hall : ∀ i, ∀ a ∈ squareEnds i, squareId (squareWire i a.1).1 = a.2.1 ∧
        ∃ b ∈ squareEnds (squareWire i a.1).1, b.1 = (squareWire i a.1).2 ∧
          b.2.1 = squareId i ∧ squareWire (squareWire i a.1).1 b.1 = (i, a.1) := by
      decide
    obtain ⟨hid, b, hb, hkey, hpeer, hback⟩ := hall i a ha
    exact ⟨hid, _, mem_squareDb_links.mpr ⟨b, hb, hkey, rfl⟩, hpeer, hback⟩

/-- A packet of node 1 to the endpoint at node 4. -/
def squarePacket : Packet := ⟨.endpoint 9, none, 1, .bytes []⟩

/-- The packet has entered and has got to node 2. -/
def squareForwarded : Transit (Fin 4) :=
  (Transit.inject squareFib 0 (.idle 32) squarePacket).deliver squareFib squareWire 0 0 (.idle 32)
    squarePacket.toWire

theorem Wires.empty_idle (capacity : Nat) : (Wires.idle capacity).Empty :=
  ⟨fun _ => rfl, fun _ => rfl⟩

theorem squareForwarded_reached :
    Transit.Reaches Wires.Empty squareFib squareWire 0 squarePacket squareForwarded := by
  apply Transit.Reaches.deliver (.inject (Wires.empty_idle 32)) (Wires.empty_idle 32)
  decide +kernel

/-- Node 2 has accepted the packet and sent it on to node 4. -/
theorem square_spreads_once :
    squareForwarded.accepted 1 = 1 ∧ squareForwarded.sent 1 1 = 1 ∧
      (∀ i, squareForwarded.accepted i ≤ 1) ∧
      (∀ i x, (squareDb i).RegisteredOnce x → (squareForwarded.inbox i x).length ≤ 1) ∧
      (∀ i t, 0 < squareForwarded.sent i t → t ∈ (squareDb i).txs) ∧
      ∑ i, ((squareDb i).txs.map (squareForwarded.sent i)).sum ≤
        ∑ i, (squareDb i).links.entries.length :=
  ⟨by decide +kernel, by decide +kernel,
    Transit.packet_spreads_once square_converged rfl squareForwarded_reached⟩

end Anybus
