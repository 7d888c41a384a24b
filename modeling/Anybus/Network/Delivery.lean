import Anybus.Network.Packets

/-!
# The way of a packet to one listener

In a converged network with one link between two nodes and the same cost in both
directions, a packet for one listener follows a shortest path. A node on the way passes
it on if the neighbour it came from is the one its own paths use towards the source;
where two neighbours begin shortest paths to the source, they may use the other one.
-/

namespace Anybus

variable {ι : Type*}

/-- A connected network of distinct nodes, with at most one link between two nodes, costs
equal in both directions, and no simple path as dear as infinity. -/
structure Balanced (db : ι → LsDb) : Prop where
  ids : Function.Injective fun i => (db i).selfId
  connected : ∀ i j, ∃ c, (db i).spfGraph.Walk (db i).selfId (db j).selfId c
  symm : ∀ i u v c, (db i).spfGraph.Edge u v c → (db i).spfGraph.Edge v u c
  single : ∀ i c c' link link', (db i).links.get c = some link →
    (db i).links.get c' = some link' → link.peerId = link'.peerId → link = link'
  short : ∀ i u v c, (db i).spfGraph.Path u v c → c < 65535

/-- All nodes hold the same LSAs, and their routes for a unicast endpoint are those of its
one listener: at its node the listener itself, elsewhere the way to that node. -/
structure Registered (db : ι → LsDb) (dst : ι) (e : EndpointId) (x : Sender) : Prop where
  lsas : ∀ i j k, ((db i).db.get k).map LsaRecord.lsa = ((db j).db.get k).map LsaRecord.lsa
  loc : (db dst).RoutesOnly e (.loc x)
  remote : ∀ i, i ≠ dst → (db i).RoutesOnly e (.remote (db dst).selfId)
  node : ∀ i, i ≠ dst → (db i).RoutesOnly (db dst).selfId (.remote (db dst).selfId)

/-- The addresses of an endpoint at a node. -/
def Address.IsFor (a : Address) (e : EndpointId) (n : NodeId) : Prop :=
  a = .endpoint e ∨ a = .remote e n

/-- Two neighbours of a node both begin shortest paths to another one. -/
def LsDb.HasTie (db : LsDb) (n : NodeId) : Prop :=
  ∃ c c' link link', db.links.get c = some link ∧ db.links.get c' = some link' ∧
    link.peerId ≠ link'.peerId ∧ db.BeginsShortest link n ∧ db.BeginsShortest link' n

/-- Every channel is open, empty and has room. -/
structure Wires.Roomy (w : Wires) : Prop where
  empty : w.Empty
  node : ∀ t, (w.node t).closed = false ∧ 0 < (w.node t).capacity
  client : ∀ x, (w.client x).closed = false ∧ 0 < (w.client x).capacity

/-- The next hop of a node on the way is not where the packet came from. -/
theorem ForwardingTable.not_isBackPath {G : WGraph NodeId} {fib : ForwardingTable} {p : WirePacket}
    {s d : NodeId} {n m k : ℕ} {hop link : Link} (hhop : fib.nextHop.get p.fromNode = some hop)
    (hway : G.OnWay s d hop.peerId n) (hm : 0 < m) (hnext : G.OnWay s d link.peerId (n + m + k)) :
    fib.isBackPath p link = false := by
  unfold isBackPath
  rw [hhop]
  apply decide_eq_false
  intro heq
  rw [← heq] at hnext
  have hle := hnext.le_walk hway.1
  omega

section

variable {db : ι → LsDb} {fib : ι → ForwardingTable} {wire : Wiring ι} {src dst : ι}
  {e : EndpointId} {x : Sender} {a : Address}

/-- At its own node the packet meets the listener. -/
theorem Registered.table_dst (net : Converged db fib wire) (reg : Registered db dst e x)
    (ha : a.IsFor e (db dst).selfId) :
    (fib dst).table.get (a.getEndpoint (fib dst).ourId) = some (.single (.loc x)) := by
  obtain ⟨db', hb⟩ := net.built dst
  have hkey : a.getEndpoint (fib dst).ourId = e := by
    rw [LsDb.ourId_of_built hb]
    rcases ha with rfl | rfl
    · rfl
    · exact if_pos rfl
  rw [hkey]
  exact reg.loc.table_loc hb

/-- Every other node sends the packet to its next hop towards that node. -/
theorem Registered.table_next (net : Converged db fib wire) (bal : Balanced db)
    (reg : Registered db dst e x) (ha : a.IsFor e (db dst).selfId) {i : ι} (hi : i ≠ dst)
    {link : Link} (hl : (fib i).nextHop.get (db dst).selfId = some link) :
    (fib i).table.get (a.getEndpoint (fib i).ourId) = some (.single (.remote link)) := by
  obtain ⟨db', hb⟩ := net.built i
  rw [LsDb.ourId_of_built hb]
  rcases ha with rfl | rfl
  · exact (reg.remote i hi).table_remote hb hl
  · have hne : (db i).selfId ≠ (db dst).selfId := fun heq => hi (bal.ids heq)
    have hkey : (Address.remote e (db dst).selfId).getEndpoint (db i).selfId = (db dst).selfId :=
      if_neg hne
    rw [hkey]
    exact (reg.node i hi).table_remote hb hl

theorem Balanced.exists_nextHop (net : Converged db fib wire) (bal : Balanced db) {i j : ι}
    (h : i ≠ j) : ∃ link, (fib i).nextHop.get (db j).selfId = some link := by
  obtain ⟨db', hb⟩ := net.built i
  obtain ⟨c, hwalk⟩ := bal.connected i j
  obtain ⟨d, _, hpath⟩ := hwalk.exists_path
  have hlt := bal.short i _ _ d hpath
  obtain ⟨l, hvisits, _⟩ := hpath
  exact LsDb.exists_nextHop hb (net.linksMatch i) (fun heq => h (bal.ids heq.symm))
    hvisits.walk hlt

section Way

variable (net : Converged db fib wire) (bal : Balanced db) {s d : NodeId} {o j : ι} {n : ℕ}

include net

/-- The next hop leads one node further along a cheapest way. -/
theorem Converged.way_next {link : Link} (hway : (db o).spfGraph.OnWay s d (db j).selfId n)
    (hl : (fib j).nextHop.get d = some link) :
    ∃ c, (db j).links.get c = some link ∧ ∃ m, 0 < m ∧
      (db o).spfGraph.Edge (db j).selfId link.peerId m ∧
      (db o).spfGraph.OnWay s d link.peerId (n + m) := by
  obtain ⟨db', hb⟩ := net.built j
  obtain ⟨_, ⟨c, hc⟩, ⟨adj, hadj, hpeer, k, hwalk, hmin⟩, _⟩ :=
    LsDb.nextHop_spec hb (net.linksMatch j) hl
  have hedge := LsDb.edge_of_mem_ownAdjacencies hadj
  rw [hpeer] at hedge
  rw [net.spfGraph_eq o j] at hway ⊢
  exact ⟨c, hc, adj.cost.val, net.cost_pos hadj, hedge, hway.next hedge hwalk hmin⟩

include bal

/-- The neighbour a packet came from begins a shortest path back to the source. -/
theorem Balanced.back_shortest {i : ι} {back : Link} {m : ℕ}
    (hway : (db o).spfGraph.OnWay s d (db j).selfId n)
    (hedge : (db o).spfGraph.Edge (db j).selfId (db i).selfId m)
    (hnext : (db o).spfGraph.OnWay s d (db i).selfId (n + m)) (hback : back.peerId = (db j).selfId) :
    (db i).BeginsShortest back s := by
  rw [net.spfGraph_eq o i] at hway hedge hnext
  obtain ⟨adj, hadj, hpeer, hcost⟩ :=
    LsDb.exists_ownAdjacency_of_edge (bal.symm i _ _ m hedge)
  refine ⟨adj, hadj, hpeer.trans hback.symm, n, ?_, fun e he => ?_⟩
  · rw [hback]
    exact hway.1.reverse (bal.symm i)
  · have hle := hnext.le_walk (he.reverse (bal.symm i))
    omega

/-- A packet on the way is accepted, unless the node has two neighbours on shortest paths
to the source. -/
theorem Balanced.accepts_or_tie {i : ι} {c c' : ConnectionId} {link : Link} {p : WirePacket}
    {m : ℕ} (hfrom : p.fromNode = (db o).selfId) (hl : (db j).links.get c = some link)
    (hw : wire j link.tx = (i, c')) (hm : 0 < m)
    (hway : (db o).spfGraph.OnWay (db o).selfId d (db j).selfId n)
    (hedge : (db o).spfGraph.Edge (db j).selfId link.peerId m)
    (hnext : (db o).spfGraph.OnWay (db o).selfId d link.peerId (n + m)) :
    ((fib i).accepts p c' = true ∧
      ∃ hop, (fib i).nextHop.get p.fromNode = some hop ∧ hop.peerId = (db j).selfId) ∨
    ((fib i).accepts p c' = false ∧ (db i).HasTie (db o).selfId) := by
  obtain ⟨db', hb⟩ := net.built i
  obtain ⟨hid, back, hback, hpeer, _⟩ := net.wired j c link hl
  simp only [hw] at hid hback
  rw [← hid] at hedge hnext
  have hne : i ≠ o := by
    rintro rfl
    have hle := hnext.le_walk (.nil _)
    omega
  obtain ⟨hop, hhop⟩ := bal.exists_nextHop net hne
  obtain ⟨_, ⟨k, hk⟩, hshort, _⟩ := LsDb.nextHop_spec hb (net.linksMatch i) hhop
  rw [← hfrom] at hhop
  by_cases heq : hop.peerId = back.peerId
  · obtain rfl := bal.single i k c' hop back hk hback heq
    refine Or.inl ⟨ForwardingTable.accepts_iff.mpr ⟨?_, hop, hhop, ?_⟩, hop, hhop, hpeer⟩
    · rw [LsDb.ourId_of_built hb, hfrom]
      exact fun h => hne (bal.ids h.symm)
    · exact (net.advertised i).key_eq hback
  · refine Or.inr ⟨?_, k, c', hop, back, hk, hback, heq, hshort,
      bal.back_shortest net hway hedge hnext hpeer⟩
    rw [Bool.eq_false_iff]
    intro ha
    obtain ⟨_, hop', hhop', hconn⟩ := ForwardingTable.accepts_iff.mp ha
    obtain rfl := Option.some.inj (hhop.symm.trans hhop')
    have hkey := (net.advertised i).key_eq hk
    rw [← hkey, hconn] at hk
    exact heq (by rw [Option.some.inj (hk.symm.trans hback)])

end Way

end

theorem Wires.roomy_idle (capacity : Nat) : (Wires.idle (capacity + 1)).Roomy where
  empty := Wires.empty_idle _
  node _ := ⟨rfl, Nat.succ_pos capacity⟩
  client _ := ⟨rfl, Nat.succ_pos capacity⟩

namespace Wires.Roomy

variable {fib : ForwardingTable} {w : Wires} (hw : w.Roomy)

include hw

/-- With room everywhere nothing of what a single hop needs is refused. -/
theorem queues {w' : Wires} {txs : List Tx} {senders : List Sender} {m : NodeMessage}
    {m' : ClientMessage}
    (hnode : ∀ t, w'.node t = (w.node t).offerAll (List.replicate (txs.count t) m))
    (hclient : ∀ x, w'.client x = (w.client x).offerAll (List.replicate (senders.count x) m'))
    (htxs : txs.length ≤ 1) (hsenders : senders.length ≤ 1) :
    (∀ t, (w'.node t).queue = List.replicate (txs.count t) m) ∧
      ∀ x, (w'.client x).queue = List.replicate (senders.count x) m' := by
  refine ⟨fun t => ?_, fun x => ?_⟩
  · rw [hnode t]
    apply Chan.offerAll_queue_of_room (hw.empty.1 t) (hw.node t)
    rw [List.length_replicate]
    exact List.count_le_length.trans htxs
  · rw [hclient x]
    apply Chan.offerAll_queue_of_room (hw.empty.2 x) (hw.client x)
    rw [List.length_replicate]
    exact List.count_le_length.trans hsenders

theorem forward_loc {p : WirePacket} {c : ConnectionId} {x : Sender} (ha : fib.accepts p c = true)
    (he : fib.table.get (p.toAddress.getEndpoint fib.ourId) = some (.single (.loc x))) :
    (∀ t, ((fib.forward w p c).node t).queue = []) ∧
      ∀ y, ((fib.forward w p c).client y).queue =
        List.replicate ([x].count y) (.message p.toPacket) := by
  obtain ⟨hnode, hclient⟩ := ForwardingTable.forward_copies ha he w
  exact hw.queues hnode hclient (Nat.zero_le 1) le_rfl

theorem forward_remote {p : WirePacket} {c : ConnectionId} {link : Link}
    (ha : fib.accepts p c = true) (hback : fib.isBackPath p link = false)
    (he : fib.table.get (p.toAddress.getEndpoint fib.ourId) = some (.single (.remote link))) :
    (∀ t, ((fib.forward w p c).node t).queue = List.replicate ([link.tx].count t) (.wirePacket p)) ∧
      ∀ x, ((fib.forward w p c).client x).queue = [] := by
  have honward : fib.onward p (.single (.remote link)) = [link] := by
    simp [ForwardingTable.onward, FibEntry.remotes, FibEntry.hops, hback]
  obtain ⟨hnode, hclient⟩ := ForwardingTable.forward_copies ha he w
  rw [honward] at hnode
  exact hw.queues hnode hclient le_rfl (Nat.zero_le 1)

/-- A packet of a local client is not refused either. -/
theorem send_ok {packet : Packet} {hop : FibForwardTo}
    (he : fib.table.get (packet.toAddress.getEndpoint fib.ourId) = some (.single hop)) :
    ∃ w', fib.send w packet = .ok w' := by
  unfold ForwardingTable.send
  rw [he]
  cases hop with
  | loc sender =>
    have hok : ∃ c, (w.client sender).trySend (.message packet) = .ok c :=
      ⟨_, Chan.trySend_eq_ok_iff.mpr ⟨(hw.client sender).1,
        by rw [hw.empty.2 sender]; exact (hw.client sender).2, rfl⟩⟩
    obtain ⟨c, hc⟩ := hok
    exact ⟨_, by simp only [hc]; rfl⟩
  | remote link =>
    have hok : ∃ c, (w.node link.tx).trySend (.wirePacket packet.toWire) = .ok c :=
      ⟨_, Chan.trySend_eq_ok_iff.mpr ⟨(hw.node link.tx).1,
        by rw [hw.empty.1 link.tx]; exact (hw.node link.tx).2, rfl⟩⟩
    obtain ⟨c, hc⟩ := hok
    exact ⟨_, by simp only [hc]; rfl⟩

theorem send_loc {packet : Packet} {x : Sender}
    (he : fib.table.get (packet.toAddress.getEndpoint fib.ourId) = some (.single (.loc x))) :
    ∃ w', fib.send w packet = .ok w' ∧ (∀ t, (w'.node t).queue = []) ∧
      ∀ y, (w'.client y).queue = List.replicate ([x].count y) (.message packet) := by
  obtain ⟨w', hsend⟩ := hw.send_ok he
  obtain ⟨entry, he', hnode, hclient⟩ := ForwardingTable.send_copies hsend
  obtain rfl := Option.some.inj (he.symm.trans he')
  exact ⟨w', hsend, hw.queues hnode hclient (Nat.zero_le 1) le_rfl⟩

theorem send_remote {packet : Packet} {link : Link}
    (he : fib.table.get (packet.toAddress.getEndpoint fib.ourId) = some (.single (.remote link))) :
    ∃ w', fib.send w packet = .ok w' ∧
      (∀ t, (w'.node t).queue = List.replicate ([link.tx].count t) (.wirePacket packet.toWire)) ∧
      ∀ x, (w'.client x).queue = [] := by
  obtain ⟨w', hsend⟩ := hw.send_ok he
  obtain ⟨entry, he', hnode, hclient⟩ := ForwardingTable.send_copies hsend
  obtain rfl := Option.some.inj (he.symm.trans he')
  exact ⟨w', hsend, hw.queues hnode hclient le_rfl (Nat.zero_le 1)⟩

end Wires.Roomy

namespace Transit

section Flight

variable [DecidableEq ι] {s : Transit ι}

/-- Nothing is on its way. -/
def AtRest (s : Transit ι) : Prop := ∀ i t, s.flight i t = []

/-- Only one message is on its way. -/
def OnlyAt (s : Transit ι) (j : ι) (t : Tx) (m : NodeMessage) : Prop :=
  ∀ i u, s.flight i u = if i = j then List.replicate ([t].count u) m else []

theorem OnlyAt.eq_of_mem {j : ι} {t : Tx} {m : NodeMessage} (h : s.OnlyAt j t m) {i : ι} {u : Tx}
    {m' : NodeMessage} (hm : m' ∈ s.flight i u) : i = j ∧ u = t ∧ m' = m := by
  rw [h i u] at hm
  split at hm
  · next hi =>
    obtain ⟨hcount, rfl⟩ := List.mem_replicate.mp hm
    have hmem := List.count_pos_iff.mp (Nat.pos_of_ne_zero hcount)
    exact ⟨hi, List.mem_singleton.mp hmem, rfl⟩
  · cases hm

theorem OnlyAt.mem {j : ι} {t : Tx} {m : NodeMessage} (h : s.OnlyAt j t m) : m ∈ s.flight j t := by
  rw [h j t, if_pos rfl, List.count_singleton_self]
  exact List.mem_singleton_self m

/-- Once it has arrived nothing is left. -/
theorem OnlyAt.arrive {j : ι} {t : Tx} {p : WirePacket} (h : s.OnlyAt j t (.wirePacket p))
    (fib : ι → ForwardingTable) (wire : Wiring ι) : (s.arrive fib wire j t p).AtRest := by
  intro i u
  by_cases hflight : s.flight i u = []
  · apply List.eq_nil_of_length_eq_zero
    have hle := (arrive_flight_sublist s fib wire j t p i u).length_le
    rw [hflight, List.length_nil] at hle
    omega
  · obtain ⟨m, hm⟩ := List.exists_mem_of_ne_nil _ hflight
    obtain ⟨rfl, rfl, rfl⟩ := h.eq_of_mem hm
    have hlen := arrive_flight_length fib wire hm
    rw [h i u, if_pos rfl, List.count_singleton_self, List.length_replicate] at hlen
    exact List.eq_nil_of_length_eq_zero (by omega)

theorem AtRest.post_none (h : s.AtRest) {i : ι} {w : Wires} (hw : ∀ t, (w.node t).queue = []) :
    (s.post i w).AtRest := by
  intro j t
  rw [post_flight, h j t, hw t, ite_self]
  rfl

theorem AtRest.post_one (h : s.AtRest) {i : ι} {w : Wires} {t : Tx} {m : NodeMessage}
    (hw : ∀ u, (w.node u).queue = List.replicate ([t].count u) m) : (s.post i w).OnlyAt i t m := by
  intro j u
  rw [post_flight, h j u, hw u, List.nil_append]

end Flight

section Journey

variable [DecidableEq ι] {db : ι → LsDb} {fib : ι → ForwardingTable} {wire : Wiring ι}
  {src dst : ι} {e : EndpointId} {x : Sender} {packet : Packet} {s : Transit ι}

/-- The packet is on its way to the listener, over the next hop of a node that lies on a
shortest path at this distance from the source. -/
structure Flying (db : ι → LsDb) (fib : ι → ForwardingTable) (src dst : ι) (x : Sender)
    (packet : Packet) (n : ℕ) (s : Transit ι) (j : ι) (link : Link) : Prop where
  hop : (fib j).nextHop.get (db dst).selfId = some link
  way : (db src).spfGraph.OnWay (db src).selfId (db dst).selfId (db j).selfId n
  only : s.OnlyAt j link.tx (.wirePacket packet.toWire)
  sent : 0 < s.sent j link.tx
  inbox : s.inbox dst x = []
  away : src ≠ dst

/-- The listener has the packet; away from its source it comes off the wire. -/
def Delivered (src dst : ι) (x : Sender) (packet : Packet) (s : Transit ι) : Prop :=
  s.inbox dst x = [.message (if src = dst then packet else packet.toWire.toPacket)]

/-- A copy was sent to a node that does not accept it, because its paths use another
neighbour towards the source than the one it came from, at the same cost. -/
def DroppedAtTie (db : ι → LsDb) (fib : ι → ForwardingTable) (wire : Wiring ι) (src : ι)
    (packet : Packet) (s : Transit ι) : Prop :=
  ∃ j t, 0 < s.sent j t ∧ (fib (wire j t).1).accepts packet.toWire (wire j t).2 = false ∧
    (db (wire j t).1).HasTie (db src).selfId

section Steps

variable (net : Converged db fib wire) (bal : Balanced db) (reg : Registered db dst e x)
  (haddr : packet.toAddress.IsFor e (db dst).selfId)
  (hfrom : packet.fromNode = (db src).selfId) {n : ℕ} {j : ι} {link : Link}

include net bal hfrom

/-- What the packet meets at the other end of a next hop. -/
theorem Flying.arrival (h : Flying db fib src dst x packet n s j link) :
    ((fib (wire j link.tx).1).accepts packet.toWire (wire j link.tx).2 = true ∧
      ((wire j link.tx).1 ≠ dst → ∃ next m, n < m ∧
        (fib (wire j link.tx).1).nextHop.get (db dst).selfId = some next ∧
        (db src).spfGraph.OnWay (db src).selfId (db dst).selfId (db (wire j link.tx).1).selfId m ∧
        (fib (wire j link.tx).1).isBackPath packet.toWire next = false)) ∨
    ((fib (wire j link.tx).1).accepts packet.toWire (wire j link.tx).2 = false ∧
      (db (wire j link.tx).1).HasTie (db src).selfId) := by
  obtain ⟨c, hl, m, hm, hedge, hnext⟩ := net.way_next h.way h.hop
  obtain ⟨hid, _⟩ := net.wired j c link hl
  have hsrc : packet.toWire.fromNode = (db src).selfId := hfrom
  rcases bal.accepts_or_tie net hsrc hl rfl hm h.way hedge hnext with
    ⟨ha, hop, hhop, hpeer⟩ | ⟨ha, htie⟩
  · refine Or.inl ⟨ha, fun hi => ?_⟩
    obtain ⟨next, hnext'⟩ := bal.exists_nextHop net hi
    rw [← hid] at hnext
    obtain ⟨_, _, k, _, _, hway⟩ := net.way_next hnext hnext'
    refine ⟨next, n + m, by omega, hnext', hnext, ?_⟩
    have hway' := h.way
    rw [← hpeer] at hway'
    exact ForwardingTable.not_isBackPath hhop hway' hm hway
  · exact Or.inr ⟨ha, htie⟩

include reg haddr

/-- The back-path check stops nothing at the other end. -/
theorem Flying.onward (h : Flying db fib src dst x packet n s j link)
    (ha : (fib (wire j link.tx).1).accepts packet.toWire (wire j link.tx).2 = true)
    {entry : FibEntry} (he : (fib (wire j link.tx).1).table.get
      (packet.toAddress.getEndpoint (fib (wire j link.tx).1).ourId) = some entry) :
    (fib (wire j link.tx).1).onward packet.toWire entry = entry.remotes := by
  by_cases hi : (wire j link.tx).1 = dst
  · rw [hi, reg.table_dst net haddr] at he
    obtain rfl := Option.some.inj he
    rfl
  · rcases h.arrival net bal hfrom with ⟨_, hnext⟩ | ⟨hno, _⟩
    · obtain ⟨next, m, _, hhop, _, hback⟩ := hnext hi
      rw [reg.table_next net bal haddr hi hhop] at he
      obtain rfl := Option.some.inj he
      simp [ForwardingTable.onward, FibEntry.remotes, FibEntry.hops, hback]
    · rw [ha] at hno
      cases hno

/-- A delivery takes the packet one node further, to its listener, or to a tie. -/
theorem Flying.deliver (h : Flying db fib src dst x packet n s j link) {w : Wires} (hw : w.Roomy) :
    (∃ m j' link', n < m ∧ Flying db fib src dst x packet m
      (s.deliver fib wire j link.tx w packet.toWire) j' link') ∨
    ((s.deliver fib wire j link.tx w packet.toWire).AtRest ∧
      (Delivered src dst x packet (s.deliver fib wire j link.tx w packet.toWire) ∨
        DroppedAtTie db fib wire src packet (s.deliver fib wire j link.tx w packet.toWire))) := by
  have hrest := h.only.arrive fib wire
  unfold Transit.deliver
  rcases h.arrival net bal hfrom with ⟨ha, hnext⟩ | ⟨ha, htie⟩
  · by_cases hi : (wire j link.tx).1 = dst
    · -- The listener's node: the packet ends here.
      obtain ⟨hnode, hclient⟩ := hw.forward_loc ha (hi ▸ reg.table_dst net haddr)
      refine Or.inr ⟨hrest.post_none hnode, Or.inl ?_⟩
      unfold Delivered
      rw [post_inbox, if_pos hi.symm, hclient x, List.count_singleton_self, if_neg h.away]
      change s.inbox dst x ++ _ = _
      rw [h.inbox]
      rfl
    · obtain ⟨next, m, hlt, hhop, hway, hback⟩ := hnext hi
      obtain ⟨hnode, hclient⟩ := hw.forward_remote ha hback (reg.table_next net bal haddr hi hhop)
      refine Or.inl ⟨m, _, next, hlt, hhop, hway, hrest.post_one hnode, ?_, ?_, h.away⟩
      · rw [post_sent, if_pos rfl, hnode, List.count_singleton_self]
        exact Nat.succ_pos _
      · rw [post_inbox, if_neg (Ne.symm hi), List.append_nil]
        exact h.inbox
  · rw [ForwardingTable.forward_drops (Or.inl ha)]
    refine Or.inr ⟨hrest.post_none hw.empty.1, Or.inr ⟨j, link.tx, ?_, ha, htie⟩⟩
    rw [post_sent]
    exact Nat.add_pos_left h.sent _

omit hfrom in
/-- A packet that enters away from its listener sets out on a shortest path. -/
theorem inject_phase {w : Wires} (hw : w.Roomy) :
    (∃ n j link, Flying db fib src dst x packet n (inject fib src w packet) j link) ∨
      ((inject fib src w packet).AtRest ∧
        Delivered src dst x packet (inject fib src w packet)) := by
  unfold inject
  by_cases hd : src = dst
  · subst hd
    obtain ⟨w', hsend, hnode, hclient⟩ := hw.send_loc (reg.table_dst net haddr)
    rw [hsend]
    refine Or.inr ⟨AtRest.post_none (fun _ _ => rfl) hnode, ?_⟩
    unfold Delivered
    rw [post_inbox, if_pos rfl, hclient x, List.count_singleton_self, if_pos rfl]
    rfl
  · obtain ⟨link, hhop⟩ := bal.exists_nextHop net hd
    obtain ⟨w', hsend, hnode, hclient⟩ := hw.send_remote (reg.table_next net bal haddr hd hhop)
    rw [hsend]
    obtain ⟨db', hb⟩ := net.built src
    obtain ⟨_, _, ⟨adj, hadj, hpeer, k, hwalk, hmin⟩, _⟩ :=
      LsDb.nextHop_spec hb (net.linksMatch src) hhop
    have hedge := LsDb.edge_of_mem_ownAdjacencies hadj
    rw [hpeer] at hedge
    refine Or.inl ⟨0, src, link, hhop, ⟨.nil _, _, .cons hedge hwalk, fun c hc => ?_⟩,
      AtRest.post_one (fun _ _ => rfl) hnode, ?_, ?_, hd⟩
    · rw [Nat.zero_add]
      exact hmin c hc
    · simp only [post_sent, if_pos, hnode, List.count_singleton_self]
      exact Nat.succ_pos _
    · simp only [post_inbox, hclient, ite_self, List.append_nil]
      rfl

/-- What holds of a packet for one listener in every state it reaches. -/
theorem Reaches.phase (h : Reaches Wires.Roomy fib wire src packet s) :
    ((∃ n j link, Flying db fib src dst x packet n s j link) ∨
      (s.AtRest ∧ (Delivered src dst x packet s ∨ DroppedAtTie db fib wire src packet s))) ∧
    ∀ i, 0 < s.accepted i → ∀ entry,
      (fib i).table.get (packet.toAddress.getEndpoint (fib i).ourId) = some entry →
        (fib i).onward packet.toWire entry = entry.remotes := by
  induction h with
  | inject hw =>
    refine ⟨?_, fun i hi => ?_⟩
    · rcases inject_phase net bal reg haddr hw with hfly | ⟨hrest, hdel⟩
      · exact Or.inl hfly
      · exact Or.inr ⟨hrest, Or.inl hdel⟩
    · unfold Transit.inject at hi
      split at hi
      · exact absurd hi (Nat.lt_irrefl 0)
      · exact absurd hi (Nat.lt_irrefl 0)
  | @deliver s _ i t w p hw hp ih =>
    obtain ⟨⟨n, j, link, hfly⟩ | ⟨hrest, _⟩, hback⟩ := ih
    · obtain ⟨rfl, rfl, heq⟩ := hfly.only.eq_of_mem hp
      obtain rfl := NodeMessage.wirePacket.inj heq
      refine ⟨?_, fun k hk entry he => ?_⟩
      · rcases hfly.deliver net bal reg haddr hfrom hw with ⟨m, j', link', _, hfly'⟩ | hend
        · exact Or.inl ⟨m, j', link', hfly'⟩
        · exact Or.inr hend
      · change 0 < (s.arrive fib wire i link.tx packet.toWire).accepted k at hk
        rw [arrive_accepted] at hk
        split at hk
        · next heq =>
          subst heq
          split at hk
          · next ha => exact hfly.onward net bal reg haddr hfrom ha he
          · exact hback _ hk entry he
        · exact hback k hk entry he
    · rw [hrest i t] at hp
      cases hp

end Steps

/-- One delivery. -/
def Next (env : Wires → Prop) (fib : ι → ForwardingTable) (wire : Wiring ι) (s s' : Transit ι) :
    Prop :=
  ∃ i t w p, env w ∧ .wirePacket p ∈ s.flight i t ∧ s' = s.deliver fib wire i t w p

/-- A packet on its way comes to rest: every delivery takes it further from its source. -/
theorem Flying.comes_to_rest (net : Converged db fib wire) (bal : Balanced db)
    (reg : Registered db dst e x) (haddr : packet.toAddress.IsFor e (db dst).selfId)
    (hfrom : packet.fromNode = (db src).selfId) {n : ℕ} {j : ι} {link : Link}
    (h : Flying db fib src dst x packet n s j link) :
    ∃ s', Relation.ReflTransGen (Next Wires.Roomy fib wire) s s' ∧ s'.AtRest := by
  obtain ⟨c, hwalk⟩ := bal.connected src dst
  induction hk : c - n using Nat.strong_induction_on generalizing n s j link with
  | _ k ih =>
    have hstep : Next Wires.Roomy fib wire s (s.deliver fib wire j link.tx (.idle 1) packet.toWire) :=
      ⟨j, link.tx, .idle 1, packet.toWire, Wires.roomy_idle 0, h.only.mem, rfl⟩
    rcases h.deliver net bal reg haddr hfrom (Wires.roomy_idle 0) with
      ⟨m, j', link', hlt, hfly⟩ | ⟨hrest, _⟩
    · obtain ⟨_, b, _, hmin⟩ := hfly.way
      have hle := hmin c hwalk
      obtain ⟨s', hsteps, hrest⟩ := ih (c - m) (by omega) hfly rfl
      exact ⟨s', Relation.ReflTransGen.head hstep hsteps, hrest⟩
    · exact ⟨_, Relation.ReflTransGen.single hstep, hrest⟩

/-- A packet for one listener comes to rest, the back-path check stops it nowhere, and at
rest its listener has it, unless it was dropped at a node with two neighbours on shortest
paths to its source. -/
theorem delivered_unless_tie (net : Converged db fib wire) (bal : Balanced db)
    (reg : Registered db dst e x) (haddr : packet.toAddress.IsFor e (db dst).selfId)
    (hfrom : packet.fromNode = (db src).selfId) (h : Reaches Wires.Roomy fib wire src packet s) :
    (∃ s', Relation.ReflTransGen (Next Wires.Roomy fib wire) s s' ∧ s'.AtRest) ∧
      (∀ i, 0 < s.accepted i → ∀ entry,
        (fib i).table.get (packet.toAddress.getEndpoint (fib i).ourId) = some entry →
          (fib i).onward packet.toWire entry = entry.remotes) ∧
      (s.AtRest → Delivered src dst x packet s ∨ DroppedAtTie db fib wire src packet s) := by
  obtain ⟨hphase, hback⟩ := h.phase net bal reg haddr hfrom
  refine ⟨?_, hback, fun hrest => ?_⟩
  · rcases hphase with ⟨n, j, link, hfly⟩ | ⟨hrest, _⟩
    · exact hfly.comes_to_rest net bal reg haddr hfrom
    · exact ⟨s, .refl, hrest⟩
  · rcases hphase with ⟨n, j, link, hfly⟩ | ⟨_, hend⟩
    · have hmem := hfly.only.mem
      rw [hrest j link.tx] at hmem
      cases hmem
    · exact hend

end Journey

end Transit

/-- The edges of the square, as its corners list them. -/
theorem square_edge {o : Fin 4} {u v : NodeId} {c : Nat} :
    (squareDb o).spfGraph.Edge u v c ↔
      ∃ i, squareId i = u ∧ ∃ a ∈ squareEnds i, a.2.1 = v ∧ a.2.2.val = c := by
  have hgraph : (squareDb o).spfGraph = (squareDb o).lsaGraph :=
    (square_converged.uniqueRouters o).routerGraph_eq
  have hget : ∀ i, squareLsas.get ⟨squareId i, squareId i⟩ =
      some (routerRecord (squareId i) (squareEnds i)) := by decide +kernel
  rw [hgraph]
  constructor
  · rintro ⟨k, r, adjs, hr, hb, rfl, adj, hadj, hv, hc⟩
    rcases mem_squareLsas hr with rfl | ⟨i, rfl, rfl⟩
    · cases hb
    · obtain rfl := LsaBody.router.inj hb
      obtain ⟨a, ha, rfl⟩ := List.mem_map.mp hadj
      exact ⟨i, rfl, a, ha, hv, hc⟩
  · rintro ⟨i, rfl, a, ha, hv, hc⟩
    exact ⟨_, _, _, hget i, rfl, rfl, _, List.mem_map_of_mem ha, hv, hc⟩

/-- A walk over the square visits corners only, and costs at most two for each. -/
theorem square_visits {o : Fin 4} {u v : NodeId} {l : List NodeId} {c : Nat}
    (h : (squareDb o).spfGraph.Visits u v l c) :
    c ≤ 2 * l.length ∧ (l = [u] ∨ ∀ n ∈ l, n ∈ (List.finRange 4).map squareId) := by
  have hends : ∀ i, ∀ a ∈ squareEnds i,
      a.2.1 ∈ (List.finRange 4).map squareId ∧ a.2.2.val ≤ 2 := by decide
  have hcorner : ∀ i, squareId i ∈ (List.finRange 4).map squareId := by decide
  induction h with
  | nil u => exact ⟨Nat.zero_le _, Or.inl rfl⟩
  | @cons u x v l c d he hv ih =>
    obtain ⟨i, rfl, a, ha, rfl, rfl⟩ := square_edge.mp he
    obtain ⟨hle, hin⟩ := ih
    obtain ⟨hx, hc⟩ := hends i a ha
    refine ⟨by rw [List.length_cons]; omega, Or.inr fun n hn => ?_⟩
    rcases List.mem_cons.mp hn with rfl | hn
    · exact hcorner i
    · rcases hin with rfl | hin
      · rw [List.mem_singleton.mp hn]
        exact hx
      · exact hin n hn

theorem square_edge_symm (o : Fin 4) (u v : NodeId) (c : Nat)
    (h : (squareDb o).spfGraph.Edge u v c) : (squareDb o).spfGraph.Edge v u c := by
  obtain ⟨j, rfl, a, ha, rfl, rfl⟩ := square_edge.mp h
  have hback : ∀ j, ∀ a ∈ squareEnds j, ∃ k, squareId k = a.2.1 ∧
      ∃ b ∈ squareEnds k, b.2.1 = squareId j ∧ b.2.2.val = a.2.2.val := by decide
  exact square_edge.mpr (hback j a ha)

/-- Every corner can be reached from node 1. -/
theorem square_walk (o i : Fin 4) :
    ∃ c, (squareDb o).spfGraph.Walk (squareId 0) (squareId i) c := by
  have hedge : ∀ i, ∀ a ∈ squareEnds i, (squareDb o).spfGraph.Edge (squareId i) a.2.1 a.2.2.val :=
    fun i a ha => square_edge.mpr ⟨i, rfl, a, ha, rfl, rfl⟩
  have h01 := WGraph.Walk.single (hedge 0 (0, 2, ⟨1, by decide⟩) (by decide))
  have h02 := WGraph.Walk.single (hedge 0 (1, 3, ⟨2, by decide⟩) (by decide))
  have h13 := hedge 1 (1, 4, ⟨2, by decide⟩) (by decide)
  match i with
  | 0 => exact ⟨0, .nil _⟩
  | 1 => exact ⟨_, h01⟩
  | 2 => exact ⟨_, h02⟩
  | 3 => exact ⟨_, h01.snoc h13⟩

theorem square_balanced : Balanced squareDb where
  ids := by
    have hinj : Function.Injective squareId := by decide
    exact hinj
  connected i j := by
    obtain ⟨c, hi⟩ := square_walk i i
    obtain ⟨d, hj⟩ := square_walk i j
    exact ⟨c + d, (hi.reverse (square_edge_symm i)).append hj⟩
  symm := square_edge_symm
  single i c c' link link' h h' heq := by
    obtain ⟨a, ha, rfl, rfl⟩ := mem_squareDb_links.mp h
    obtain ⟨b, hb, rfl, rfl⟩ := mem_squareDb_links.mp h'
    have hpeers : ∀ i, ∀ a ∈ squareEnds i, ∀ b ∈ squareEnds i, a.2.1 = b.2.1 → a = b := by decide
    rw [hpeers i a ha b hb heq]
  short i u v c h := by
    obtain ⟨l, hvisits, hnodup⟩ := h
    obtain ⟨hle, hin⟩ := square_visits hvisits
    rcases hin with rfl | hin
    · rw [List.length_singleton] at hle
      omega
    · have hlen := (List.Nodup.subperm hnodup hin).length_le
      rw [List.length_map, List.length_finRange] at hlen
      omega

theorem square_registered : Registered squareDb 3 9 7 where
  lsas i j k := rfl
  loc := by
    have hget : (squareRoutes 3).get 9 =
        some ⟨[⟨.loc 7, 0, .global, .unicast⟩], .unicast⟩ := by decide
    exact ⟨_, hget, Or.inl rfl, List.cons_ne_nil _ _, fun r hr => by rw [List.mem_singleton.mp hr]⟩
  remote i hi := by
    have hget : ∀ i, i ≠ 3 → (squareRoutes i).get 9 =
        some ⟨[⟨.remote 4, 0, .global, .unicast⟩], .unicast⟩ := by decide
    exact ⟨_, hget i hi, Or.inl rfl, List.cons_ne_nil _ _,
      fun r hr => by rw [List.mem_singleton.mp hr]; rfl⟩
  node i hi := by
    have hget : ∀ i, i ≠ 3 → (squareRoutes i).get 4 =
        some ⟨[⟨.remote 4, 0, .global, .node⟩], .node⟩ := by decide
    exact ⟨_, hget i hi, Or.inr rfl, List.cons_ne_nil _ _,
      fun r hr => by rw [List.mem_singleton.mp hr]; rfl⟩

/-- The packet has got to node 4, over node 2. -/
def squareArrived : Transit (Fin 4) :=
  squareForwarded.deliver squareFib squareWire 1 1 (.idle 32) squarePacket.toWire

theorem squareArrived_reached :
    Transit.Reaches Wires.Roomy squareFib squareWire 0 squarePacket squareArrived := by
  have hin : NodeMessage.wirePacket squarePacket.toWire ∈
      (Transit.inject squareFib 0 (.idle 32) squarePacket).flight 0 0 := by decide +kernel
  have hnext : NodeMessage.wirePacket squarePacket.toWire ∈ squareForwarded.flight 1 1 := by
    decide +kernel
  exact .deliver (.deliver (.inject (Wires.roomy_idle 31)) (Wires.roomy_idle 31) hin)
    (Wires.roomy_idle 31) hnext

/-- Node 4 would send to node 1 over node 3, so it drops the packet that came over node 2,
though nothing is on its way any more. -/
theorem squareArrived_atRest : squareArrived.AtRest := by
  have hphase := squareArrived_reached.phase square_converged square_balanced square_registered
    (Or.inl rfl) rfl
  rcases hphase.1 with ⟨n, j, link, hfly⟩ | ⟨hrest, _⟩
  · have hnone : ∀ j, ∀ link ∈ (squareFib j).nextHop.get 4, squareArrived.flight j link.tx = [] := by
      decide +kernel
    have hmem := hfly.only.mem
    rw [hnone j link hfly.hop] at hmem
    cases hmem
  · exact hrest

theorem square_dropped_at_tie :
    squareArrived.AtRest ∧ (Transit.Delivered 0 3 7 squarePacket squareArrived ∨
      Transit.DroppedAtTie squareDb squareFib squareWire 0 squarePacket squareArrived) :=
  ⟨squareArrived_atRest, (Transit.delivered_unless_tie square_converged square_balanced
    square_registered (Or.inl rfl) rfl squareArrived_reached).2.2 squareArrived_atRest⟩

/-- On the square the packet of node 1 never gets to the listener at node 4. -/
theorem square_not_delivered :
    ¬ ∀ (db : Fin 4 → LsDb) (fib : Fin 4 → ForwardingTable) (wire : Wiring (Fin 4)) (src dst : Fin 4)
      (e : EndpointId) (x : Sender) (packet : Packet) (s : Transit (Fin 4)),
      Converged db fib wire → Balanced db → Registered db dst e x →
      packet.toAddress.IsFor e (db dst).selfId → packet.fromNode = (db src).selfId →
      Transit.Reaches Wires.Roomy fib wire src packet s → s.AtRest →
        Transit.Delivered src dst x packet s := by
  intro h
  have hdel := h squareDb squareFib squareWire 0 3 9 7 squarePacket squareArrived square_converged
    square_balanced square_registered (Or.inl rfl) rfl squareArrived_reached squareArrived_atRest
  have hnone : squareArrived.inbox 3 7 = [] := by decide +kernel
  unfold Transit.Delivered at hdel
  rw [hnone] at hdel
  cases hdel

end Anybus
