import Anybus.Network.Delivery
import Anybus.Rpc.Request

/-!
# A call across the network

A request goes to the one listener of an endpoint, which every node knows. Its reply goes to an
endpoint that only the caller's node knows, by the id of that node. Without ties on either way
both arrive, whatever the order of the deliveries.
-/

namespace Anybus

variable {ι : Type*}

/-- Every table takes an address one node nearer to its listener. -/
structure Leads (db : ι → LsDb) (fib : ι → ForwardingTable) (dst : ι) (a : Address) (x : Sender) :
    Prop where
  loc : (fib dst).table.get (a.getEndpoint (fib dst).ourId) = some (.single (.loc x))
  next : ∀ i, i ≠ dst → ∀ link, (fib i).nextHop.get (db dst).selfId = some link →
    (fib i).table.get (a.getEndpoint (fib i).ourId) = some (.single (.remote link))

/-- No node on the way from one node to another has two neighbours on shortest paths back. -/
def ClearWay (db : ι → LsDb) (src dst : ι) : Prop :=
  ∀ i n, (db src).spfGraph.OnWay (db src).selfId (db dst).selfId (db i).selfId n →
    ¬ (db i).HasTie (db src).selfId

/-- A node has a listener that the other nodes know nothing of, and they know the node. -/
structure Homed (db : ι → LsDb) (dst : ι) (e : EndpointId) (x : Sender) : Prop where
  loc : (db dst).RoutesOnly e (.loc x)
  node : ∀ i, i ≠ dst → (db i).RoutesOnly (db dst).selfId (.remote (db dst).selfId)

section

variable {db : ι → LsDb} {fib : ι → ForwardingTable} {wire : Wiring ι} {src dst : ι}
  {e : EndpointId} {x : Sender} {a : Address}

theorem Registered.leads (net : Converged db fib wire) (bal : Balanced db)
    (reg : Registered db dst e x) (ha : a.IsFor e (db dst).selfId) : Leads db fib dst a x :=
  ⟨reg.table_dst net ha, fun _ hi _ hl => reg.table_next net bal ha hi hl⟩

/-- An address that names the node leads to any listener there. -/
theorem Homed.leads (net : Converged db fib wire) (bal : Balanced db)
    (h : Homed db dst e x) : Leads db fib dst (.remote e (db dst).selfId) x := by
  constructor
  · obtain ⟨db', hb⟩ := net.built dst
    rw [LsDb.ourId_of_built hb]
    have hkey : (Address.remote e (db dst).selfId).getEndpoint (db dst).selfId = e := if_pos rfl
    rw [hkey]
    exact h.loc.table_loc hb
  · intro i hi link hl
    obtain ⟨db', hb⟩ := net.built i
    rw [LsDb.ourId_of_built hb]
    have hne : (db i).selfId ≠ (db dst).selfId := fun heq => hi (bal.ids heq)
    have hkey : (Address.remote e (db dst).selfId).getEndpoint (db i).selfId = (db dst).selfId :=
      if_neg hne
    rw [hkey]
    exact (h.node i hi).table_remote hb hl

end

namespace Transit

variable [DecidableEq ι] {db : ι → LsDb} {fib : ι → ForwardingTable} {wire : Wiring ι}
  {src dst : ι} {x : Sender} {packet : Packet} {s : Transit ι} {n : ℕ} {j : ι} {link : Link}

section Journey

variable (net : Converged db fib wire) (bal : Balanced db)
  (leads : Leads db fib dst packet.toAddress x) (clear : ClearWay db src dst)
  (hfrom : packet.fromNode = (db src).selfId)

include net bal clear hfrom

/-- A packet on a clear way is accepted at the next node, which knows where it goes on. -/
theorem Flying.accepted (h : Flying db fib src dst x packet n s j link) :
    (fib (wire j link.tx).1).accepts packet.toWire (wire j link.tx).2 = true ∧
      ((wire j link.tx).1 ≠ dst → ∃ next m, n < m ∧
        (fib (wire j link.tx).1).nextHop.get (db dst).selfId = some next ∧
        (db src).spfGraph.OnWay (db src).selfId (db dst).selfId (db (wire j link.tx).1).selfId m ∧
        (fib (wire j link.tx).1).isBackPath packet.toWire next = false) := by
  obtain harrival | ⟨-, htie⟩ := h.arrival net bal hfrom
  · exact harrival
  · obtain ⟨c, hl, m, -, -, hnext⟩ := net.way_next h.way h.hop
    rw [← (net.wired j c link hl).1] at hnext
    exact absurd htie (clear _ _ hnext)

include leads

/-- A delivery takes the packet one node further, or to its listener. -/
theorem Flying.forwarded (h : Flying db fib src dst x packet n s j link) {w : Wires} (hw : w.Roomy) :
    (∃ m j' link', n < m ∧ Flying db fib src dst x packet m
      (s.deliver fib wire j link.tx w packet.toWire) j' link') ∨
    ((s.deliver fib wire j link.tx w packet.toWire).AtRest ∧
      Delivered src dst x packet (s.deliver fib wire j link.tx w packet.toWire)) := by
  have hrest := h.only.arrive fib wire
  obtain ⟨haccepts, hnext⟩ := h.accepted net bal clear hfrom
  unfold Transit.deliver
  by_cases hi : (wire j link.tx).1 = dst
  · obtain ⟨hnode, hclient⟩ := hw.forward_loc haccepts (hi ▸ leads.loc)
    refine .inr ⟨hrest.post_none hnode, ?_⟩
    unfold Delivered
    rw [post_inbox, if_pos hi.symm, hclient x, List.count_singleton_self, if_neg h.away]
    change s.inbox dst x ++ _ = _
    rw [h.inbox]
    rfl
  · obtain ⟨next, m, hlt, hhop, hway, hback⟩ := hnext hi
    obtain ⟨hnode, hclient⟩ := hw.forward_remote haccepts hback (leads.next _ hi next hhop)
    refine .inl ⟨m, _, next, hlt, hhop, hway, hrest.post_one hnode, ?_, ?_, h.away⟩
    · rw [post_sent, if_pos rfl, hnode, List.count_singleton_self]
      exact Nat.succ_pos _
    · rw [post_inbox, if_neg (Ne.symm hi), List.append_nil]
      exact h.inbox

omit clear hfrom in
/-- A packet that enters is there, or sets out on a shortest path. -/
theorem inject_forwarded {w : Wires} (hw : w.Roomy) :
    (∃ n j link, Flying db fib src dst x packet n (inject fib src w packet) j link) ∨
      ((inject fib src w packet).AtRest ∧
        Delivered src dst x packet (inject fib src w packet)) := by
  unfold inject
  by_cases hd : src = dst
  · subst hd
    obtain ⟨w', hsend, hnode, hclient⟩ := hw.send_loc leads.loc
    rw [hsend]
    refine .inr ⟨AtRest.post_none (fun _ _ => rfl) hnode, ?_⟩
    unfold Delivered
    rw [post_inbox, if_pos rfl, hclient x, List.count_singleton_self, if_pos rfl]
    rfl
  · obtain ⟨link, hhop⟩ := bal.exists_nextHop net hd
    obtain ⟨w', hsend, hnode, hclient⟩ := hw.send_remote (leads.next src hd link hhop)
    rw [hsend]
    obtain ⟨db', hb⟩ := net.built src
    obtain ⟨_, _, ⟨adj, hadj, hpeer, k, hwalk, hmin⟩, _⟩ :=
      LsDb.nextHop_spec hb (net.linksMatch src) hhop
    have hedge := LsDb.edge_of_mem_ownAdjacencies hadj
    rw [hpeer] at hedge
    refine .inl ⟨0, src, link, hhop, ⟨.nil _, _, .cons hedge hwalk, fun c hc => ?_⟩,
      AtRest.post_one (fun _ _ => rfl) hnode, ?_, ?_, hd⟩
    · rw [Nat.zero_add]
      exact hmin c hc
    · simp only [post_sent, if_pos, hnode, List.count_singleton_self]
      exact Nat.succ_pos _
    · simp only [post_inbox, hclient, ite_self, List.append_nil]
      rfl

/-- In every state a packet on a clear way is on its way, or it is there. -/
theorem Reaches.forwarded (h : Reaches Wires.Roomy fib wire src packet s) :
    (∃ n j link, Flying db fib src dst x packet n s j link) ∨
      (s.AtRest ∧ Delivered src dst x packet s) := by
  induction h with
  | inject hw => exact inject_forwarded net bal leads hw
  | @deliver s _ i t w p hw hp ih =>
    obtain ⟨n, j, link, hfly⟩ | ⟨hrest, -⟩ := ih
    · obtain ⟨rfl, rfl, heq⟩ := hfly.only.eq_of_mem hp
      obtain rfl := NodeMessage.wirePacket.inj heq
      obtain ⟨m, j', link', -, hfly'⟩ | hend := hfly.forwarded net bal leads clear hfrom hw
      · exact .inl ⟨m, j', link', hfly'⟩
      · exact .inr hend
    · rw [hrest i t] at hp
      cases hp

/-- Every delivery takes it further from its source, so that it arrives. -/
theorem Flying.arrives (h : Flying db fib src dst x packet n s j link) :
    ∃ s', Relation.ReflTransGen (Next Wires.Roomy fib wire) s s' ∧ s'.AtRest := by
  obtain ⟨c, hwalk⟩ := bal.connected src dst
  induction hk : c - n using Nat.strong_induction_on generalizing n s j link with
  | _ k ih =>
    have hstep : Next Wires.Roomy fib wire s (s.deliver fib wire j link.tx (.idle 1) packet.toWire) :=
      ⟨j, link.tx, .idle 1, packet.toWire, Wires.roomy_idle 0, h.only.mem, rfl⟩
    obtain ⟨m, j', link', hlt, hfly⟩ | ⟨hrest, -⟩ :=
      h.forwarded net bal leads clear hfrom (Wires.roomy_idle 0)
    · obtain ⟨_, b, _, hmin⟩ := hfly.way
      have hle := hmin c hwalk
      obtain ⟨s', hsteps, hrest⟩ := ih (c - m) (by omega) hfly rfl
      exact ⟨s', Relation.ReflTransGen.head hstep hsteps, hrest⟩
    · exact ⟨_, Relation.ReflTransGen.single hstep, hrest⟩

/-- On a clear way a packet comes to rest, and then its listener has it and nothing else. -/
theorem Reaches.delivered (h : Reaches Wires.Roomy fib wire src packet s) :
    (∃ s', Relation.ReflTransGen (Next Wires.Roomy fib wire) s s' ∧ s'.AtRest) ∧
      (s.AtRest → Delivered src dst x packet s) := by
  obtain ⟨n, j, link, hfly⟩ | ⟨hrest, hdelivered⟩ := h.forwarded net bal leads clear hfrom
  · refine ⟨hfly.arrives net bal leads clear hfrom, fun hrest => ?_⟩
    have hmem := hfly.only.mem
    rw [hrest j link.tx] at hmem
    cases hmem
  · exact ⟨⟨s, .refl, hrest⟩, fun _ => hdelivered⟩

end Journey

/-- A run that goes on is a run. -/
theorem Reaches.steps {env : Wires → Prop} {s' : Transit ι} (h : Reaches env fib wire src packet s)
    (hsteps : Relation.ReflTransGen (Next env fib wire) s s') :
    Reaches env fib wire src packet s' := by
  induction hsteps with
  | refl => exact h
  | tail _ hnext ih =>
    obtain ⟨i, t, w, p, hw, hp, rfl⟩ := hnext
    exact .deliver ih hw hp

/-- What the listener takes off its channel is the packet, or what is left of it off a wire. -/
theorem Delivered.message (h : Delivered src dst x packet s) :
    ∃ q, s.inbox dst x = [.message q] ∧ q.replyTo = packet.replyTo ∧
      ∀ decode typeId value, packet.payload = .busRider typeId value →
        decode typeId value = some value → q.payload.reveal decode typeId = some (.ok value) := by
  refine ⟨if src = dst then packet else packet.toWire.toPacket, h, ?_, ?_⟩
  · split <;> rfl
  · intro decode typeId value hpayload hdecode
    split
    · rw [hpayload]
      exact if_pos rfl
    · have hbytes : packet.toWire.toPacket.payload = .bytes value := by
        change Payload.bytes packet.payload.toBytes = _
        rw [hpayload]
        rfl
      rw [hbytes]
      simp only [Payload.reveal, hdecode]

/-- A call across a converged network: the request comes to rest at the service, which reads it
as it was sent, and any reply that it gives comes to rest at the helper of the caller, which
returns it. Nothing else arrives at either of them. -/
theorem call_answered (net : Converged db fib wire) (bal : Balanced db) {e : EndpointId}
    {y : Sender} {helper : RequestHelper} (service : Registered db dst e x)
    (home : Homed db src helper.responseEndpointId y) (there : ClearWay db src dst)
    (back : ClearWay db dst src) {decode : Nat → List UInt8 → Option (List UInt8)}
    {requestType : Nat} {request : List UInt8} (hrequest : decode requestType request = some request)
    (h : Reaches Wires.Roomy fib wire src
      (helper.packet (fib src) e (.busRider requestType request)) s) :
    (∃ s', Relation.ReflTransGen (Next Wires.Roomy fib wire) s s' ∧ s'.AtRest) ∧
    (s.AtRest → ∃ q rpc, s.inbox dst x = [.message q] ∧
      recvRpc decode requestType q = some (.ok rpc) ∧ rpc.payload = request ∧
      ∀ responseType response, decode responseType response = some response → ∀ s₂,
        Reaches Wires.Roomy fib wire dst (rpc.reply (fib dst) (.busRider responseType response)) s₂ →
        (∃ s', Relation.ReflTransGen (Next Wires.Roomy fib wire) s₂ s' ∧ s'.AtRest) ∧
        (s₂.AtRest → ∃ q', s₂.inbox src y = [.message q'] ∧
          RequestHelper.answer decode responseType (some (.message q')) = some (.ok response))) := by
  have hid : ∀ i, (fib i).ourId = (db i).selfId := by
    intro i
    obtain ⟨db', hb⟩ := net.built i
    exact LsDb.ourId_of_built hb
  obtain ⟨hends, hthere⟩ :=
    h.delivered net bal (service.leads net bal (.inl rfl)) there (hid src)
  refine ⟨hends, fun hrest => ?_⟩
  obtain ⟨q, hq, hreply, hreveal⟩ := (hthere hrest).message
  have hrecv : recvRpc decode requestType q =
      some (.ok ⟨.remote helper.responseEndpointId (fib src).ourId, request⟩) := by
    unfold recvRpc
    rw [hreply]
    simp only [RequestHelper.packet, hreveal decode requestType request rfl hrequest,
      Option.map_some]
  refine ⟨q, _, hq, hrecv, rfl, ?_⟩
  intro responseType response hresponse s₂ h₂
  have hhome : Leads db fib src (.remote helper.responseEndpointId (fib src).ourId) y := by
    rw [hid src]
    exact home.leads net bal
  obtain ⟨hends₂, hback⟩ := h₂.delivered net bal hhome back (hid dst)
  refine ⟨hends₂, fun hrest₂ => ?_⟩
  obtain ⟨q', hq', -, hreveal'⟩ := (hback hrest₂).message
  refine ⟨q', hq', ?_⟩
  simp only [RequestHelper.answer, hreveal' decode responseType response rfl hresponse,
    Option.map_some]

end Transit

/-- The distances of the corners of the square. -/
def squareFar : Fin 4 → Fin 4 → Nat
  | 0, 0 => 0
  | 0, 1 => 1
  | 0, 2 => 2
  | 0, 3 => 3
  | 1, 0 => 1
  | 1, 1 => 0
  | 1, 2 => 3
  | 1, 3 => 2
  | 2, 0 => 2
  | 2, 1 => 3
  | 2, 2 => 0
  | 2, 3 => 1
  | 3, 0 => 3
  | 3, 1 => 2
  | 3, 2 => 1
  | 3, 3 => 0

/-- No walk over the square is shorter: no edge leads further than it costs. -/
theorem squareFar_le {o i j : Fin 4} {c : Nat}
    (h : (squareDb o).spfGraph.Walk (squareId i) (squareId j) c) : squareFar i j ≤ c := by
  have hinj : ∀ i j, squareId i = squareId j → i = j := by decide
  have hself : ∀ i, squareFar i i = 0 := by decide
  have hends : ∀ i, ∀ a ∈ squareEnds i, ∃ k, squareId k = a.2.1 ∧
      ∀ j, squareFar i j ≤ a.2.2.val + squareFar k j := by decide
  generalize hu : squareId i = u at h
  generalize hv : squareId j = v at h
  induction h generalizing i with
  | nil u =>
    rw [hinj i j (hu.trans hv.symm), hself]
  | @cons u x v c d he _ ih =>
    obtain ⟨i', hi', a, ha, hx, hcost⟩ := square_edge.mp he
    obtain rfl := hinj _ _ (hu.trans hi'.symm)
    obtain ⟨k, hk, hle⟩ := hends i a ha
    have hrest := ih (hk.trans hx) hv
    have hfar := hle j
    omega

/-- Two corners of which one is the only nearest neighbour of the other towards itself. -/
theorem square_clear {s d : Fin 4}
    (hedge : ∃ a ∈ squareEnds s, a.2.1 = squareId d ∧ a.2.2.val = 2)
    (hback : ∃ a ∈ squareEnds d, a.2.1 = squareId s ∧ a.2.2.val = 2)
    (hends : ∀ i, squareFar s i + squareFar i d ≤ 2 → i = s ∨ i = d)
    (hone : ∀ a ∈ squareEnds d, ∀ k, squareId k = a.2.1 → a.2.2.val + squareFar k s ≤ 2 →
      a.2.1 = squareId s) : ClearWay squareDb s d := by
  have hcorner : ∀ i, ∀ a ∈ squareEnds i, 0 < a.2.2.val ∧ ∃ k, squareId k = a.2.1 := by decide
  -- A link that begins a shortest path to `s` belongs to an end that is near enough.
  have hbegin : ∀ {i link c}, (squareDb i).BeginsShortest link (squareId s) →
      (squareDb i).spfGraph.Walk (squareId i) (squareId s) c →
      ∃ a ∈ squareEnds i, a.2.1 = link.peerId ∧
        ∃ k, squareId k = a.2.1 ∧ a.2.2.val + squareFar k s ≤ c := by
    rintro i link c ⟨adj, hadj, hpeer, k, hwalk, hmin⟩ hc
    rw [squareDb_ownAdjacencies] at hadj
    obtain ⟨a, ha, rfl⟩ := List.mem_map.mp hadj
    obtain ⟨-, j, hj⟩ := hcorner i a ha
    refine ⟨a, ha, hpeer, j, hj, ?_⟩
    have hpeer : a.2.1 = link.peerId := hpeer
    rw [← hpeer, ← hj] at hwalk
    exact (Nat.add_le_add_left (squareFar_le hwalk) _).trans (hmin c hc)
  rintro i n ⟨hthere, b, hon, hmin⟩ ⟨c, c', link, link', hl, hl', hne, hbegins, hbegins'⟩
  obtain ⟨a, ha, hpeer, hcost⟩ := hedge
  have hle := hmin 2 (.single (square_edge.mpr ⟨s, rfl, a, ha, hpeer, hcost⟩))
  have hfar : squareFar s i + squareFar i d ≤ 2 :=
    (Nat.add_le_add (squareFar_le hthere) (squareFar_le hon)).trans hle
  obtain rfl | rfl := hends i hfar
  · obtain ⟨a, ha, -, k, -, hsum⟩ := hbegin hbegins (.nil _)
    have hpos := (hcorner i a ha).1
    omega
  · obtain ⟨a, ha, hpeer, hcost⟩ := hback
    have hwalk := WGraph.Walk.single (square_edge (o := i).mpr ⟨i, rfl, a, ha, hpeer, hcost⟩)
    obtain ⟨a, ha, hlink, k, hk, hsum⟩ := hbegin hbegins hwalk
    obtain ⟨b, hb, hlink', l, hl, hsum'⟩ := hbegin hbegins' hwalk
    refine hne ?_
    rw [← hlink, ← hlink', hone a ha k hk hsum, hone b hb l hl hsum']

/-- The corners of the square, with a caller's endpoint 12 at node 2. -/
def callDb (i : Fin 4) : LsDb :=
  { squareDb i with
    routes := if i = 1 then
      ⟨(squareRoutes 1).insert 12 ⟨[⟨.loc 5, 0, .process, .unicast⟩], .unicast⟩⟩
    else ⟨squareRoutes i⟩ }

def callFib (i : Fin 4) : ForwardingTable :=
  ((callDb i).buildFib.map Prod.snd).getD (.new (squareId i))

theorem call_converged : Converged callDb callFib squareWire := by
  refine square_converged.of_routers ?_ (fun _ _ => rfl) (fun _ => rfl) (fun _ => rfl) fun _ => rfl
  intro i
  have hsome : ∀ i, ((callDb i).buildFib).isSome = true := by decide +kernel
  obtain ⟨⟨db', fib⟩, hb⟩ := Option.isSome_iff_exists.mp (hsome i)
  refine ⟨db', ?_⟩
  rw [callFib, hb]
  rfl

theorem call_balanced : Balanced callDb :=
  ⟨square_balanced.ids, square_balanced.connected, square_balanced.symm, square_balanced.single,
    square_balanced.short⟩

theorem call_registered : Registered callDb 3 9 7 where
  lsas i j k := rfl
  loc := square_registered.loc
  remote i hi := by
    have hget : ∀ i, i ≠ 3 → (callDb i).routes.table.get 9 =
        some ⟨[⟨.remote 4, 0, .global, .unicast⟩], .unicast⟩ := by decide +kernel
    exact ⟨_, hget i hi, .inl rfl, List.cons_ne_nil _ _,
      fun r hr => by rw [List.mem_singleton.mp hr]; rfl⟩
  node i hi := by
    have hget : ∀ i, i ≠ 3 → (callDb i).routes.table.get 4 =
        some ⟨[⟨.remote 4, 0, .global, .node⟩], .node⟩ := by decide +kernel
    exact ⟨_, hget i hi, .inr rfl, List.cons_ne_nil _ _,
      fun r hr => by rw [List.mem_singleton.mp hr]; rfl⟩

theorem call_homed : Homed callDb 1 12 5 where
  loc := by
    have hget : (callDb 1).routes.table.get 12 =
        some ⟨[⟨.loc 5, 0, .process, .unicast⟩], .unicast⟩ := by decide +kernel
    exact ⟨_, hget, .inl rfl, List.cons_ne_nil _ _, fun r hr => by rw [List.mem_singleton.mp hr]⟩
  node i hi := by
    have hget : ∀ i, i ≠ 1 → (callDb i).routes.table.get 2 =
        some ⟨[⟨.remote 2, 0, .global, .node⟩], .node⟩ := by decide +kernel
    exact ⟨_, hget i hi, .inr rfl, List.cons_ne_nil _ _,
      fun r hr => by rw [List.mem_singleton.mp hr]; rfl⟩

/-- Every value is its own encoding. -/
def rawDecode : Nat → List UInt8 → Option (List UInt8) := fun _ bytes => some bytes

def callPacket : Packet := (⟨12⟩ : RequestHelper).packet (callFib 1) 9 (.busRider 1 [6])

/-- Node 2 asks the service at node 4 and gets its answer. -/
theorem square_call_answered :
    ∃ s, Transit.Reaches Wires.Roomy callFib squareWire 1 callPacket s ∧ s.AtRest ∧
      ∃ q rpc, s.inbox 3 7 = [.message q] ∧ recvRpc rawDecode 1 q = some (.ok rpc) ∧
        ∃ s₂, Transit.Reaches Wires.Roomy callFib squareWire 3
            (rpc.reply (callFib 3) (.busRider 2 [6, 6])) s₂ ∧ s₂.AtRest ∧
          ∃ q', s₂.inbox 1 5 = [.message q'] ∧
            RequestHelper.answer rawDecode 2 (some (.message q')) = some (.ok [6, 6]) := by
  have hthere : ClearWay callDb 1 3 :=
    square_clear (by decide) (by decide) (by decide) (by decide)
  have hback : ClearWay callDb 3 1 :=
    square_clear (by decide) (by decide) (by decide) (by decide)
  have hdecode : rawDecode 1 [6] = some [6] := rfl
  have hsent : Transit.Reaches Wires.Roomy callFib squareWire 1 callPacket
      (Transit.inject callFib 1 (.idle 32) callPacket) := .inject (Wires.roomy_idle 31)
  obtain ⟨s, hsteps, hrest⟩ := (Transit.call_answered call_converged call_balanced call_registered
    call_homed hthere hback hdecode hsent).1
  have hs := hsent.steps hsteps
  obtain ⟨q, rpc, hq, hrpc, -, hreply⟩ := (Transit.call_answered call_converged call_balanced
    call_registered call_homed hthere hback hdecode hs).2 hrest
  have hreturned : Transit.Reaches Wires.Roomy callFib squareWire 3
      (rpc.reply (callFib 3) (.busRider 2 [6, 6]))
      (Transit.inject callFib 3 (.idle 32) (rpc.reply (callFib 3) (.busRider 2 [6, 6]))) :=
    .inject (Wires.roomy_idle 31)
  obtain ⟨s₂, hsteps₂, hrest₂⟩ := (hreply 2 [6, 6] rfl _ hreturned).1
  have hs₂ := hreturned.steps hsteps₂
  exact ⟨s, hs, hrest, q, rpc, hq, hrpc, s₂, hs₂, hrest₂, (hreply 2 [6, 6] rfl s₂ hs₂).2 hrest₂⟩

end Anybus
