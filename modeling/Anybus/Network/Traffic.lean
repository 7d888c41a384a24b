import Anybus.Core.Machine
import Anybus.Receivers.Reveal
import Anybus.Router.Copies

/-!
# Where a received packet comes from

Clients at many nodes send packets while the forwarding tables are replaced, the sessions
carry messages in any order or lose them, and listeners take what is in their channels. The
tables may be anything at any time. Still, a listener gets nothing that was not sent, it gets
what was sent as it was sent, and only under an address that leads to it in a table of its
node.
-/

namespace Anybus

/-- A listener is the choice, or among the choices, of a table for an address. -/
def ForwardingTable.Lists (fib : ForwardingTable) (x : Sender) (a : Address) : Prop :=
  ∃ entry, fib.table.get (a.getEndpoint fib.ourId) = some entry ∧ x ∈ entry.locals

namespace ForwardingTable

variable {fib : ForwardingTable} {w w' : Wires}

theorem mem_of_offered {α : Type*} {c : Chan α} {a b : α} {n : Nat}
    (h : a ∈ (c.offerAll (List.replicate n b)).queue) : a ∈ c.queue ∨ a = b ∧ 0 < n := by
  rcases Chan.mem_of_mem_offerAll h with hold | hnew
  · exact Or.inl hold
  · obtain ⟨hn, rfl⟩ := List.mem_replicate.mp hnew
    exact Or.inr ⟨rfl, Nat.pos_of_ne_zero hn⟩

/-- What a client's packet adds to the channels of its node. -/
theorem mem_of_send {packet : Packet} (h : fib.send w packet = .ok w') :
    (∀ t m, m ∈ (w'.node t).queue → m ∈ (w.node t).queue ∨ m = .wirePacket packet.toWire) ∧
      ∀ x m, m ∈ (w'.client x).queue →
        m ∈ (w.client x).queue ∨ m = .message packet ∧ fib.Lists x packet.toAddress := by
  obtain ⟨entry, he, hnode, hclient⟩ := send_copies h
  constructor
  · intro t m hm
    rw [hnode t] at hm
    exact (mem_of_offered hm).imp id And.left
  · intro x m hm
    rw [hclient x] at hm
    refine (mem_of_offered hm).imp id ?_
    rintro ⟨rfl, hcount⟩
    exact ⟨rfl, entry, he, List.count_pos_iff.mp hcount⟩

/-- What a packet from a neighbour adds. -/
theorem mem_of_forward (p : WirePacket) (c : ConnectionId) :
    (∀ t m, m ∈ ((fib.forward w p c).node t).queue → m ∈ (w.node t).queue ∨ m = .wirePacket p) ∧
      ∀ x m, m ∈ ((fib.forward w p c).client x).queue →
        m ∈ (w.client x).queue ∨ m = .message p.toPacket ∧ fib.Lists x p.toAddress := by
  by_cases hdrop : fib.accepts p c = false ∨ fib.table.get (p.toAddress.getEndpoint fib.ourId) = none
  · rw [forward_drops hdrop]
    exact ⟨fun _ _ => Or.inl, fun _ _ => Or.inl⟩
  · obtain ⟨ha, he⟩ := not_or.mp hdrop
    obtain ⟨entry, he⟩ := Option.ne_none_iff_exists'.mp he
    obtain ⟨hnode, hclient⟩ := forward_copies (Bool.eq_true_of_not_eq_false ha) he w
    constructor
    · intro t m hm
      rw [hnode t] at hm
      exact (mem_of_offered hm).imp id And.left
    · intro x m hm
      rw [hclient x] at hm
      refine (mem_of_offered hm).imp id ?_
      rintro ⟨rfl, hcount⟩
      exact ⟨rfl, entry, he, List.count_pos_iff.mp hcount⟩

end ForwardingTable

namespace Wires

def setNode (w : Wires) (t : Tx) (c : Chan NodeMessage) : Wires :=
  { w with node := Function.update w.node t c }

def setClient (w : Wires) (x : Sender) (c : Chan ClientMessage) : Wires :=
  { w with client := Function.update w.client x c }

theorem node_setNode (w : Wires) (t : Tx) (c : Chan NodeMessage) (t' : Tx) :
    (w.setNode t c).node t' = if t' = t then c else w.node t' := Function.update_apply ..

theorem client_setClient (w : Wires) (x : Sender) (c : Chan ClientMessage) (x' : Sender) :
    (w.setClient x c).client x' = if x' = x then c else w.client x' := Function.update_apply ..

end Wires

/-- The channels and tables of all nodes, and what is on its way between them. -/
structure Traffic (ι : Type*) where
  fib : ι → ForwardingTable
  wires : ι → Wires
  /-- Packets that a session has taken out of its channel, and where they will arrive. -/
  flight : List (ι × ConnectionId × WirePacket)
  /-- Every packet that a client has given to its handle, with its node. -/
  sent : List (ι × Packet)
  /-- Every table that a node has had. -/
  tables : ι → List ForwardingTable
  /-- What each listener has taken out of its channel. -/
  received : ι → Sender → List ClientMessage

inductive TrafficEvent (ι : Type*) where
  /-- The router replaces its table. -/
  | publish (i : ι) (fib : ForwardingTable)
  /-- A client sends through its handle. -/
  | send (i : ι) (toAddress : Address) (replyTo : Option Address) (payload : Payload)
  /-- The router has a word for a listener that is no packet. -/
  | notify (i : ι) (x : Sender) (m : ClientMessage)
  /-- The router has a message for a neighbour that is no packet. -/
  | announce (i : ι) (t : Tx) (m : NodeMessage)
  /-- A session takes the oldest message of its channel to the node `j`. -/
  | carry (i : ι) (t : Tx) (j : ι) (c : ConnectionId)
  /-- A packet arrives and is forwarded. -/
  | arrive (n : Nat)
  | lose (n : Nat)
  /-- A listener takes the oldest message of its channel. -/
  | receive (i : ι) (x : Sender)
  | close (i : ι) (x : Sender)

namespace Traffic

variable {ι : Type*} [DecidableEq ι]

/-- The packet that a handle makes of what it is given. -/
def packet (s : Traffic ι) (i : ι) (toAddress : Address) (replyTo : Option Address)
    (payload : Payload) : Packet := ⟨toAddress, replyTo, (s.fib i).ourId, payload⟩

def setWires (s : Traffic ι) (i : ι) (w : Wires) : Traffic ι :=
  { s with wires := Function.update s.wires i w }

/-- One step; `none` if the event cannot happen now. -/
def step (s : Traffic ι) : TrafficEvent ι → Option (Traffic ι)
  | .publish i fib => some { s with
      fib := Function.update s.fib i fib
      tables := Function.update s.tables i (s.tables i ++ [fib]) }
  | .send i toAddress replyTo payload =>
    let packet := s.packet i toAddress replyTo payload
    let s' := { s with sent := s.sent ++ [(i, packet)] }
    match (s.fib i).send (s.wires i) packet with
    | .ok w => some (s'.setWires i w)
    | .error _ => some s'
  | .notify i x m =>
    match m with
    | .message _ => none
    | m => some (s.setWires i ((s.wires i).offerClient x m))
  | .announce i t m =>
    match m with
    | .wirePacket _ => none
    | m => some (s.setWires i ((s.wires i).setNode t (((s.wires i).node t).offer m)))
  | .carry i t j c =>
    match ((s.wires i).node t).queue with
    | [] => none
    | m :: rest =>
      let s' := s.setWires i ((s.wires i).setNode t { (s.wires i).node t with queue := rest })
      match m with
      | .wirePacket p => some { s' with flight := s'.flight ++ [(j, c, p)] }
      | _ => some s'
  | .arrive n =>
    match s.flight[n]? with
    | none => none
    | some (i, c, p) =>
      some ({ s with flight := s.flight.eraseIdx n }.setWires i ((s.fib i).forward (s.wires i) p c))
  | .lose n => some { s with flight := s.flight.eraseIdx n }
  | .receive i x =>
    match ((s.wires i).client x).queue with
    | [] => none
    | m :: rest =>
      let s' := s.setWires i ((s.wires i).setClient x { (s.wires i).client x with queue := rest })
      let taken := Function.update (s.received i) x (s.received i x ++ [m])
      some { s' with received := Function.update s.received i taken }
  | .close i x =>
    some (s.setWires i ((s.wires i).setClient x { (s.wires i).client x with closed := true }))

/-- Nothing was sent, no channel has anything in it, and each node has had one table. The
channels may be of any size, and open or closed. -/
structure Fresh (s : Traffic ι) : Prop where
  node : ∀ i t, ((s.wires i).node t).queue = []
  client : ∀ i x, ((s.wires i).client x).queue = []
  flight : s.flight = []
  tables : ∀ i, s.fib i ∈ s.tables i
  received : ∀ i x, s.received i x = []

def machine : Machine (Traffic ι) (TrafficEvent ι) where
  init := Fresh
  step s event s' := s.step event = some s'

/-- Some client has sent the packet that goes between nodes as `p`. -/
def Carried (s : Traffic ι) (p : WirePacket) : Prop := ∃ j packet, (j, packet) ∈ s.sent ∧ p = packet.toWire

/-- The packet was sent, here or elsewhere, and a table of the node leads to the listener. -/
def Due (s : Traffic ι) (i : ι) (x : Sender) (q : Packet) : Prop :=
  (∃ j packet, (j, packet) ∈ s.sent ∧ (q = packet ∧ j = i ∨ q = packet.toWire.toPacket)) ∧
    ∃ fib ∈ s.tables i, fib.Lists x q.toAddress

structure Inv (s : Traffic ι) : Prop where
  node : ∀ i t p, .wirePacket p ∈ ((s.wires i).node t).queue → s.Carried p
  flight : ∀ j c p, (j, c, p) ∈ s.flight → s.Carried p
  client : ∀ i x q, .message q ∈ ((s.wires i).client x).queue → s.Due i x q
  received : ∀ i x q, .message q ∈ s.received i x → s.Due i x q
  tables : ∀ i, s.fib i ∈ s.tables i

variable {s s' : Traffic ι} {i : ι}

theorem wires_setWires (w : Wires) (j : ι) :
    (s.setWires i w).wires j = if j = i then w else s.wires j := Function.update_apply ..

omit [DecidableEq ι] in
/-- What was sent stays sent, and what was a table of a node stays one. -/
theorem Due.mono {x : Sender} {q : Packet} (h : s.Due i x q) (hsent : s.sent ⊆ s'.sent)
    (htables : s.tables i ⊆ s'.tables i) : s'.Due i x q := by
  obtain ⟨⟨j, packet, hpacket, hq⟩, fib, hfib, hlists⟩ := h
  exact ⟨⟨j, packet, hsent hpacket, hq⟩, fib, htables hfib, hlists⟩

omit [DecidableEq ι] in
theorem Carried.mono {p : WirePacket} (h : s.Carried p) (hsent : s.sent ⊆ s'.sent) : s'.Carried p := by
  obtain ⟨j, packet, hpacket, hp⟩ := h
  exact ⟨j, packet, hsent hpacket, hp⟩

namespace Inv

omit [DecidableEq ι] in
/-- More may have been sent, and there may have been more tables. -/
theorem mono (h : s.Inv) (hwires : s'.wires = s.wires) (hflight : s'.flight ⊆ s.flight)
    (hreceived : s'.received = s.received) (hsent : s.sent ⊆ s'.sent)
    (htables : ∀ i, s.tables i ⊆ s'.tables i) (hfib : ∀ i, s'.fib i ∈ s'.tables i) : s'.Inv := by
  refine ⟨?_, ?_, ?_, ?_, hfib⟩
  · intro i t p hp
    rw [hwires] at hp
    exact (h.node i t p hp).mono hsent
  · intro j c p hp
    exact (h.flight j c p (hflight hp)).mono hsent
  · intro i x q hq
    rw [hwires] at hq
    exact (h.client i x q hq).mono hsent (htables i)
  · intro i x q hq
    rw [hreceived] at hq
    exact (h.received i x q hq).mono hsent (htables i)

/-- Only packets that were sent are added to the channels of a node. -/
theorem setWires (h : s.Inv) {w : Wires}
    (hnode : ∀ t p, .wirePacket p ∈ (w.node t).queue →
      .wirePacket p ∈ ((s.wires i).node t).queue ∨ s.Carried p)
    (hclient : ∀ x q, .message q ∈ (w.client x).queue →
      .message q ∈ ((s.wires i).client x).queue ∨ s.Due i x q) : (s.setWires i w).Inv := by
  refine ⟨?_, h.flight, ?_, h.received, h.tables⟩
  · intro j t p hp
    rw [wires_setWires] at hp
    split at hp
    · exact (hnode t p hp).elim (h.node i t p) id
    · exact h.node j t p hp
  · intro j x q hq
    rw [wires_setWires] at hq
    split at hq
    · next hj =>
      subst hj
      exact (hclient x q hq).elim (h.client j x q) id
    · exact h.client j x q hq

/-- A channel to a neighbour gets no packets that were not in it. -/
theorem setNode (h : s.Inv) {t : Tx} {c : Chan NodeMessage}
    (hc : ∀ p, .wirePacket p ∈ c.queue → .wirePacket p ∈ ((s.wires i).node t).queue) :
    (s.setWires i ((s.wires i).setNode t c)).Inv := by
  refine h.setWires ?_ (fun x q hq => Or.inl hq)
  intro t' p hp
  rw [Wires.node_setNode] at hp
  split at hp
  · next ht =>
    subst ht
    exact Or.inl (hc p hp)
  · exact Or.inl hp

theorem setClient (h : s.Inv) {x : Sender} {c : Chan ClientMessage}
    (hc : ∀ q, .message q ∈ c.queue → .message q ∈ ((s.wires i).client x).queue) :
    (s.setWires i ((s.wires i).setClient x c)).Inv := by
  refine h.setWires (fun t p hp => Or.inl hp) ?_
  intro x' q hq
  rw [Wires.client_setClient] at hq
  split at hq
  · next hx =>
    subst hx
    exact Or.inl (hc q hq)
  · exact Or.inl hq

theorem send (h : s.Inv) (i : ι) (toAddress : Address) (replyTo : Option Address)
    (payload : Payload) (hstep : s.step (.send i toAddress replyTo payload) = some s') : s'.Inv := by
  have hsent : ({ s with sent := s.sent ++ [(i, s.packet i toAddress replyTo payload)] } :
      Traffic ι).Inv :=
    h.mono rfl (List.Subset.refl _) rfl (List.subset_append_left _ _)
      (fun _ => List.Subset.refl _) h.tables
  simp only [step] at hstep
  split at hstep
  · next w hw =>
    cases hstep
    obtain ⟨hnode, hclient⟩ := ForwardingTable.mem_of_send hw
    have hmem : (i, s.packet i toAddress replyTo payload) ∈
        s.sent ++ [(i, s.packet i toAddress replyTo payload)] := List.mem_append_right _ List.mem_cons_self
    refine hsent.setWires ?_ ?_
    · intro t p hp
      refine (hnode t _ hp).imp id ?_
      intro heq
      exact ⟨i, _, hmem, NodeMessage.wirePacket.inj heq⟩
    · intro x q hq
      refine (hclient x _ hq).imp id ?_
      rintro ⟨heq, hlists⟩
      obtain rfl := ClientMessage.message.inj heq
      exact ⟨⟨i, _, hmem, Or.inl ⟨rfl, rfl⟩⟩, s.fib i, h.tables i, hlists⟩
  · cases hstep
    exact hsent

theorem arrive (h : s.Inv) (n : Nat) (hstep : s.step (.arrive n) = some s') : s'.Inv := by
  simp only [step] at hstep
  split at hstep
  · cases hstep
  · next i c p hget =>
    cases hstep
    obtain ⟨j, packet, hpacket, rfl⟩ := h.flight i c p (List.mem_of_getElem? hget)
    obtain ⟨hnode, hclient⟩ := (s.fib i).mem_of_forward (w := s.wires i) packet.toWire c
    have hless : ({ s with flight := s.flight.eraseIdx n } : Traffic ι).Inv :=
      h.mono rfl List.eraseIdx_subset rfl (List.Subset.refl _) (fun _ => List.Subset.refl _) h.tables
    refine hless.setWires ?_ ?_
    · intro t p hp
      refine (hnode t _ hp).imp id ?_
      intro heq
      exact ⟨j, packet, hpacket, NodeMessage.wirePacket.inj heq⟩
    · intro x q hq
      refine (hclient x _ hq).imp id ?_
      rintro ⟨heq, hlists⟩
      obtain rfl := ClientMessage.message.inj heq
      exact ⟨⟨j, packet, hpacket, Or.inr rfl⟩, s.fib i, h.tables i, hlists⟩

theorem carry (h : s.Inv) (i : ι) (t : Tx) (j : ι) (c : ConnectionId)
    (hstep : s.step (.carry i t j c) = some s') : s'.Inv := by
  simp only [step] at hstep
  split at hstep
  · cases hstep
  · next m rest hqueue =>
    have hrest : (s.setWires i ((s.wires i).setNode t { (s.wires i).node t with queue := rest })).Inv := by
      refine h.setNode ?_
      intro p hp
      rw [hqueue]
      exact List.mem_cons_of_mem _ hp
    cases m with
    | wirePacket p =>
      cases hstep
      have hcarried : s.Carried p := h.node i t p (by rw [hqueue]; exact List.mem_cons_self)
      refine ⟨hrest.node, ?_, hrest.client, hrest.received, hrest.tables⟩
      intro j' c' p' hp'
      rcases List.mem_append.mp hp' with hold | hnew
      · exact h.flight j' c' p' hold
      · obtain ⟨rfl, rfl, rfl⟩ : j' = j ∧ c' = c ∧ p' = p := by simpa using hnew
        exact hcarried
    | lsa | lsaAck =>
      cases hstep
      exact hrest

theorem receive (h : s.Inv) (i : ι) (x : Sender) (hstep : s.step (.receive i x) = some s') :
    s'.Inv := by
  simp only [step] at hstep
  split at hstep
  · cases hstep
  · next m rest hqueue =>
    cases hstep
    have hrest : (s.setWires i ((s.wires i).setClient x
        { (s.wires i).client x with queue := rest })).Inv := by
      refine h.setClient ?_
      intro q hq
      rw [hqueue]
      exact List.mem_cons_of_mem _ hq
    refine ⟨hrest.node, hrest.flight, hrest.client, ?_, hrest.tables⟩
    intro j y q hq
    simp only [Function.update_apply] at hq
    split at hq
    · next hj =>
      subst hj
      rw [Function.update_apply] at hq
      split at hq
      · next hy =>
        subst hy
        rcases List.mem_append.mp hq with hold | hnew
        · exact h.received j y q hold
        · obtain rfl := List.mem_singleton.mp hnew
          exact h.client j y q (by rw [hqueue]; exact List.mem_cons_self)
      · exact h.received j y q hq
    · exact h.received j y q hq

/-- Every step keeps the invariant. -/
theorem step {event : TrafficEvent ι} (h : s.Inv) (hstep : s.step event = some s') : s'.Inv := by
  cases event with
  | publish i fib =>
    cases hstep
    refine h.mono rfl (List.Subset.refl _) rfl (List.Subset.refl _) ?_ ?_
    · intro j
      simp only [Function.update_apply]
      split
      · next hj =>
        subst hj
        exact List.subset_append_left _ _
      · exact List.Subset.refl _
    · intro j
      simp only [Function.update_apply]
      split
      · exact List.mem_append_right _ List.mem_cons_self
      · exact h.tables j
  | send i toAddress replyTo payload => exact h.send i toAddress replyTo payload hstep
  | notify i x m =>
    cases m with
    | message q => cases hstep
    | shutdown | failedRegistration | successfulRegistration =>
      cases hstep
      refine h.setClient ?_
      intro q hq
      rw [Chan.offer_eq_offerAll] at hq
      refine (Chan.mem_of_mem_offerAll hq).resolve_right ?_
      simp
  | announce i t m =>
    cases m with
    | wirePacket p => cases hstep
    | lsa | lsaAck =>
      cases hstep
      refine h.setNode ?_
      intro p hp
      rw [Chan.offer_eq_offerAll] at hp
      refine (Chan.mem_of_mem_offerAll hp).resolve_right ?_
      simp
  | carry i t j c => exact h.carry i t j c hstep
  | arrive n => exact h.arrive n hstep
  | lose n =>
    cases hstep
    exact h.mono rfl List.eraseIdx_subset rfl (List.Subset.refl _) (fun _ => List.Subset.refl _)
      h.tables
  | receive i x => exact h.receive i x hstep
  | close i x =>
    cases hstep
    exact h.setClient fun q hq => hq

end Inv

theorem inv (h : machine.Reaches (fun _ _ => True) s) : s.Inv := by
  refine h.invariant ?_ ?_
  · intro s hfresh
    refine ⟨?_, ?_, ?_, ?_, hfresh.tables⟩
    · intro i t p hp
      rw [hfresh.node] at hp
      cases hp
    · intro j c p hp
      rw [hfresh.flight] at hp
      cases hp
    · intro i x q hq
      rw [hfresh.client] at hq
      cases hq
    · intro i x q hq
      rw [hfresh.received] at hq
      cases hq
  · intro s event s' hinv _ hstep
    exact hinv.step hstep

theorem reaches_of_run {events : List (TrafficEvent ι)} (h : Fresh s)
    (hrun : Machine.run step (fun _ _ => True) s events = some s') :
    machine.Reaches (fun _ _ => True) s' :=
  .run (fun _ _ _ hstep => hstep) (.init h) hrun

/-- Whoever gets a packet at an address for values of one type gets a value of this type that
some client has sent to this address, whatever way the packet came and however the tables were
when it did; the answer goes where this client wants it, and the listener was one that a table
of its node had for the address. -/
theorem value_arrives (h : machine.Reaches (fun _ _ => True) s) {i : ι} {x : Sender} {q : Packet}
    (hq : .message q ∈ s.received i x) {V : Nat → Type} (decode : ∀ id, List UInt8 → Option (V id))
    (encode : ∀ id, V id → List UInt8) (id : Nat) (hcodec : ∀ v, decode id (encode id v) = some v)
    (htyped : ∀ j packet, (j, packet) ∈ s.sent → packet.toAddress = q.toAddress →
      ∃ v, packet.payload = (TypedPayload.busRider id v).encoded encode) :
    ∃ j packet v, (j, packet) ∈ s.sent ∧
      packet.payload = (TypedPayload.busRider id v).encoded encode ∧
      (TypedPayload.receiver decode encode id).reveal q.payload = some (.ok (encode id v)) ∧
      packet.toAddress = q.toAddress ∧ packet.replyTo = q.replyTo ∧ packet.fromNode = q.fromNode ∧
      ∃ fib ∈ s.tables i, fib.Lists x q.toAddress := by
  obtain ⟨⟨j, packet, hsent, hcopy⟩, hlists⟩ := (inv h).received i x q hq
  have haddress : packet.toAddress = q.toAddress := by
    rcases hcopy with ⟨rfl, -⟩ | rfl <;> rfl
  obtain ⟨v, hv⟩ := htyped j packet hsent haddress
  have hreveal : ∀ p : TypedPayload V, p.reveal decode id = some (.ok v) →
      (TypedPayload.receiver decode encode id).reveal (p.encoded encode) = some (.ok (encode id v)) := by
    intro p hp
    rw [TypedPayload.reveal_encoded, hp]
    rfl
  refine ⟨j, packet, v, hsent, hv, ?_, haddress, ?_, ?_, hlists⟩
  · rcases hcopy with ⟨rfl, -⟩ | rfl
    · rw [hv]
      exact hreveal _ (TypedPayload.reveal_same v)
    · have hbytes : packet.toWire.toPacket.payload =
          (TypedPayload.bytes (encode id v) : TypedPayload V).encoded encode := by
        rw [WirePacket.toPacket, Packet.toWire, hv]
        rfl
      rw [hbytes]
      refine hreveal _ ?_
      rw [TypedPayload.reveal_bytes, hcodec]
  · rcases hcopy with ⟨rfl, -⟩ | rfl <;> rfl
  · rcases hcopy with ⟨rfl, -⟩ | rfl <;> rfl

/-- The tables of two nodes with a listener of endpoint 9 at the second of them. -/
def twoTables (side : Bool) : ForwardingTable :=
  if side then
    ⟨2, (∅ : HashMap EndpointId FibEntry).insert 9 (.single (.loc 7)), ∅,
      (∅ : HashMap NodeId Link).insert 1 ⟨0, 1, 5, {.userspace}, 0⟩⟩
  else
    ⟨1, (∅ : HashMap EndpointId FibEntry).insert 9 (.single (.remote ⟨0, 2, 4, {.userspace}, 0⟩)), ∅, ∅⟩

def twoNodes : Traffic Bool :=
  ⟨twoTables, fun _ => .idle 32, [], [], fun side => [twoTables side], fun _ _ => []⟩

theorem twoNodes_fresh : twoNodes.Fresh :=
  ⟨fun _ _ => rfl, fun _ _ => rfl, rfl, fun _ => List.mem_cons_self, fun _ _ => rfl⟩

/-- The first node sends a number, which the listener at the second node takes. -/
def numberSent : List (TrafficEvent Bool) :=
  [.send false (.endpoint 9) none (.busRider 0 [3]), .carry false 0 true 5, .arrive 0,
    .receive true 7]

/-- The number arrives. -/
theorem number_arrives : ∃ (s : Traffic Bool) (q : Packet), s.received true 7 = [.message q] ∧
    (TypedPayload.receiver (V := fun _ => UInt8) (fun _ b => b.head?) (fun _ v => [v]) 0).reveal
      q.payload = some (.ok [3]) := by
  have hend : (Machine.run step (fun _ _ => True) twoNodes numberSent).map
      (fun s => (s.received true 7, s.sent)) =
      some ([.message ⟨.endpoint 9, none, 1, .bytes [3]⟩],
        [(false, ⟨.endpoint 9, none, 1, .busRider 0 [3]⟩)]) := by
    decide +kernel
  obtain ⟨s, hrun, hend⟩ := Option.map_eq_some_iff.mp hend
  simp only [Prod.mk.injEq] at hend
  obtain ⟨hreceived, hsent⟩ := hend
  refine ⟨s, _, hreceived, ?_⟩
  have htyped : ∀ j packet, (j, packet) ∈ s.sent → packet.toAddress = .endpoint 9 →
      ∃ v : UInt8, packet.payload =
        (TypedPayload.busRider 0 v : TypedPayload fun _ => UInt8).encoded fun _ v => [v] := by
    intro j packet hmem _
    rw [hsent] at hmem
    obtain ⟨rfl, rfl⟩ := Prod.mk.inj (List.mem_singleton.mp hmem)
    exact ⟨3, rfl⟩
  have htaken : .message ⟨.endpoint 9, none, 1, .bytes [3]⟩ ∈ s.received true 7 := by
    rw [hreceived]
    exact List.mem_cons_self
  obtain ⟨j, packet, v, hmem, hpayload, hreveal, -⟩ :=
    value_arrives (reaches_of_run twoNodes_fresh hrun) htaken (V := fun _ => UInt8)
      (fun _ b => b.head?) (fun _ v => [v]) 0 (fun _ => rfl) htyped
  rw [hsent] at hmem
  obtain ⟨rfl, rfl⟩ := Prod.mk.inj (List.mem_singleton.mp hmem)
  obtain ⟨-, hv⟩ := Payload.busRider.inj hpayload
  have hv : [3] = [v] := hv
  rw [hreveal, hv]

end Traffic

end Anybus
