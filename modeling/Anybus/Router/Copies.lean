import Anybus.Linkstate.ForwardTable

/-!
# The copies a packet leaves

Sending and forwarding put copies of one packet into the channels of an entry's links
and listeners: into each as many as the entry names it, less what the channel refuses.
-/

namespace Anybus

/-- Offer one message to several links in turn. -/
theorem foldl_offerNode (links : List Link) (w : Wires) (m : NodeMessage) :
    (∀ t, (links.foldl (fun w link => w.offerNode link m) w).node t =
      (w.node t).offerAll (List.replicate ((links.map Link.tx).count t) m)) ∧
    (links.foldl (fun w link => w.offerNode link m) w).client = w.client := by
  induction links generalizing w with
  | nil => simp
  | cons link links ih =>
    obtain ⟨hnode, hclient⟩ := ih (w.offerNode link m)
    refine ⟨fun t => ?_, hclient⟩
    rw [List.foldl_cons, hnode t]
    simp only [Wires.offerNode]
    by_cases ht : link.tx = t
    · subst ht
      rw [Function.update_self, List.map_cons, List.count_cons_self, List.replicate_succ,
        Chan.offerAll_cons]
    · rw [Function.update_of_ne (Ne.symm ht), List.map_cons, List.count_cons_of_ne ht]

/-- Offer one message to several listeners in turn. -/
theorem foldl_offerClient (senders : List Sender) (w : Wires) (m : ClientMessage) :
    (∀ s, (senders.foldl (fun w sender => w.offerClient sender m) w).client s =
      (w.client s).offerAll (List.replicate (senders.count s) m)) ∧
    (senders.foldl (fun w sender => w.offerClient sender m) w).node = w.node := by
  induction senders generalizing w with
  | nil => simp
  | cons sender senders ih =>
    obtain ⟨hclient, hnode⟩ := ih (w.offerClient sender m)
    refine ⟨fun s => ?_, hnode⟩
    rw [List.foldl_cons, hclient s]
    simp only [Wires.offerClient]
    by_cases hs : sender = s
    · subst hs
      rw [Function.update_self, List.count_cons_self, List.replicate_succ, Chan.offerAll_cons]
    · rw [Function.update_of_ne (Ne.symm hs), List.count_cons_of_ne hs]

namespace ForwardingTable

/-- A packet passes the checks on the one connection of the next hop towards its source. -/
theorem accepts_iff {fib : ForwardingTable} {p : WirePacket} {c : ConnectionId} :
    fib.accepts p c = true ↔ p.fromNode ≠ fib.ourId ∧
      ∃ link, fib.nextHop.get p.fromNode = some link ∧ link.connectionId = c := by
  unfold accepts
  by_cases hfrom : p.fromNode = fib.ourId
  · simp [hfrom]
  · cases fib.nextHop.get p.fromNode <;> simp [hfrom]

/-- The links of an entry that do not lead back towards the source of a packet. -/
def onward (fib : ForwardingTable) (p : WirePacket) (entry : FibEntry) : List Link :=
  entry.remotes.filter fun link => !fib.isBackPath p link

/-- A packet that passes the checks is copied to the listeners and the onward links of its
entry. -/
theorem forward_copies {fib : ForwardingTable} {p : WirePacket} {c : ConnectionId}
    {entry : FibEntry} (ha : fib.accepts p c = true)
    (he : fib.table.get (p.toAddress.getEndpoint fib.ourId) = some entry) (w : Wires) :
    (∀ t, (fib.forward w p c).node t = (w.node t).offerAll
      (List.replicate (((fib.onward p entry).map Link.tx).count t) (.wirePacket p))) ∧
    ∀ s, (fib.forward w p c).client s = (w.client s).offerAll
      (List.replicate (entry.locals.count s) (.message p.toPacket)) := by
  have heq : fib.forward w p c = (fib.onward p entry).foldl
      (fun w link => w.offerNode link (.wirePacket p))
      (entry.locals.foldl (fun w tx => w.offerClient tx (.message p.toPacket)) w) := by
    unfold forward onward
    rw [if_pos ha, he]
    simp only [List.foldl_filter]
    congr 1
    funext w link
    unfold txRemote
    cases fib.isBackPath p link <;> rfl
  obtain ⟨hclient, hnode⟩ := foldl_offerClient entry.locals w (.message p.toPacket)
  obtain ⟨hnode', hclient'⟩ := foldl_offerNode (fib.onward p entry)
    (entry.locals.foldl (fun w tx => w.offerClient tx (.message p.toPacket)) w) (.wirePacket p)
  rw [heq]
  refine ⟨fun t => ?_, fun s => ?_⟩
  · rw [hnode' t, hnode]
  · rw [hclient', hclient s]

/-- Any other packet is dropped. -/
theorem forward_drops {fib : ForwardingTable} {p : WirePacket} {c : ConnectionId}
    (h : fib.accepts p c = false ∨ fib.table.get (p.toAddress.getEndpoint fib.ourId) = none)
    (w : Wires) : fib.forward w p c = w := by
  unfold forward
  rcases h with ha | he
  · rw [if_neg (by simp [ha])]
  · rw [he]
    simp

/-- A broadcast is copied to all hops. -/
theorem foldl_sendHop (packet : Packet) (hops : List FibForwardTo) (w : Wires) :
    (∀ t, (hops.foldl (sendHop packet) w).node t = (w.node t).offerAll (List.replicate
      (((FibEntry.multiCast hops).remotes.map Link.tx).count t) (.wirePacket packet.toWire))) ∧
    ∀ s, (hops.foldl (sendHop packet) w).client s = (w.client s).offerAll
      (List.replicate ((FibEntry.multiCast hops).locals.count s) (.message packet)) := by
  induction hops generalizing w with
  | nil => simp [FibEntry.remotes, FibEntry.locals, FibEntry.hops]
  | cons hop hops ih =>
    obtain ⟨hnode, hclient⟩ := ih (sendHop packet w hop)
    rw [List.foldl_cons]
    cases hop with
    | loc sender =>
      refine ⟨hnode, fun s => ?_⟩
      have hone := (foldl_offerClient [sender] w (.message packet)).1 s
      have hlocals : (FibEntry.multiCast (.loc sender :: hops)).locals =
          [sender] ++ (FibEntry.multiCast hops).locals := rfl
      rw [hclient s, hlocals, List.count_append, List.replicate_add, Chan.offerAll_append]
      exact congrArg (fun c : Chan ClientMessage => c.offerAll _) hone
    | remote link =>
      refine ⟨fun t => ?_, hclient⟩
      have hone := (foldl_offerNode [link] w (.wirePacket packet.toWire)).1 t
      have hremotes : (FibEntry.multiCast (.remote link :: hops)).remotes =
          [link] ++ (FibEntry.multiCast hops).remotes := rfl
      rw [hnode t, hremotes, List.map_append, List.count_append, List.replicate_add,
        Chan.offerAll_append]
      exact congrArg (fun c : Chan NodeMessage => c.offerAll _) hone

/-- A packet of a local client is copied to the listeners and the links of its entry. -/
theorem send_copies {fib : ForwardingTable} {packet : Packet} {w w' : Wires}
    (h : fib.send w packet = .ok w') :
    ∃ entry, fib.table.get (packet.toAddress.getEndpoint fib.ourId) = some entry ∧
      (∀ t, w'.node t = (w.node t).offerAll (List.replicate
        ((entry.remotes.map Link.tx).count t) (.wirePacket packet.toWire))) ∧
      ∀ s, w'.client s = (w.client s).offerAll
        (List.replicate (entry.locals.count s) (.message packet)) := by
  unfold send at h
  split at h
  · cases h
  · next sender he =>
    refine ⟨_, he, ?_⟩
    split at h
    · next c hc =>
      have hw : w' = [FibForwardTo.loc sender].foldl (sendHop packet) w := by
        rw [← Except.ok.inj h]
        simp [sendHop, Wires.offerClient, Chan.offer, hc, Except.toOption]
      rw [hw]
      exact foldl_sendHop packet [.loc sender] w
    · cases h
  · next link he =>
    refine ⟨_, he, ?_⟩
    split at h
    · next c hc =>
      have hw : w' = [FibForwardTo.remote link].foldl (sendHop packet) w := by
        rw [← Except.ok.inj h]
        simp [sendHop, Wires.offerNode, Chan.offer, hc, Except.toOption]
      rw [hw]
      exact foldl_sendHop packet [.remote link] w
    · cases h
  · next hops he =>
    refine ⟨_, he, ?_⟩
    rw [← Except.ok.inj h]
    exact foldl_sendHop packet hops w

end ForwardingTable

end Anybus
