import Anybus.Ws.Node

/-!
# A removed peer stays removed

The address of a peer is in one of the manager's lists, in a task that connects to it, or in
a command that waits. Only a request to add it brings a new address in, so an address that is
in none of these places stays away. A removal clears the lists, except for further sessions
to the address; it does not reach the tasks and the queue.
-/

namespace Anybus

def StreamDirection.url : StreamDirection → Option WsUrl
  | .inbound => none
  | .outbound config => some config.url

theorem StreamDirection.isToUrl_iff {direction : StreamDirection} {url : WsUrl} :
    direction.isToUrl url = true ↔ direction.url = some url := by
  cases direction with
  | inbound => simp [isToUrl, StreamDirection.url]
  | outbound config => simp [isToUrl, StreamDirection.url]

def WsPendingPeer.url (peer : WsPendingPeer) : WsUrl := peer.config.url

/-- The address a command brings back to the manager. -/
def WsCommand.url : WsCommand → Option WsUrl
  | .newWsStream wsPendingPeer _ => wsPendingPeer.map WsPendingPeer.url
  | .peerClosed _ => none
  | .queueReconnect wsPendingPeer => some wsPendingPeer.url

/-- The address a request or command brings to the manager. -/
def WsInput.url : WsInput → Option WsUrl
  | .addPeer peerConfig _ => some peerConfig.url
  | .command c _ _ => c.url
  | _ => none

namespace WebsocketManager

/-- The addresses in the manager's lists. -/
def addresses (m : WebsocketManager) : List WsUrl :=
  m.pendingPeers.map WsPendingPeer.url ++ m.disconnectedPeers.map WsPendingPeer.url ++
    m.currentPeers.filterMap fun p => p.direction.url

variable {m m' : WebsocketManager} {now : Instant} {url : WsUrl}

theorem mem_addresses : url ∈ m.addresses ↔ (∃ p ∈ m.pendingPeers, p.url = url) ∨
    (∃ p ∈ m.disconnectedPeers, p.url = url) ∨
    ∃ e ∈ m.currentPeers, e.direction.url = some url := by
  unfold addresses
  rw [List.mem_append, List.mem_append, List.mem_map, List.mem_map, List.mem_filterMap, or_assoc]

/-- Scheduling brings in no other address. -/
theorem mem_schedule {peers : List WsPendingPeer} {pending p : WsPendingPeer}
    (h : p ∈ schedule peers pending) : p = pending ∨ p ∈ peers := by
  unfold schedule at h
  split at h
  · exact List.eq_or_mem_of_mem_insertIdx h
  · exact Or.inr h

/-- The addresses a reaction leaves with the manager, and those it starts to connect to. -/
def leaves (r : WebsocketManager × List WsAction) : List WsUrl :=
  r.1.addresses ++ (r.2.filterMap WsAction.connects).map WsPendingPeer.url

theorem leaves_of_silent {r : WebsocketManager × List WsAction}
    (h : ∀ action ∈ r.2, action.connects = none) : leaves r = r.1.addresses := by
  unfold leaves
  rw [List.filterMap_eq_nil_iff.mpr h]
  exact List.append_nil _

theorem leaves_getNextReadyPeer {peer : WsPendingPeer}
    (h : m.getNextReadyPeer now = some (peer, m')) (hurl : url ∈ leaves (m'.connectRemote peer)) :
    url ∈ m.addresses := by
  obtain ⟨rest, hpeers, rfl⟩ := getNextReadyPeer_cases h
  rw [mem_addresses, hpeers]
  obtain hurl | hurl := List.mem_append.mp hurl
  · obtain hp | ⟨p, hp, rfl⟩ | he := mem_addresses.mp hurl
    · exact Or.inl hp
    · exact Or.inr (Or.inl ⟨p, List.mem_cons_of_mem _ hp, rfl⟩)
    · exact Or.inr (Or.inr he)
  · obtain ⟨p, hp, rfl⟩ := List.mem_map.mp hurl
    have heq : p = peer := List.mem_singleton.mp hp
    exact Or.inr (Or.inl ⟨peer, List.mem_cons_self, by rw [heq]⟩)

theorem leaves_dueNow {peer : WsPendingPeer} (h : m.dueNow now = some (peer, m'))
    (hurl : url ∈ leaves (m', [.connectToPeer peer])) : url ∈ m.addresses := by
  unfold dueNow at h
  split at h
  · next last hlast =>
    cases h
    rw [mem_addresses]
    obtain hurl | hurl := List.mem_append.mp hurl
    · obtain ⟨p, hp, rfl⟩ | hrest := mem_addresses.mp hurl
      · exact Or.inl ⟨p, List.mem_of_mem_dropLast hp, rfl⟩
      · exact Or.inr hrest
    · obtain ⟨p, hp, rfl⟩ := List.mem_map.mp hurl
      have heq : p = peer := List.mem_singleton.mp hp
      exact Or.inl ⟨peer, List.mem_of_getLast? hlast, by rw [heq]⟩
  · exact leaves_getNextReadyPeer h hurl

theorem addresses_peerClosed {peerId : NodeId} (h : url ∈ (m.peerClosed peerId now).addresses) :
    url ∈ m.addresses := by
  have hentries : ∀ e ∈ m.currentPeers.eraseP fun p => p.peerId = peerId, e ∈ m.currentPeers :=
    fun e he => List.eraseP_sublist.subset he
  unfold peerClosed at h
  rw [mem_addresses]
  cases hfind : m.currentPeers.find? fun p => p.peerId = peerId with
  | none =>
    simp only [hfind] at h
    exact mem_addresses.mp h
  | some closedPeer =>
    simp only [hfind] at h
    cases hdir : closedPeer.direction with
    | inbound =>
      simp only [hdir] at h
      obtain hp | hp | ⟨e, he, hurl⟩ := mem_addresses.mp h
      · exact Or.inl hp
      · exact Or.inr (Or.inl hp)
      · exact Or.inr (Or.inr ⟨e, hentries e he, hurl⟩)
    | outbound config =>
      simp only [hdir] at h
      obtain hp | ⟨p, hp, rfl⟩ | ⟨e, he, hurl⟩ := mem_addresses.mp h
      · exact Or.inl hp
      · obtain rfl | hp := mem_schedule hp
        · -- The address of the entry that goes.
          refine Or.inr (Or.inr ⟨closedPeer, List.mem_of_find?_eq_some hfind, ?_⟩)
          rw [hdir]
          rfl
        · exact Or.inr (Or.inl ⟨p, hp, rfl⟩)
      · exact Or.inr (Or.inr ⟨e, hentries e he, hurl⟩)

theorem leaves_handleCommand {command : WsCommand} {connectionId : ConnectionId}
    (h : url ∈ leaves (m.handleCommand command now connectionId)) :
    url ∈ m.addresses ∨ command.url = some url := by
  cases command with
  | peerClosed peerId =>
    rw [handleCommand, leaves_of_silent (by simp)] at h
    exact Or.inl (addresses_peerClosed h)
  | queueReconnect peer =>
    rw [handleCommand, queueReconnect, leaves_of_silent (by simp)] at h
    obtain hp | ⟨p, hp, rfl⟩ | he := mem_addresses.mp h
    · exact Or.inl (mem_addresses.mpr (Or.inl hp))
    · obtain rfl | hp := mem_schedule hp
      · exact Or.inr rfl
      · exact Or.inl (mem_addresses.mpr (Or.inr (Or.inl ⟨p, hp, rfl⟩)))
    · exact Or.inl (mem_addresses.mpr (Or.inr (Or.inr he)))
  | newWsStream wsPendingPeer peerId =>
    have hsilent : ∀ action ∈ (m.newWsStream wsPendingPeer peerId connectionId).2,
        action.connects = none := by
      simp [newWsStream, WsAction.connects]
    rw [handleCommand, leaves_of_silent hsilent] at h
    obtain hp | hp | ⟨e, he, hurl⟩ := mem_addresses.mp h
    · exact Or.inl (mem_addresses.mpr (Or.inl hp))
    · exact Or.inl (mem_addresses.mpr (Or.inr (Or.inl hp)))
    · obtain he | he := List.mem_append.mp he
      · exact Or.inl (mem_addresses.mpr (Or.inr (Or.inr ⟨e, he, hurl⟩)))
      · cases List.mem_singleton.mp he
        cases wsPendingPeer with
        | none => cases hurl
        | some peer => exact Or.inr hurl

theorem leaves_removeWsPeer (m : WebsocketManager) (url : WsUrl) :
    leaves (m.removeWsPeer url) = (m.removeWsPeer url).1.addresses := by
  refine leaves_of_silent ?_
  unfold removeWsPeer
  cases m.currentPeers.find? fun p => p.direction.isToUrl url with
  | none => simp [WsAction.connects]
  | some peer => simp [WsAction.connects]

theorem addresses_removeWsPeer {url' : WsUrl} (h : url ∈ (m.removeWsPeer url').1.addresses) :
    url ∈ m.addresses := by
  obtain ⟨p, hp, rfl⟩ | ⟨p, hp, rfl⟩ | ⟨e, he, hurl⟩ := mem_addresses.mp h
  · exact mem_addresses.mpr (Or.inl ⟨p, List.mem_of_mem_filter hp, rfl⟩)
  · exact mem_addresses.mpr (Or.inr (Or.inl ⟨p, List.mem_of_mem_filter hp, rfl⟩))
  · exact mem_addresses.mpr (Or.inr (Or.inr ⟨e, List.eraseP_sublist.subset he, hurl⟩))

/-- A removal leaves no address behind, except that of a second session. -/
theorem not_mem_addresses_removeWsPeer
    (h : (m.currentPeers.countP fun p => p.direction.isToUrl url) ≤ 1) :
    url ∉ (m.removeWsPeer url).1.addresses := by
  intro hurl
  obtain ⟨p, hp, hpurl⟩ | ⟨p, hp, hpurl⟩ | ⟨e, he, heurl⟩ := mem_addresses.mp hurl
  · obtain ⟨-, hother⟩ := List.mem_filter.mp hp
    exact of_decide_eq_true hother hpurl
  · obtain ⟨-, hother⟩ := List.mem_filter.mp hp
    exact of_decide_eq_true hother hpurl
  · have hto := StreamDirection.isToUrl_iff.mpr heurl
    obtain ⟨first, before, after, -, hfirst, hsplit, herase⟩ :=
      List.exists_of_eraseP (p := fun p => p.direction.isToUrl url)
        (List.eraseP_sublist.subset he) hto
    have hsecond : 0 < (before ++ after).countP fun p => p.direction.isToUrl url := by
      rw [← herase]
      exact List.countP_pos_iff.mpr ⟨e, he, hto⟩
    rw [hsplit, List.countP_append, List.countP_cons, if_pos hfirst] at h
    rw [List.countP_append] at hsecond
    omega

/-- What a manager reacts to brings in no address of its own accord. -/
theorem leaves_react {input : WsInput} (h : url ∈ leaves (m.react input)) :
    url ∈ m.addresses ∨ input.url = some url := by
  cases input with
  | timeout now =>
    simp only [react] at h
    split at h
    · next hready => exact Or.inl (leaves_getNextReadyPeer hready h)
    · rw [leaves_of_silent (by simp)] at h
      exact Or.inl h
  | addPeer peerConfig now =>
    simp only [react, addWsPeer] at h
    split at h
    · rw [leaves_of_silent (by simp [WsAction.connects])] at h
      exact Or.inl h
    · rw [leaves_of_silent (by simp [WsAction.connects])] at h
      obtain ⟨p, hp, rfl⟩ | hrest := mem_addresses.mp h
      · obtain hp | hp := List.mem_append.mp hp
        · exact Or.inl (mem_addresses.mpr (Or.inl ⟨p, hp, rfl⟩))
        · cases List.mem_singleton.mp hp
          exact Or.inr rfl
      · exact Or.inl (mem_addresses.mpr (Or.inr hrest))
  | removePeer url' =>
    rw [react, leaves_removeWsPeer] at h
    exact Or.inl (addresses_removeWsPeer h)
  | command command now connectionId => exact leaves_handleCommand h
  | resuming clock =>
    rw [react, onResume, leaves_of_silent (by simp [WsAction.connects])] at h
    obtain hp | ⟨p, hp, rfl⟩ | he := mem_addresses.mp h
    · exact Or.inl (mem_addresses.mpr (Or.inl hp))
    · rw [List.mem_insertionSort] at hp
      obtain ⟨i, hi, rfl⟩ := List.mem_mapIdx.mp hp
      exact Or.inl (mem_addresses.mpr (Or.inr (Or.inl ⟨_, List.getElem_mem hi, rfl⟩)))
    · exact Or.inl (mem_addresses.mpr (Or.inr (Or.inr he)))
  | otherStatus =>
    rw [react, leaves_of_silent (by simp)] at h
    exact Or.inl h
  | shuttingDown =>
    rw [react, shutdown, leaves_of_silent (by simp [WsAction.connects])] at h
    obtain hp | hp | ⟨e, he, -⟩ := mem_addresses.mp h
    · exact Or.inl (mem_addresses.mpr (Or.inl hp))
    · exact Or.inl (mem_addresses.mpr (Or.inr (Or.inl hp)))
    · cases he

end WebsocketManager

namespace WsNode

/-- The addresses that tasks and commands are going to bring back. -/
def inFlight (s : WsNode) : List WsUrl :=
  s.connecting.map WsPendingPeer.url ++ s.handshaking.filterMap (Option.map WsPendingPeer.url) ++
    s.queue.filterMap fun q => q.command.url

/-- The rule for removals: a removal that finds its peer is handled only when no task or
command is going to bring the address back and at most one session to it is listed. -/
def RemovesAll (s : WsNode) : WsNodeEvent → Prop
  | .turn now (.request (.removePeer url)) => s.manager.dueNow now = none → finds s.manager url →
      url ∉ s.inFlight ∧ (s.manager.currentPeers.countP fun p => p.direction.isToUrl url) ≤ 1
  | _ => True

instance (s : WsNode) (event : WsNodeEvent) : Decidable (s.RemovesAll event) :=
  match event with
  | .turn now (.request (.removePeer url)) => inferInstanceAs (Decidable
      (s.manager.dueNow now = none → finds s.manager url → url ∉ s.inFlight ∧
        (s.manager.currentPeers.countP fun p => p.direction.isToUrl url) ≤ 1))
  | .turn _ (.next _ _) => .isTrue trivial
  | .turn _ (.request (.timeout _)) => .isTrue trivial
  | .turn _ (.request (.addPeer _ _)) => .isTrue trivial
  | .turn _ (.request (.command _ _ _)) => .isTrue trivial
  | .turn _ (.request (.resuming _)) => .isTrue trivial
  | .turn _ (.request .otherStatus) => .isTrue trivial
  | .turn _ (.request .shuttingDown) => .isTrue trivial
  | .accept => .isTrue trivial
  | .connected _ => .isTrue trivial
  | .connectFailed _ => .isTrue trivial
  | .greeted _ _ => .isTrue trivial
  | .handshakeFailed _ => .isTrue trivial
  | .sessionEnds _ => .isTrue trivial

variable {s s' : WsNode} {url : WsUrl}

/-- Everywhere an address can be. -/
def Knows (s : WsNode) (url : WsUrl) : Prop := url ∈ s.manager.addresses ∨ url ∈ s.inFlight

theorem mem_inFlight : url ∈ s.inFlight ↔ (∃ p ∈ s.connecting, p.url = url) ∨
    (∃ p ∈ s.handshaking, p.map WsPendingPeer.url = some url) ∨
    ∃ q ∈ s.queue, q.command.url = some url := by
  unfold inFlight
  rw [List.mem_append, List.mem_append, List.mem_map, List.mem_filterMap, List.mem_filterMap,
    or_assoc]

/-- The tasks the manager spawns take over the addresses it gives away. -/
theorem knows_act {r : WebsocketManager × List WsAction} (h : (s.act r).Knows url) :
    url ∈ WebsocketManager.leaves r ∨ url ∈ s.inFlight := by
  obtain h | h := h
  · exact Or.inl (List.mem_append_left _ h)
  · obtain ⟨p, hp, rfl⟩ | hrest := mem_inFlight.mp h
    · obtain hp | hp := List.mem_append.mp hp
      · exact Or.inr (mem_inFlight.mpr (Or.inl ⟨p, hp, rfl⟩))
      · exact Or.inl (List.mem_append_right _ (List.mem_map_of_mem hp))
    · exact Or.inr (mem_inFlight.mpr (Or.inr hrest))

theorem inFlight_noteReport (s : WsNode) (q : QueuedCommand) :
    (s.noteReport q).inFlight = s.inFlight ∧ (s.noteReport q).removed = s.removed := by
  unfold noteReport
  split
  · exact ⟨rfl, rfl⟩
  · exact ⟨rfl, rfl⟩

theorem inFlight_noteRequest (s : WsNode) (input : WsInput) :
    (s.noteRequest input).inFlight = s.inFlight := by
  cases input with
  | removePeer | addPeer | timeout | command | resuming | otherStatus | shuttingDown => rfl

/-- A command at the end of the queue brings its own address. -/
theorem knows_enqueue {command : WsCommand} (h : (s.enqueue command).Knows url) :
    s.Knows url ∨ command.url = some url := by
  obtain h | h := h
  · exact Or.inl (Or.inl h)
  · obtain hp | hp | ⟨q, hq, hurl⟩ := mem_inFlight.mp h
    · exact Or.inl (Or.inr (mem_inFlight.mpr (Or.inl hp)))
    · exact Or.inl (Or.inr (mem_inFlight.mpr (Or.inr (Or.inl hp))))
    · obtain hq | hq := List.mem_append.mp hq
      · exact Or.inl (Or.inr (mem_inFlight.mpr (Or.inr (Or.inr ⟨q, hq, hurl⟩))))
      · cases List.mem_singleton.mp hq
        exact Or.inr hurl

/-- Without some of its tasks a node knows no more. -/
theorem Knows.of_dropped {connecting : List WsPendingPeer}
    {handshaking : List (Option WsPendingPeer)}
    (h : Knows { s with connecting := connecting, handshaking := handshaking } url)
    (hconnecting : ∀ p ∈ connecting, p ∈ s.connecting)
    (hhandshaking : ∀ p ∈ handshaking, p ∈ s.handshaking ∨ p.map WsPendingPeer.url ≠ some url) :
    s.Knows url := by
  obtain h | h := h
  · exact Or.inl h
  · refine Or.inr (mem_inFlight.mpr ?_)
    obtain ⟨p, hp, hurl⟩ | ⟨p, hp, hurl⟩ | hq := mem_inFlight.mp h
    · exact Or.inl ⟨p, hconnecting p hp, hurl⟩
    · obtain hp | hother := hhandshaking p hp
      · exact Or.inr (Or.inl ⟨p, hp, hurl⟩)
      · exact absurd hurl hother
    · exact Or.inr (Or.inr hq)

/-- Tasks and sessions only pass addresses on. -/
theorem knows_task {event : WsNodeEvent} (htask : ∀ now wake, event ≠ .turn now wake)
    (hs : s.step event = some s') (h : s'.Knows url) : s.Knows url := by
  cases event with
  | turn now wake => exact absurd rfl (htask now wake)
  | accept =>
    cases hs
    refine h.of_dropped (fun p hp => hp) fun p hp => ?_
    obtain hp | hp := List.mem_append.mp hp
    · exact Or.inl hp
    · cases List.mem_singleton.mp hp
      exact Or.inr (by simp)
  | connected i =>
    obtain ⟨peer, hi, rfl⟩ := Option.map_eq_some_iff.mp hs
    by_cases hurl : peer.url = url
    · exact Or.inr (mem_inFlight.mpr (Or.inl ⟨peer, List.mem_of_getElem? hi, hurl⟩))
    · refine h.of_dropped (fun p hp => List.mem_of_mem_eraseIdx hp) fun p hp => ?_
      obtain hp | hp := List.mem_append.mp hp
      · exact Or.inl hp
      · cases List.mem_singleton.mp hp
        exact Or.inr (by simpa using hurl)
  | connectFailed i =>
    obtain ⟨peer, hi, rfl⟩ := Option.map_eq_some_iff.mp hs
    obtain h | hurl := knows_enqueue h
    · exact h.of_dropped (fun p hp => List.mem_of_mem_eraseIdx hp) fun p hp => Or.inl hp
    · cases hurl
      exact Or.inr (mem_inFlight.mpr (Or.inl ⟨peer, List.mem_of_getElem? hi, rfl⟩))
  | greeted i peerId =>
    obtain ⟨pending, hi, rfl⟩ := Option.map_eq_some_iff.mp hs
    obtain h | hurl := knows_enqueue h
    · exact h.of_dropped (fun p hp => hp) fun p hp => Or.inl (List.mem_of_mem_eraseIdx hp)
    · exact Or.inr (mem_inFlight.mpr (Or.inr (Or.inl ⟨pending, List.mem_of_getElem? hi, hurl⟩)))
  | handshakeFailed i =>
    obtain ⟨pending, hi, rfl⟩ := Option.map_eq_some_iff.mp hs
    cases pending with
    | none => exact h.of_dropped (fun p hp => hp) fun p hp => Or.inl (List.mem_of_mem_eraseIdx hp)
    | some peer =>
      obtain h | hurl := knows_enqueue h
      · exact h.of_dropped (fun p hp => hp) fun p hp => Or.inl (List.mem_of_mem_eraseIdx hp)
      · exact Or.inr (mem_inFlight.mpr (Or.inr (Or.inl ⟨_, List.mem_of_getElem? hi, hurl⟩)))
  | sessionEnds i =>
    obtain ⟨entry, -, rfl⟩ := Option.map_eq_some_iff.mp hs
    obtain h | h := h
    · exact Or.inl h
    · refine Or.inr (mem_inFlight.mpr ?_)
      obtain hp | hp | ⟨q, hq, hurl⟩ := mem_inFlight.mp h
      · exact Or.inl hp
      · exact Or.inr (Or.inl hp)
      · obtain hq | hq := List.mem_append.mp hq
        · exact Or.inr (Or.inr ⟨q, hq, hurl⟩)
        · -- A report brings no address.
          cases List.mem_singleton.mp hq
          cases hurl

/-- Handling a command takes its address over from the queue. -/
theorem knows_command {q : QueuedCommand} {rest : List QueuedCommand} (hqueue : s.queue = q :: rest)
    {now : Instant} {connectionId : ConnectionId}
    (h : (({ s with queue := rest }.noteReport q).act
      (s.manager.handleCommand q.command now connectionId)).Knows url) : s.Knows url := by
  obtain h | h := knows_act h
  · obtain h | hurl := WebsocketManager.leaves_handleCommand h
    · exact Or.inl h
    · refine Or.inr (mem_inFlight.mpr (Or.inr (Or.inr ⟨q, ?_, hurl⟩)))
      rw [hqueue]
      exact List.mem_cons_self
  · rw [(inFlight_noteReport _ q).1] at h
    refine Or.inr (mem_inFlight.mpr ?_)
    obtain hp | hp | ⟨q', hq', hurl⟩ := mem_inFlight.mp h
    · exact Or.inl hp
    · exact Or.inr (Or.inl hp)
    · refine Or.inr (Or.inr ⟨q', ?_, hurl⟩)
      rw [hqueue]
      exact List.mem_cons_of_mem _ hq'

/-- No peer that has been removed is known anywhere. -/
def RemovedUnknown (s : WsNode) : Prop := ∀ url ∈ s.removed, ¬s.Knows url

theorem RemovedUnknown.request (h : s.RemovedUnknown) {input : WsInput}
    (hinput : ∀ command now connectionId, input ≠ .command command now connectionId)
    (hall : ∀ url, input = .removePeer url → finds s.manager url → url ∉ s.inFlight ∧
      (s.manager.currentPeers.countP fun p => p.direction.isToUrl url) ≤ 1) :
    ((s.noteRequest input).act (s.manager.react input)).RemovedUnknown := by
  intro url hurl hknows
  have hknown : s.Knows url ∨ input.url = some url := by
    obtain hleft | hflight := knows_act hknows
    · exact (WebsocketManager.leaves_react hleft).imp_left Or.inl
    · rw [inFlight_noteRequest] at hflight
      exact Or.inl (Or.inr hflight)
  cases input with
  | command command now connectionId => exact hinput _ _ _ rfl
  | addPeer peerConfig now =>
    obtain ⟨hurl, hother⟩ := List.mem_filter.mp hurl
    obtain hknown | hadded := hknown
    · exact h url hurl hknown
    · cases hadded
      exact of_decide_eq_true hother rfl
  | removePeer url' =>
    have hbefore : s.Knows url := hknown.resolve_right fun heq => by cases heq
    simp only [act, noteRequest] at hurl
    split at hurl
    · next hfinds =>
      obtain rfl | hurl := List.mem_cons.mp hurl
      · obtain ⟨hflight, hsingle⟩ := hall url rfl hfinds
        obtain hleft | hleft := knows_act hknows
        · rw [WebsocketManager.react, WebsocketManager.leaves_removeWsPeer] at hleft
          exact WebsocketManager.not_mem_addresses_removeWsPeer hsingle hleft
        · exact hflight hleft
      · exact h url hurl hbefore
    · exact h url hurl hbefore
  | timeout | resuming | otherStatus | shuttingDown =>
    exact h url hurl (hknown.resolve_right fun heq => by cases heq)

theorem removed_task {event : WsNodeEvent} (htask : ∀ now wake, event ≠ .turn now wake)
    (hs : s.step event = some s') : s'.removed = s.removed := by
  cases event with
  | turn now wake => exact absurd rfl (htask now wake)
  | accept =>
    cases hs
    rfl
  | handshakeFailed i =>
    obtain ⟨pending, -, rfl⟩ := Option.map_eq_some_iff.mp hs
    cases pending with
    | none => rfl
    | some peer => rfl
  | connected | connectFailed | greeted | sessionEnds =>
    obtain ⟨_, -, rfl⟩ := Option.map_eq_some_iff.mp hs
    rfl

theorem RemovedUnknown.turn (h : s.RemovedUnknown) {now : Instant} {wake : WsWake}
    (hall : s.RemovesAll (.turn now wake)) (hs : s.step (.turn now wake) = some s') :
    s'.RemovedUnknown := by
  obtain ⟨-, ⟨peer, m, hdue, rfl⟩ | ⟨hdue, ⟨now', connectionId, q, rest, rfl, hqueue, rfl⟩ |
    ⟨input, rfl, hinput, rfl⟩⟩⟩ := turn_cases hs
  · intro url hurl hknows
    refine h url hurl ?_
    obtain hleft | hflight := knows_act hknows
    · exact Or.inl (WebsocketManager.leaves_dueNow hdue hleft)
    · exact Or.inr hflight
  · intro url hurl hknows
    refine h url ?_ (knows_command hqueue hknows)
    rwa [act, (inFlight_noteReport _ q).2] at hurl
  · refine h.request hinput fun url hremove hfinds => ?_
    subst hremove
    exact hall hdue hfinds

theorem removedUnknown_of_reaches (h : machine.Reaches RemovesAll s) : s.RemovedUnknown := by
  refine h.invariant ?_ ?_
  · rintro s ⟨wsPeers, clock, rfl⟩ url hurl
    cases hurl
  · intro s event s' hunknown hall hs
    by_cases hturn : ∃ now wake, event = .turn now wake
    · obtain ⟨now, wake, rfl⟩ := hturn
      exact hunknown.turn hall hs
    · have htask : ∀ now wake, event ≠ .turn now wake := fun now wake heq => hturn ⟨now, wake, heq⟩
      intro url hurl hknows
      rw [removed_task htask hs] at hurl
      exact hunknown url hurl (knows_task htask hs hknows)

/-- If every removal that finds its peer is handled when no task or command is going to bring
the address back and at most one session to it is listed, then a peer that has been removed
and not been added since is neither pending nor disconnected, and no session to it is listed. -/
theorem removed_peer_stays_removed (h : machine.Reaches RemovesAll s) {url : WsUrl}
    (hurl : url ∈ s.removed) :
    (∀ p ∈ s.manager.pendingPeers, p.config.url ≠ url) ∧
    (∀ p ∈ s.manager.disconnectedPeers, p.config.url ≠ url) ∧
    ∀ e ∈ s.manager.currentPeers, e.direction.isToUrl url = false := by
  have hunknown : url ∉ s.manager.addresses := fun hin =>
    removedUnknown_of_reaches h url hurl (Or.inl hin)
  rw [WebsocketManager.mem_addresses, not_or, not_or] at hunknown
  obtain ⟨hpending, hdisconnected, hcurrent⟩ := hunknown
  refine ⟨fun p hp heq => hpending ⟨p, hp, heq⟩, fun p hp heq => hdisconnected ⟨p, hp, heq⟩,
    fun e he => ?_⟩
  rw [Bool.eq_false_iff]
  exact fun hto => hcurrent ⟨e, he, StreamDirection.isToUrl_iff.mp hto⟩

/-- A peer of the configuration. -/
def farConfig : WebSocketPeerConfig := ⟨"ws://far", "far"⟩

/-- A session to the peer, then its removal, and the end of the session. -/
theorem session_removed : ∃ s : WsNode, s.removed = ["ws://far"] ∧ s.reported = [0] ∧
    ∀ e ∈ s.manager.currentPeers, e.direction.isToUrl "ws://far" = false := by
  have hend : (Machine.run step RemovesAll (.new [farConfig] fun _ => 0)
      [.turn 0 (.request .otherStatus), .connected 0, .greeted 0 2, .turn 0 (.next 0 1),
        .turn 0 (.request (.removePeer "ws://far")), .sessionEnds 0, .turn 0 (.next 5 0)]).map
        (fun s => (s.removed, s.reported)) = some (["ws://far"], [0]) := by
    decide +kernel
  obtain ⟨s, hrun, hend⟩ := Option.map_eq_some_iff.mp hend
  simp only [Prod.mk.injEq] at hend
  have hin : "ws://far" ∈ s.removed := by
    rw [hend.1]
    exact List.mem_cons_self
  exact ⟨s, hend.1, hend.2, (removed_peer_stays_removed (reaches_of_run hrun) hin).2.2⟩

/-- The peer is added while a first attempt to connect to it is under way, and so in none of
the lists. The first attempt fails, and the second one is under way when the peer is removed:
the removal finds the entry of the first and is answered with success, and then the second
attempt succeeds and its session is entered. -/
theorem removed_peer_returns : ∃ s : WsNode, machine.Reaches (fun _ _ => True) s ∧
    "ws://far" ∈ s.removed ∧ ∃ e ∈ s.manager.currentPeers, e.direction.isToUrl "ws://far" = true := by
  have hend : (Machine.run step (fun _ _ => True) (.new [farConfig] fun _ => 0)
      [.turn 0 (.request .otherStatus), .turn 0 (.request (.addPeer farConfig 0)),
        .turn 0 (.request .otherStatus), .connectFailed 0, .turn 0 (.next 0 1),
        .turn 0 (.request (.removePeer "ws://far")), .connected 0, .greeted 0 2,
        .turn 0 (.next 0 1)]).map (fun s => (s.removed, s.manager.currentPeers)) =
      some (["ws://far"], [⟨.outbound farConfig, 2, 0⟩]) := by
    decide +kernel
  obtain ⟨s, hrun, hend⟩ := Option.map_eq_some_iff.mp hend
  simp only [Prod.mk.injEq] at hend
  refine ⟨s, reaches_of_run hrun, ?_, ⟨.outbound farConfig, 2, 0⟩, ?_, rfl⟩
  · rw [hend.1]
    exact List.mem_cons_self
  · rw [hend.2]
    exact List.mem_cons_self

end WsNode

end Anybus
