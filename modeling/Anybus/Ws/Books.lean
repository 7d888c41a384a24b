import Anybus.Ws.ReconnectQueue
import Anybus.Ws.RemovedPeer
import Mathlib.Algebra.Order.Group.Multiset
import Mathlib.Tactic.Abel

/-!
# Where the configured peers are

A peer that is configured wanders between the manager's lists, the connecting tasks, the
handshakes and the queue of commands. The books list what was asked for, what was given up on
request, and what was lost in the reconnect queue. The rest is always somewhere, each entry
once, and none of it waits longer between two attempts than the eighth doubling of a second.
-/

namespace Anybus

/-- The configuration of the peer that an outbound session leads to. -/
def StreamDirection.config : StreamDirection → Option WebSocketPeerConfig
  | .inbound => none
  | .outbound config => some config

/-- The peer that a command brings back to the manager. -/
def WsCommand.brings : WsCommand → Option WsPendingPeer
  | .newWsStream wsPendingPeer _ => wsPendingPeer
  | .queueReconnect wsPendingPeer => some wsPendingPeer
  | .peerClosed _ => none

/-- The peer that comes back to the manager with what it reacts to. -/
def WsInput.brings : WsInput → Option WsPendingPeer
  | .command message _ _ => message.brings
  | .timeout _ | .addPeer _ _ | .removePeer _ | .resuming _ | .otherStatus | .shuttingDown => none

/-- The configurations of some peers that are not connected. -/
def configs (peers : List WsPendingPeer) : Multiset WebSocketPeerConfig :=
  ↑(peers.map WsPendingPeer.config)

/-- The configurations of the peers that some sessions lead to. -/
def sessionConfigs (entries : List WsActivePeer) : Multiset WebSocketPeerConfig :=
  ↑(entries.filterMap fun entry => entry.direction.config)

section Configs

variable {peers peers' : List WsPendingPeer} {peer : WsPendingPeer}

@[simp] theorem configs_nil : configs [] = 0 := rfl

@[simp] theorem configs_cons : configs (peer :: peers) = peer.config ::ₘ configs peers := rfl

@[simp] theorem configs_append : configs (peers ++ peers') = configs peers + configs peers' := by
  simp [configs]

theorem configs_perm (h : peers.Perm peers') : configs peers = configs peers' :=
  Multiset.coe_eq_coe.mpr (h.map _)

theorem configs_eraseIdx {i : Nat} (h : peers[i]? = some peer) :
    configs peers = peer.config ::ₘ configs (peers.eraseIdx i) := by
  obtain ⟨hlt, rfl⟩ := List.getElem?_eq_some_iff.mp h
  exact (configs_perm (List.getElem_cons_eraseIdx_perm hlt)).symm

/-- What two complementary filters keep is all there was. -/
theorem configs_filter (peers : List WsPendingPeer) (p : WsPendingPeer → Bool) :
    configs peers = configs (peers.filter p) + configs (peers.filter fun x => !p x) := by
  rw [← configs_append]
  exact (configs_perm (List.filter_append_perm p peers)).symm

section FilterMap

variable {α : Type*} (f : α → Option WsPendingPeer) {l : List α} {a : α}

theorem configs_filterMap_cons :
    configs ((a :: l).filterMap f) = configs (f a).toList + configs (l.filterMap f) := by
  rw [← configs_append, List.filterMap_cons]
  cases f a <;> rfl

theorem configs_filterMap_concat :
    configs ((l ++ [a]).filterMap f) = configs (l.filterMap f) + configs (f a).toList := by
  rw [← configs_append, List.filterMap_append, List.filterMap_cons]
  cases f a <;> rfl

theorem configs_filterMap_eraseIdx {i : Nat} (h : l[i]? = some a) :
    configs (l.filterMap f) = configs (f a).toList + configs ((l.eraseIdx i).filterMap f) := by
  obtain ⟨hlt, rfl⟩ := List.getElem?_eq_some_iff.mp h
  rw [← configs_filterMap_cons]
  exact (configs_perm ((List.getElem_cons_eraseIdx_perm hlt).filterMap f)).symm

end FilterMap

@[simp] theorem sessionConfigs_append (entries entries' : List WsActivePeer) :
    sessionConfigs (entries ++ entries') = sessionConfigs entries + sessionConfigs entries' := by
  simp [sessionConfigs]

/-- The first entry of a kind, and the others. -/
theorem sessionConfigs_eraseP (entries : List WsActivePeer) (p : WsActivePeer → Bool) :
    sessionConfigs entries =
      sessionConfigs (entries.find? p).toList + sessionConfigs (entries.eraseP p) := by
  induction entries with
  | nil => rfl
  | cons entry entries ih =>
    have hcons (l : List WsActivePeer) :
        sessionConfigs (entry :: l) = sessionConfigs [entry] + sessionConfigs l :=
      sessionConfigs_append [entry] l
    by_cases hp : p entry = true
    · rw [List.find?_cons_of_pos hp, List.eraseP_cons_of_pos hp]
      exact hcons entries
    · rw [List.find?_cons_of_neg hp, List.eraseP_cons_of_neg hp, hcons entries,
        hcons (entries.eraseP p), ih]
      exact add_left_comm _ _ _

end Configs

namespace WebsocketManager

/-- The peers in the manager's lists. -/
def books (m : WebsocketManager) : Multiset WebSocketPeerConfig :=
  configs m.pendingPeers + configs m.disconnectedPeers + sessionConfigs m.currentPeers

/-- Whether a configuration is in one of the manager's lists. -/
def lists (m : WebsocketManager) (peerConfig : WebSocketPeerConfig) : Bool :=
  (m.pendingPeers.any fun p => p.config = peerConfig) ||
    (m.disconnectedPeers.any fun p => p.config = peerConfig) ||
    (m.currentPeers.any fun p => p.direction.isTo peerConfig)

/-- The peer that is added on a request. -/
def accepted (m : WebsocketManager) : WsInput → Multiset WebSocketPeerConfig
  | .addPeer peerConfig _ =>
    if m.lists peerConfig then 0 else {peerConfig}
  | _ => 0

/-- The peers that are given up: those to an address, and the first session there, or all
sessions at the end. -/
def givenUp (m : WebsocketManager) : WsInput → Multiset WebSocketPeerConfig
  | .removePeer url =>
    configs (m.pendingPeers.filter fun p => p.config.url = url) +
      configs (m.disconnectedPeers.filter fun p => p.config.url = url) +
      sessionConfigs (m.currentPeers.find? fun p => p.direction.isToUrl url).toList
  | .shuttingDown => sessionConfigs m.currentPeers
  | _ => 0

/-- The peer that is lost because another one becomes ready at the instant it is scheduled for. -/
def missed (m : WebsocketManager) (now : Instant) (command : WsCommand) :
    Multiset WebSocketPeerConfig :=
  match m.toSchedule now command with
  | some pending =>
    if ∃ q ∈ m.disconnectedPeers, q.whenReady = pending.whenReady then {pending.config} else 0
  | none => 0

variable {m : WebsocketManager}

theorem books_new (wsPeers : List WebSocketPeerConfig) (clock : Nat → Instant) :
    (WebsocketManager.new wsPeers clock).books = ↑wsPeers := by
  have hconfigs : (WebsocketManager.new wsPeers clock).pendingPeers.map WsPendingPeer.config =
      wsPeers := by
    refine List.ext_getElem? fun i => ?_
    simp only [WebsocketManager.new, List.getElem?_map, List.getElem?_mapIdx, Option.map_map]
    cases wsPeers[i]? <;> rfl
  unfold books configs
  rw [hconfigs]
  simp [WebsocketManager.new, sessionConfigs]

theorem books_addWsPeer (peerConfig : WebSocketPeerConfig) (now : Instant) :
    (m.addWsPeer peerConfig now).1.books = m.books + m.accepted (.addPeer peerConfig now) := by
  have hunfold : (m.addWsPeer peerConfig now).1 =
      if m.lists peerConfig then m
      else { m with pendingPeers := m.pendingPeers ++ [.ofConfig peerConfig now] } := by
    unfold addWsPeer lists
    split <;> rfl
  rw [hunfold, accepted]
  split
  · exact (add_zero m.books).symm
  · simp only [books, configs_append, configs_cons, configs_nil, WsPendingPeer.ofConfig]
    rw [← Multiset.singleton_add]
    abel

theorem books_removeWsPeer (url : WsUrl) :
    (m.removeWsPeer url).1.books + m.givenUp (.removePeer url) = m.books := by
  have hpending := configs_filter m.pendingPeers fun p => p.config.url = url
  have hdisconnected := configs_filter m.disconnectedPeers fun p => p.config.url = url
  have hcurrent := sessionConfigs_eraseP m.currentPeers fun p => p.direction.isToUrl url
  simp only [removeWsPeer, books, givenUp, ne_eq, decide_not]
  rw [hpending, hdisconnected, hcurrent]
  abel

theorem books_onResume (clock : Nat → Instant) : (m.onResume clock).1.books = m.books := by
  have hconfig : (m.disconnectedPeers.mapIdx fun i peer => peer.readyNow (clock i)).map
      WsPendingPeer.config = m.disconnectedPeers.map WsPendingPeer.config := by
    refine List.ext_getElem? fun i => ?_
    simp only [List.getElem?_map, List.getElem?_mapIdx, Option.map_map]
    cases m.disconnectedPeers[i]? <;> rfl
  have hready : configs (m.disconnectedPeers.mapIdx fun i peer => peer.readyNow (clock i)) =
      configs m.disconnectedPeers := by
    rw [configs, hconfig, configs]
  simp only [onResume, books]
  rw [configs_perm (List.perm_insertionSort _ _), hready]

theorem books_shutdown : m.shutdown.1.books + m.givenUp .shuttingDown = m.books := by
  simp [shutdown, books, givenUp, sessionConfigs]

/-- A scheduled peer is in the queue, or another one becomes ready at the same instant. -/
theorem configs_schedule (h : Ordered m.disconnectedPeers) (pending : WsPendingPeer) :
    configs (schedule m.disconnectedPeers pending) +
        (if ∃ q ∈ m.disconnectedPeers, q.whenReady = pending.whenReady then {pending.config} else 0) =
      configs m.disconnectedPeers + {pending.config} := by
  rcases schedule_cases h pending with ⟨heq, hsame⟩ | ⟨hperm, -, hne⟩
  · rw [heq, if_pos hsame]
  · have hnone : ¬ ∃ q ∈ m.disconnectedPeers, q.whenReady = pending.whenReady := by
      rintro ⟨q, hq, hsame⟩
      exact hne q hq hsame
    rw [if_neg hnone, add_zero, configs_perm hperm, configs_cons, ← Multiset.singleton_add, add_comm]

theorem balance_schedule
    {pending disconnected disconnected' current lost : Multiset WebSocketPeerConfig}
    {config : WebSocketPeerConfig} (h : disconnected' + lost = disconnected + {config}) :
    pending + disconnected' + current + lost = pending + disconnected + ({config} + current) := by
  calc pending + disconnected' + current + lost
      = pending + current + (disconnected' + lost) := by abel
    _ = pending + current + (disconnected + {config}) := by rw [h]
    _ = pending + disconnected + ({config} + current) := by abel

/-- What a command brings is with the manager afterwards, or is lost. -/
theorem books_handleCommand (h : Ordered m.disconnectedPeers) (command : WsCommand) (now : Instant)
    (connectionId : ConnectionId) :
    (m.handleCommand command now connectionId).1.books + m.missed now command =
      m.books + configs command.brings.toList := by
  cases command with
  | newWsStream wsPendingPeer peerId =>
    simp only [handleCommand, newWsStream, books, missed, toSchedule, sessionConfigs_append, add_zero]
    cases wsPendingPeer with
    | none => simp [sessionConfigs, StreamDirection.config, WsCommand.brings]
    | some peer =>
      simp only [sessionConfigs, StreamDirection.config, WsCommand.brings, Option.toList_some,
        configs_cons, configs_nil, List.filterMap_cons, List.filterMap_nil]
      abel
  | peerClosed peerId =>
    have hcurrent := sessionConfigs_eraseP m.currentPeers fun p => p.peerId = peerId
    simp only [handleCommand, peerClosed, missed, toSchedule, WsCommand.brings]
    cases hfind : m.currentPeers.find? fun p => p.peerId = peerId with
    | none => simp
    | some entry =>
      obtain ⟨direction, peerId', wsControl⟩ := entry
      rw [hfind] at hcurrent
      cases direction with
      | inbound =>
        have hgone : sessionConfigs [⟨.inbound, peerId', wsControl⟩] = 0 := rfl
        simp only [Option.toList_some, Option.toList_none, configs_nil, add_zero, books] at hcurrent ⊢
        rw [hcurrent, hgone, zero_add]
      | outbound config =>
        have hgone : sessionConfigs [⟨.outbound config, peerId', wsControl⟩] = {config} := rfl
        have hschedule := configs_schedule h (.ofConfig config now)
        simp only [Option.toList_some, Option.toList_none, configs_nil, add_zero, books] at hcurrent ⊢
        rw [hcurrent, hgone]
        exact balance_schedule hschedule
  | queueReconnect peer =>
    have hschedule := configs_schedule h (peer.recordAttempt now)
    simp only [handleCommand, queueReconnect, books, missed, toSchedule, WsCommand.brings,
      Option.toList_some, configs_cons, configs_nil]
    rw [balance_schedule hschedule, add_comm {_}, ← add_assoc]
    rfl

/-- What is lost when the manager reacts. -/
def lostBy (m : WebsocketManager) : WsInput → Multiset WebSocketPeerConfig
  | .command command now _ => m.missed now command
  | _ => 0

theorem books_getNextReadyPeer {m' : WebsocketManager} {now : Instant} {peer : WsPendingPeer}
    (h : m.getNextReadyPeer now = some (peer, m')) : m.books = m'.books + {peer.config} := by
  obtain ⟨rest, hrest, rfl⟩ := getNextReadyPeer_cases h
  simp only [books, hrest, configs_cons, ← Multiset.singleton_add]
  abel

/-- Whatever the manager reacts to, every peer is with it afterwards, or with a task that it
starts, or it is given up or lost. -/
theorem books_react (h : Ordered m.disconnectedPeers) (input : WsInput) :
    (m.react input).1.books + configs ((m.react input).2.filterMap WsAction.connects) +
        m.givenUp input + m.lostBy input =
      m.books + m.accepted input + configs (input.brings).toList := by
  cases input with
  | timeout now =>
    simp only [react, givenUp, lostBy, accepted, WsInput.brings, Option.toList_none, configs_nil,
      add_zero]
    cases hready : m.getNextReadyPeer now with
    | none => exact add_zero _
    | some ready =>
      rw [books_getNextReadyPeer hready]
      rfl
  | addPeer peerConfig now =>
    have hsilent : (m.addWsPeer peerConfig now).2.filterMap WsAction.connects = [] := by
      unfold addWsPeer
      split <;> rfl
    simp only [react, hsilent, givenUp, lostBy, WsInput.brings, Option.toList_none, configs_nil,
      add_zero]
    exact books_addWsPeer peerConfig now
  | removePeer url =>
    have hsilent : (m.removeWsPeer url).2.filterMap WsAction.connects = [] := by
      simp only [removeWsPeer, List.filterMap_append]
      cases m.currentPeers.find? fun p => p.direction.isToUrl url <;> rfl
    simp only [react, hsilent, lostBy, accepted, WsInput.brings, Option.toList_none, configs_nil,
      add_zero]
    exact books_removeWsPeer url
  | command message now connectionId =>
    have hsilent : (m.handleCommand message now connectionId).2.filterMap WsAction.connects = [] := by
      cases message <;> rfl
    simp only [react, hsilent, givenUp, lostBy, accepted, WsInput.brings, configs_nil, add_zero]
    exact books_handleCommand h message now connectionId
  | resuming clock =>
    have hsilent : (m.onResume clock).2.filterMap WsAction.connects = [] := by
      simp [onResume, WsAction.connects]
    simp only [react, hsilent, givenUp, lostBy, accepted, WsInput.brings, Option.toList_none,
      configs_nil, add_zero]
    exact books_onResume clock
  | otherStatus =>
    simp only [react, List.filterMap_nil, givenUp, lostBy, accepted, WsInput.brings,
      Option.toList_none, configs_nil, add_zero]
  | shuttingDown =>
    have hsilent : m.shutdown.2.filterMap WsAction.connects = [] := by
      simp [shutdown, WsAction.connects]
    simp only [react, hsilent, lostBy, accepted, WsInput.brings, Option.toList_none, configs_nil,
      add_zero]
    exact books_shutdown

end WebsocketManager

namespace WsNode

/-- The peers that are on their way back to the manager. -/
def underway (s : WsNode) : List WsPendingPeer :=
  s.connecting ++ s.handshaking.filterMap id ++ s.queue.filterMap fun q => q.command.brings

/-- Every place where a configured peer can be. -/
def books (s : WsNode) : Multiset WebSocketPeerConfig := s.manager.books + configs s.underway

/-- What the manager takes up in an event. -/
def takenUp (s : WsNode) : WsNodeEvent → Option WsInput
  | .turn now wake =>
    match s.manager.dueNow now, wake, s.queue with
    | none, .next now' connectionId, q :: _ => some (.command q.command now' connectionId)
    | none, .request input, _ => some input
    | _, _, _ => none
  | .accept | .connected _ | .connectFailed _ | .greeted _ _ | .handshakeFailed _ | .sessionEnds _ =>
    none

variable {s s' : WsNode}

theorem books_act (r : WebsocketManager × List WsAction) :
    (s.act r).books = r.1.books + configs (r.2.filterMap WsAction.connects) + configs s.underway := by
  simp only [books, act, underway, configs_append]
  abel

@[simp] theorem noteReport_manager (q : QueuedCommand) : (s.noteReport q).manager = s.manager := by
  unfold noteReport
  split <;> rfl

@[simp] theorem noteReport_underway (q : QueuedCommand) :
    (s.noteReport q).underway = s.underway := by
  unfold noteReport
  split <;> rfl

@[simp] theorem noteRequest_underway (input : WsInput) :
    (s.noteRequest input).underway = s.underway := by
  cases input <;> rfl

theorem books_dueNow {m m' : WebsocketManager} {now : Instant} {peer : WsPendingPeer}
    (h : m.dueNow now = some (peer, m')) : m'.books + {peer.config} = m.books := by
  unfold WebsocketManager.dueNow at h
  split at h
  · next hlast =>
    cases h
    have hpending : configs m.pendingPeers =
        configs m.pendingPeers.dropLast + {peer.config} := by
      conv_lhs => rw [← List.dropLast_append_getLast? peer hlast]
      exact configs_append
    simp only [WebsocketManager.books, hpending]
    abel
  · exact (WebsocketManager.books_getNextReadyPeer h).symm

theorem books_enqueue (command : WsCommand) :
    (s.enqueue command).books = s.books + configs command.brings.toList := by
  simp only [books, underway, enqueue, configs_append, configs_filterMap_concat]
  abel

/-- A task only passes its peer on. -/
theorem books_task {event : WsNodeEvent} (htask : ∀ now wake, event ≠ .turn now wake)
    (h : s.step event = some s') : s'.books = s.books := by
  cases event with
  | accept =>
    cases h
    simp [books, underway]
  | connected i =>
    obtain ⟨peer, hpeer, rfl⟩ := Option.map_eq_some_iff.mp h
    simp only [books, underway, configs_append, configs_eraseIdx hpeer, configs_filterMap_concat,
      id_eq, Option.toList_some, configs_cons, configs_nil, ← Multiset.singleton_add]
    abel
  | connectFailed i =>
    obtain ⟨peer, hpeer, rfl⟩ := Option.map_eq_some_iff.mp h
    rw [books_enqueue]
    simp only [books, underway, configs_append, configs_eraseIdx hpeer, WsCommand.brings,
      Option.toList_some, configs_cons, configs_nil, ← Multiset.singleton_add]
    abel
  | greeted i peerId =>
    obtain ⟨pending, hpending, rfl⟩ := Option.map_eq_some_iff.mp h
    have herase : configs (s.handshaking.filterMap id) =
        configs pending.toList + configs ((s.handshaking.eraseIdx i).filterMap id) :=
      configs_filterMap_eraseIdx id hpending
    have hbrings : (WsCommand.newWsStream pending peerId).brings = pending := rfl
    rw [books_enqueue, hbrings]
    simp only [books, underway, configs_append, herase]
    abel
  | handshakeFailed i =>
    obtain ⟨pending, hpending, rfl⟩ := Option.map_eq_some_iff.mp h
    have herase : configs (s.handshaking.filterMap id) =
        configs pending.toList + configs ((s.handshaking.eraseIdx i).filterMap id) :=
      configs_filterMap_eraseIdx id hpending
    have hbooks : s.books = books { s with handshaking := s.handshaking.eraseIdx i } +
        configs pending.toList := by
      simp only [books, underway, configs_append, herase]
      abel
    rw [hbooks]
    cases pending with
    | none => exact (add_zero _).symm
    | some peer => exact books_enqueue _
  | sessionEnds i =>
    obtain ⟨entry, -, rfl⟩ := Option.map_eq_some_iff.mp h
    simp [books, underway, WsCommand.brings]
  | turn now wake => exact absurd rfl (htask now wake)

theorem balance_rest {after given lost before accepted brought rest : Multiset WebSocketPeerConfig}
    (h : after + given + lost = before + accepted + brought) :
    after + rest + given + lost = before + (brought + rest) + accepted := by
  calc after + rest + given + lost = after + given + lost + rest := by abel
    _ = before + accepted + brought + rest := by rw [h]
    _ = before + (brought + rest) + accepted := by abel

/-- Whatever happens, every peer is somewhere afterwards, or it was given up or lost. -/
theorem books_step {event : WsNodeEvent}
    (hordered : WebsocketManager.Ordered s.manager.disconnectedPeers)
    (h : s.step event = some s') :
    s'.books + (s.takenUp event).elim 0 s.manager.givenUp +
        (s.takenUp event).elim 0 s.manager.lostBy =
      s.books + (s.takenUp event).elim 0 s.manager.accepted := by
  cases event with
  | turn now wake =>
    obtain ⟨-, ⟨peer, m, hdue, rfl⟩ | ⟨hdue, ⟨now', connectionId, q, rest, rfl, hqueue, rfl⟩ |
      ⟨input, rfl, hcommand, rfl⟩⟩⟩ := turn_cases h
    · have htaken : s.takenUp (.turn now wake) = none := by
        simp only [takenUp, hdue]
      rw [htaken, books_act, books, ← books_dueNow hdue]
      simp only [Option.elim_none, add_zero]
      rfl
    · have htaken : s.takenUp (.turn now (.next now' connectionId)) =
          some (.command q.command now' connectionId) := by
        simp only [takenUp, hdue, hqueue]
      have hreact := WebsocketManager.books_react hordered (.command q.command now' connectionId)
      have hrest : configs s.underway =
          configs q.command.brings.toList + configs ({ s with queue := rest } : WsNode).underway := by
        simp only [underway, configs_append, hqueue, configs_filterMap_cons]
        abel
      have hhandle : s.manager.react (.command q.command now' connectionId) =
        s.manager.handleCommand q.command now' connectionId := rfl
      rw [hhandle] at hreact
      rw [htaken, books_act, noteReport_underway, books, hrest]
      exact balance_rest hreact
    · have htaken : s.takenUp (.turn now (.request input)) = some input := by
        simp only [takenUp, hdue]
      have hreact := WebsocketManager.books_react hordered input
      have hsilent : input.brings = none := by
        cases input with
        | command message now connectionId => exact absurd rfl (hcommand message now connectionId)
        | timeout | addPeer | removePeer | resuming | otherStatus | shuttingDown => rfl
      rw [hsilent, Option.toList_none, configs_nil] at hreact
      rw [htaken, books_act, noteRequest_underway, books, ← zero_add (configs s.underway)]
      exact balance_rest hreact
  | accept | connected | connectFailed | greeted | handshakeFailed | sessionEnds =>
    rw [books_task (fun _ _ heq => by cases heq) h]
    simp only [takenUp, Option.elim_none, add_zero]

theorem manager_task {event : WsNodeEvent} (htask : ∀ now wake, event ≠ .turn now wake)
    (h : s.step event = some s') : s'.manager = s.manager := by
  cases event with
  | accept =>
    cases h
    rfl
  | connected i | connectFailed i | greeted i peerId | sessionEnds i =>
    obtain ⟨_, -, rfl⟩ := Option.map_eq_some_iff.mp h
    rfl
  | handshakeFailed i =>
    obtain ⟨pending, -, rfl⟩ := Option.map_eq_some_iff.mp h
    cases pending <;> rfl
  | turn now wake => exact absurd rfl (htask now wake)

theorem ordered_step {event : WsNodeEvent}
    (hordered : WebsocketManager.Ordered s.manager.disconnectedPeers)
    (h : s.step event = some s') : WebsocketManager.Ordered s'.manager.disconnectedPeers := by
  cases event with
  | turn now wake =>
    obtain ⟨-, ⟨peer, m, hdue, rfl⟩ | ⟨hdue, ⟨now', connectionId, q, rest, rfl, hqueue, rfl⟩ |
      ⟨input, rfl, hcommand, rfl⟩⟩⟩ := turn_cases h
    · rcases WebsocketManager.dueNow_cases hdue with ⟨-, rfl⟩ | ⟨rest, hrest, rfl⟩
      · exact hordered
      · rw [hrest] at hordered
        exact hordered.sublist (List.sublist_cons_self _ _)
    · exact hordered.react (.command q.command now' connectionId)
    · exact hordered.react input
  | accept | connected | connectFailed | greeted | handshakeFailed | sessionEnds =>
    rw [manager_task (fun _ _ heq => by cases heq) h]
    exact hordered

end WsNode

/-- A peer that waits as long as its attempts ask for, or less. -/
def WsPendingPeer.Paced (peer : WsPendingPeer) : Prop :=
  peer.backoff ≤ fromSecs (2 ^ min peer.numAttempts 8)

theorem WsPendingPeer.paced_ofConfig (config : WebSocketPeerConfig) (now : Instant) :
    (ofConfig config now).Paced := Nat.le_refl 1000

theorem WsPendingPeer.paced_recordAttempt (peer : WsPendingPeer) (now : Instant) :
    (peer.recordAttempt now).Paced := Nat.le_refl _

theorem WsPendingPeer.paced_readyNow (peer : WsPendingPeer) (now : Instant) :
    (peer.readyNow now).Paced := Nat.zero_le _

/-- No peer waits for more than 256 seconds. -/
theorem WsPendingPeer.Paced.le {peer : WsPendingPeer} (h : peer.Paced) :
    peer.whenReady ≤ peer.lastAttempt + fromSecs 256 := by
  have hpow : 2 ^ min peer.numAttempts 8 ≤ 2 ^ 8 :=
    Nat.pow_le_pow_right (Nat.succ_pos 1) (Nat.min_le_right _ _)
  exact Nat.add_le_add_left (h.trans (Nat.mul_le_mul_left 1000 hpow)) _

namespace WebsocketManager

/-- All peers in the manager's lists that are not connected are paced. -/
structure AllPaced (m : WebsocketManager) : Prop where
  pending : ∀ p ∈ m.pendingPeers, p.Paced
  disconnected : ∀ p ∈ m.disconnectedPeers, p.Paced

variable {m : WebsocketManager}

theorem paced_schedule {peers : List WsPendingPeer} {pending : WsPendingPeer}
    (hpeers : ∀ p ∈ peers, p.Paced) (hpending : pending.Paced) :
    ∀ p ∈ schedule peers pending, p.Paced := by
  intro p hp
  rcases mem_schedule hp with rfl | hp
  · exact hpending
  · exact hpeers p hp

theorem AllPaced.dueNow (h : m.AllPaced) {now : Instant} {peer : WsPendingPeer}
    {m' : WebsocketManager} (hdue : m.dueNow now = some (peer, m')) : peer.Paced ∧ m'.AllPaced := by
  rcases dueNow_cases hdue with ⟨hpeer, rfl⟩ | ⟨rest, hrest, rfl⟩
  · exact ⟨h.pending peer hpeer, fun p hp => h.pending p (List.mem_of_mem_dropLast hp), h.disconnected⟩
  · have hall := h.disconnected
    rw [hrest] at hall
    exact ⟨hall peer List.mem_cons_self, h.pending, fun p hp => hall p (List.mem_cons_of_mem _ hp)⟩

theorem AllPaced.handleCommand (h : m.AllPaced) (command : WsCommand) (now : Instant)
    (connectionId : ConnectionId) : (m.handleCommand command now connectionId).1.AllPaced := by
  cases command with
  | newWsStream wsPendingPeer peerId => exact ⟨h.pending, h.disconnected⟩
  | peerClosed peerId =>
    simp only [WebsocketManager.handleCommand, peerClosed]
    split
    · exact h
    · split
      · next config _ =>
        exact ⟨h.pending, paced_schedule h.disconnected (WsPendingPeer.paced_ofConfig config now)⟩
      · exact ⟨h.pending, h.disconnected⟩
  | queueReconnect peer =>
    exact ⟨h.pending, paced_schedule h.disconnected (WsPendingPeer.paced_recordAttempt peer now)⟩

/-- What the manager reacts to leaves all peers paced, also one that it starts to connect to. -/
theorem AllPaced.react (h : m.AllPaced) (input : WsInput) : (m.react input).1.AllPaced ∧
    ∀ p ∈ (m.react input).2.filterMap WsAction.connects, p.Paced := by
  cases input with
  | timeout now =>
    simp only [WebsocketManager.react]
    split
    · next peer m' hready =>
      obtain ⟨rest, hrest, rfl⟩ := getNextReadyPeer_cases hready
      have hall := h.disconnected
      rw [hrest] at hall
      refine ⟨⟨h.pending, fun p hp => hall p (List.mem_cons_of_mem _ hp)⟩, fun p hp => ?_⟩
      obtain rfl := List.mem_singleton.mp hp
      exact hall p List.mem_cons_self
    · exact ⟨h, fun p hp => absurd hp List.not_mem_nil⟩
  | addPeer peerConfig now =>
    simp only [WebsocketManager.react, addWsPeer]
    split
    · exact ⟨h, fun p hp => absurd hp List.not_mem_nil⟩
    · refine ⟨⟨fun p hp => ?_, h.disconnected⟩, fun p hp => absurd hp List.not_mem_nil⟩
      rcases List.mem_append.mp hp with hp | hp
      · exact h.pending p hp
      · obtain rfl := List.mem_singleton.mp hp
        exact WsPendingPeer.paced_ofConfig peerConfig now
  | removePeer url =>
    refine ⟨⟨fun p hp => h.pending p (List.mem_of_mem_filter hp),
      fun p hp => h.disconnected p (List.mem_of_mem_filter hp)⟩, fun p hp => ?_⟩
    simp only [WebsocketManager.react, removeWsPeer, List.filterMap_append] at hp
    cases hfind : m.currentPeers.find? fun p => p.direction.isToUrl url with
    | none => simp [hfind, WsAction.connects] at hp
    | some entry => simp [hfind, WsAction.connects] at hp
  | command message now connectionId =>
    refine ⟨h.handleCommand message now connectionId, fun p hp => ?_⟩
    have hsilent : (m.handleCommand message now connectionId).2.filterMap WsAction.connects = [] := by
      cases message <;> rfl
    exact absurd (hsilent ▸ hp) List.not_mem_nil
  | resuming clock =>
    refine ⟨⟨h.pending, fun p hp => ?_⟩, fun p hp => ?_⟩
    · have hmem := (List.perm_insertionSort _ _).mem_iff.mp hp
      obtain ⟨i, hi, rfl⟩ := List.mem_mapIdx.mp hmem
      exact WsPendingPeer.paced_readyNow _ _
    · simp [WebsocketManager.react, onResume, WsAction.connects] at hp
  | otherStatus => exact ⟨h, fun p hp => absurd hp List.not_mem_nil⟩
  | shuttingDown =>
    refine ⟨⟨h.pending, h.disconnected⟩, fun p hp => ?_⟩
    simp [WebsocketManager.react, shutdown, WsAction.connects] at hp

end WebsocketManager

namespace WsNode

variable {s s' : WsNode}

/-- All peers that are with the manager or being connected to are paced, and those that come back
from an attempt to be scheduled again. -/
structure AllPaced (s : WsNode) : Prop where
  manager : s.manager.AllPaced
  underway : ∀ p ∈ s.underway, p.Paced

theorem mem_underway {p : WsPendingPeer} : p ∈ s.underway ↔
    p ∈ s.connecting ∨ some p ∈ s.handshaking ∨ ∃ q ∈ s.queue, q.command.brings = some p := by
  simp only [underway, List.mem_append, List.mem_filterMap, id_eq, exists_eq_right, or_assoc]

/-- A command at the end of the queue brings its own peer. -/
theorem mem_underway_enqueue {command : WsCommand} {p : WsPendingPeer}
    (h : p ∈ (s.enqueue command).underway) : p ∈ s.underway ∨ command.brings = some p := by
  rcases mem_underway.mp h with hp | hp | ⟨q, hq, hp⟩
  · exact Or.inl (mem_underway.mpr (Or.inl hp))
  · exact Or.inl (mem_underway.mpr (Or.inr (Or.inl hp)))
  · rcases List.mem_append.mp hq with hq | hq
    · exact Or.inl (mem_underway.mpr (Or.inr (Or.inr ⟨q, hq, hp⟩)))
    · obtain rfl := List.mem_singleton.mp hq
      exact Or.inr hp

/-- A task only passes its peer on. -/
theorem mem_underway_task {event : WsNodeEvent} (htask : ∀ now wake, event ≠ .turn now wake)
    (h : s.step event = some s') {p : WsPendingPeer} (hp : p ∈ s'.underway) : p ∈ s.underway := by
  cases event with
  | accept =>
    cases h
    simpa [mem_underway] using hp
  | connected i =>
    obtain ⟨peer, hpeer, rfl⟩ := Option.map_eq_some_iff.mp h
    refine mem_underway.mpr ?_
    rcases mem_underway.mp hp with hp | hp | hp
    · exact Or.inl (List.mem_of_mem_eraseIdx hp)
    · rcases List.mem_append.mp hp with hp | hp
      · exact Or.inr (Or.inl hp)
      · cases List.mem_singleton.mp hp
        exact Or.inl (List.mem_of_getElem? hpeer)
    · exact Or.inr (Or.inr hp)
  | connectFailed i =>
    obtain ⟨peer, hpeer, rfl⟩ := Option.map_eq_some_iff.mp h
    refine mem_underway.mpr ?_
    rcases mem_underway_enqueue hp with hp | hp
    · rcases mem_underway.mp hp with hp | hp
      · exact Or.inl (List.mem_of_mem_eraseIdx hp)
      · exact Or.inr hp
    · cases hp
      exact Or.inl (List.mem_of_getElem? hpeer)
  | greeted i peerId =>
    obtain ⟨pending, hpending, rfl⟩ := Option.map_eq_some_iff.mp h
    refine mem_underway.mpr ?_
    rcases mem_underway_enqueue hp with hp | hp
    · rcases mem_underway.mp hp with hp | hp | hp
      · exact Or.inl hp
      · exact Or.inr (Or.inl (List.mem_of_mem_eraseIdx hp))
      · exact Or.inr (Or.inr hp)
    · have hsome : pending = some p := hp
      rw [hsome] at hpending
      exact Or.inr (Or.inl (List.mem_of_getElem? hpending))
  | handshakeFailed i =>
    obtain ⟨pending, hpending, rfl⟩ := Option.map_eq_some_iff.mp h
    have hrest {p : WsPendingPeer}
        (hp : p ∈ underway { s with handshaking := s.handshaking.eraseIdx i }) : p ∈ s.underway := by
      refine mem_underway.mpr ?_
      rcases mem_underway.mp hp with hp | hp | hp
      · exact Or.inl hp
      · exact Or.inr (Or.inl (List.mem_of_mem_eraseIdx hp))
      · exact Or.inr (Or.inr hp)
    cases pending with
    | none => exact hrest hp
    | some peer =>
      rcases mem_underway_enqueue hp with hp | hp
      · exact hrest hp
      · cases hp
        exact mem_underway.mpr (Or.inr (Or.inl (List.mem_of_getElem? hpending)))
  | sessionEnds i =>
    obtain ⟨entry, -, rfl⟩ := Option.map_eq_some_iff.mp h
    refine mem_underway.mpr ?_
    rcases mem_underway.mp hp with hp | hp | ⟨q, hq, hp⟩
    · exact Or.inl hp
    · exact Or.inr (Or.inl hp)
    · rcases List.mem_append.mp hq with hq | hq
      · exact Or.inr (Or.inr ⟨q, hq, hp⟩)
      · obtain rfl := List.mem_singleton.mp hq
        cases hp
  | turn now wake => exact absurd rfl (htask now wake)

/-- The tasks that the manager starts take over what it gives away. -/
theorem AllPaced.act {r : WebsocketManager × List WsAction} (hmanager : r.1.AllPaced)
    (hstarts : ∀ p ∈ r.2.filterMap WsAction.connects, p.Paced) (hunderway : ∀ p ∈ s.underway, p.Paced) :
    (s.act r).AllPaced := by
  refine ⟨hmanager, fun p hp => ?_⟩
  rcases mem_underway.mp hp with hp | hp
  · rcases List.mem_append.mp hp with hp | hp
    · exact hunderway p (mem_underway.mpr (Or.inl hp))
    · exact hstarts p hp
  · exact hunderway p (mem_underway.mpr (Or.inr hp))

theorem AllPaced.step {event : WsNodeEvent} (hpaced : s.AllPaced) (h : s.step event = some s') :
    s'.AllPaced := by
  cases event with
  | turn now wake =>
    obtain ⟨-, ⟨peer, m, hdue, rfl⟩ | ⟨hdue, ⟨now', connectionId, q, rest, rfl, hqueue, rfl⟩ |
      ⟨input, rfl, hcommand, rfl⟩⟩⟩ := turn_cases h
    · obtain ⟨hpeer, hm⟩ := hpaced.manager.dueNow hdue
      refine AllPaced.act hm (fun p hp => ?_) hpaced.underway
      obtain rfl := List.mem_singleton.mp hp
      exact hpeer
    · obtain ⟨hmanager, hstarts⟩ := hpaced.manager.react (.command q.command now' connectionId)
      refine AllPaced.act hmanager hstarts fun p hp => hpaced.underway p ?_
      rw [noteReport_underway] at hp
      refine mem_underway.mpr ?_
      rcases mem_underway.mp hp with hp | hp | ⟨q', hq', hp⟩
      · exact Or.inl hp
      · exact Or.inr (Or.inl hp)
      · exact Or.inr (Or.inr ⟨q', hqueue ▸ List.mem_cons_of_mem _ hq', hp⟩)
    · obtain ⟨hmanager, hstarts⟩ := hpaced.manager.react input
      refine AllPaced.act hmanager hstarts fun p hp => hpaced.underway p ?_
      rwa [noteRequest_underway] at hp
  | accept | connected | connectFailed | greeted | handshakeFailed | sessionEnds =>
    have hsame : s'.manager = s.manager := manager_task (fun _ _ heq => by cases heq) h
    refine ⟨hsame ▸ hpaced.manager, fun p hp => hpaced.underway p ?_⟩
    exact mem_underway_task (fun _ _ heq => by cases heq) h hp

end WsNode

/-- A run of the manager among its tasks, with the books that are kept of it. -/
structure WsBooks where
  node : WsNode
  /-- What was configured at the start or added on request since. -/
  wanted : Multiset WebSocketPeerConfig
  /-- What was given up on request, or at the end. -/
  dropped : Multiset WebSocketPeerConfig
  /-- What was scheduled for an instant at which another peer becomes ready. -/
  lost : Multiset WebSocketPeerConfig

namespace WsBooks

def step (b : WsBooks) (event : WsNodeEvent) : Option WsBooks :=
  (b.node.step event).map fun node =>
    { node := node
      wanted := b.wanted + (b.node.takenUp event).elim 0 b.node.manager.accepted
      dropped := b.dropped + (b.node.takenUp event).elim 0 b.node.manager.givenUp
      lost := b.lost + (b.node.takenUp event).elim 0 b.node.manager.lostBy }

def new (wsPeers : List WebSocketPeerConfig) (clock : Nat → Instant) : WsBooks :=
  ⟨.new wsPeers clock, ↑wsPeers, 0, 0⟩

def machine : Machine WsBooks WsNodeEvent where
  init b := ∃ wsPeers clock, b = .new wsPeers clock
  step b event b' := b.step event = some b'

variable {b b' : WsBooks}

/-- The books balance, and all waits are as long as they should be. -/
structure Sound (b : WsBooks) : Prop where
  ordered : WebsocketManager.Ordered b.node.manager.disconnectedPeers
  paced : b.node.AllPaced
  balance : b.node.books + b.dropped + b.lost = b.wanted

theorem Sound.step {event : WsNodeEvent} (h : b.Sound) (hstep : b.step event = some b') :
    b'.Sound := by
  obtain ⟨node, hnode, rfl⟩ := Option.map_eq_some_iff.mp hstep
  refine ⟨WsNode.ordered_step h.ordered hnode, h.paced.step hnode, ?_⟩
  have hbooks := WsNode.books_step h.ordered hnode
  have hbalance := h.balance
  generalize (b.node.takenUp event).elim 0 b.node.manager.accepted = accepted at hbooks ⊢
  generalize (b.node.takenUp event).elim 0 b.node.manager.givenUp = given at hbooks ⊢
  generalize (b.node.takenUp event).elim 0 b.node.manager.lostBy = lost at hbooks ⊢
  calc node.books + (b.dropped + given) + (b.lost + lost)
      = node.books + given + lost + (b.dropped + b.lost) := by abel
    _ = b.node.books + accepted + (b.dropped + b.lost) := by rw [hbooks]
    _ = b.node.books + b.dropped + b.lost + accepted := by abel
    _ = b.wanted + accepted := by rw [hbalance]

theorem Sound.new (wsPeers : List WebSocketPeerConfig) (clock : Nat → Instant) :
    (WsBooks.new wsPeers clock).Sound := by
  refine ⟨List.Pairwise.nil, ⟨⟨fun p hp => ?_, fun p hp => absurd hp List.not_mem_nil⟩,
    fun p hp => absurd hp List.not_mem_nil⟩, ?_⟩
  · obtain ⟨i, hi, rfl⟩ := List.mem_mapIdx.mp hp
    exact WsPendingPeer.paced_ofConfig _ _
  · have hnode : (WsBooks.new wsPeers clock).node.books = ↑wsPeers := by
      have hbooks := WebsocketManager.books_new wsPeers clock
      have hunderway : (WsNode.new wsPeers clock).underway = [] := rfl
      simp only [WsBooks.new, WsNode.books, hunderway, configs_nil, add_zero]
      exact hbooks
    rw [hnode]
    simp only [WsBooks.new, add_zero]

theorem sound (h : machine.Reaches (fun _ _ => True) b) : b.Sound := by
  refine h.invariant ?_ fun b event b' hsound _ hstep => hsound.step hstep
  rintro b ⟨wsPeers, clock, rfl⟩
  exact Sound.new wsPeers clock

/-- In every run a peer that was asked for is in exactly one place, unless it was given up on
request or scheduled for an instant at which another one becomes ready: in one of the manager's
lists, with a connecting task, in a handshake, or in a command on its way to the manager. One
that waits for its next attempt becomes ready no more than 256 seconds after the last. -/
theorem peers_accounted (h : machine.Reaches (fun _ _ => True) b) :
    b.node.books + b.dropped + b.lost = b.wanted ∧
    ∀ p ∈ b.node.manager.disconnectedPeers,
      p.whenReady ≤ p.lastAttempt + WsPendingPeer.fromSecs 256 :=
  ⟨(sound h).balance, fun p hp => ((sound h).paced.manager.disconnected p hp).le⟩

/-- Two servers are connected to, and both sessions end at the same reading of the clock. -/
def bothEnd : List WsNodeEvent :=
  [.turn 0 (.request .otherStatus), .turn 0 (.request .otherStatus),
    .connected 0, .greeted 0 3, .connected 0, .greeted 0 2, .turn 0 (.next 0 1), .turn 0 (.next 0 2),
    .sessionEnds 0, .sessionEnds 0, .turn 5 (.next 5 0), .turn 5 (.next 5 0)]

/-- One of them is lost, the other waits. -/
theorem accounted_of_bothEnd : ∃ b : WsBooks,
    b.lost = {WebsocketManager.northConfig} ∧
    b.node.manager.disconnectedPeers = [.ofConfig WebsocketManager.southConfig 5] ∧
    b.node.books + b.dropped + b.lost = b.wanted ∧
    ∀ p ∈ b.node.manager.disconnectedPeers,
      p.whenReady ≤ p.lastAttempt + WsPendingPeer.fromSecs 256 := by
  have hend : (Machine.run step (fun _ _ => True)
      (.new [WebsocketManager.northConfig, WebsocketManager.southConfig] fun _ => 0) bothEnd).map
        (fun b => (b.lost, b.node.manager.disconnectedPeers)) =
      some ({WebsocketManager.northConfig}, [.ofConfig WebsocketManager.southConfig 5]) := by
    decide +kernel
  obtain ⟨b, hrun, hend⟩ := Option.map_eq_some_iff.mp hend
  obtain ⟨hlost, hdisconnected⟩ := Prod.mk.inj hend
  have hreaches : machine.Reaches (fun _ _ => True) b :=
    .run (fun _ _ _ hstep => hstep) (.init ⟨_, _, rfl⟩) hrun
  exact ⟨b, hlost, hdisconnected, peers_accounted hreaches⟩

end WsBooks

end Anybus
