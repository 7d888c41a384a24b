import Anybus.Ws.Node

/-!
# A closed session and its own entry

The manager removes the first entry with the peer id of a report. As long as that entry is
always the one of the session that has reported, the listed sessions are exactly those that
have been entered and neither reported closed nor shut down on request, and a reconnect is
scheduled only for a session of one's own that has ended.
-/

namespace Anybus.WsNode

/-- The session that has reported is the first listed one with its peer id, or no session
with that id is listed. -/
def FirstIsOwn (s : WsNode) (q : QueuedCommand) : Prop :=
  match q.command with
  | .peerClosed peerId => ∀ e ∈ s.manager.currentPeers.find? fun p => p.peerId = peerId,
      q.session = some e.wsControl
  | _ => True

instance (s : WsNode) (q : QueuedCommand) : Decidable (s.FirstIsOwn q) :=
  match q with
  | ⟨.peerClosed peerId, session⟩ => inferInstanceAs (Decidable
      (∀ e ∈ s.manager.currentPeers.find? fun p => p.peerId = peerId, session = some e.wsControl))
  | ⟨.newWsStream _ _, _⟩ => .isTrue trivial
  | ⟨.queueReconnect _, _⟩ => .isTrue trivial

/-- The rule for reports: a report is handled only when the first entry is the session's own. -/
def ReportsOwn (s : WsNode) : WsNodeEvent → Prop
  | .turn now (.next _ _) => s.manager.dueNow now = none → ∀ q ∈ s.queue.head?, s.FirstIsOwn q
  | _ => True

instance (s : WsNode) (event : WsNodeEvent) : Decidable (s.ReportsOwn event) :=
  match event with
  | .turn now (.next _ _) => inferInstanceAs (Decidable
      (s.manager.dueNow now = none → ∀ q ∈ s.queue.head?, s.FirstIsOwn q))
  | .turn _ (.request _) => .isTrue trivial
  | .accept => .isTrue trivial
  | .connected _ => .isTrue trivial
  | .connectFailed _ => .isTrue trivial
  | .greeted _ _ => .isTrue trivial
  | .handshakeFailed _ => .isTrue trivial
  | .sessionEnds _ => .isTrue trivial

/-- The sessions that may still report or have reported, each once. -/
def tokens (s : WsNode) : List Nat :=
  s.running.map WsActivePeer.wsControl ++ s.queue.filterMap QueuedCommand.session ++ s.reported

/-- The listed sessions. -/
def Listed (s : WsNode) : List WsActivePeer :=
  s.opened.filter fun e => e.wsControl ∉ s.reported ∧ e.wsControl ∉ s.dismissed

/-- What the trace says of the manager's list. -/
structure Ledger (s : WsNode) : Prop where
  fresh : ∀ e ∈ s.opened, e.wsControl < s.manager.controls
  distinct : (s.opened.map WsActivePeer.wsControl).Nodup
  listed : s.manager.stopped = false → s.manager.currentPeers = s.Listed
  running : ∀ e ∈ s.running, e ∈ s.opened
  reports : ∀ q ∈ s.queue, ∀ k, q.session = some k → ∃ e ∈ s.opened, e.wsControl = k ∧
    q.command = .peerClosed e.peerId
  signed : ∀ q ∈ s.queue, ∀ peerId, q.command = .peerClosed peerId → q.session.isSome
  once : s.tokens.Nodup
  known : ∀ k, k ∈ s.tokens ∨ k ∈ s.dismissed → k < s.manager.controls
  reconnects : ∀ r ∈ s.reconnects, r.1 ∈ s.reported ∧ ∃ e ∈ s.opened, e.wsControl = r.1 ∧
    e.direction = .outbound r.2

variable {s s' : WsNode}

/-- A step that touches no session keeps the ledger. -/
theorem Ledger.quiet (h : s.Ledger)
    (hcurrent : s'.manager.stopped = false →
      s.manager.stopped = false ∧ s'.manager.currentPeers = s.manager.currentPeers)
    (hcontrols : s'.manager.controls = s.manager.controls)
    (hrunning : s'.running = s.running) (hopened : s'.opened = s.opened)
    (hreported : s'.reported = s.reported) (hdismissed : s'.dismissed = s.dismissed)
    (hreconnects : s'.reconnects = s.reconnects)
    (hqueue : s'.queue.filterMap QueuedCommand.session = s.queue.filterMap QueuedCommand.session)
    (hreports : ∀ q ∈ s'.queue, q ∈ s.queue ∨ q.session = none ∧
      ∀ peerId, q.command ≠ .peerClosed peerId) : s'.Ledger := by
  have htokens : s'.tokens = s.tokens := by
    unfold tokens
    rw [hrunning, hreported, hqueue]
  have hlisted : s'.Listed = s.Listed := by
    unfold Listed
    rw [hopened, hreported, hdismissed]
  refine ⟨?_, ?_, ?_, ?_, ?_, ?_, ?_, ?_, ?_⟩
  · rw [hopened, hcontrols]
    exact h.fresh
  · rw [hopened]
    exact h.distinct
  · intro hrun
    rw [(hcurrent hrun).2, hlisted]
    exact h.listed (hcurrent hrun).1
  · rw [hrunning, hopened]
    exact h.running
  · intro q hq k hk
    rw [hopened]
    obtain hold | ⟨hnone, -⟩ := hreports q hq
    · exact h.reports q hold k hk
    · rw [hnone] at hk
      cases hk
  · intro q hq peerId hclosed
    obtain hold | ⟨-, hother⟩ := hreports q hq
    · exact h.signed q hold peerId hclosed
    · exact absurd hclosed (hother peerId)
  · rw [htokens]
    exact h.once
  · rw [htokens, hcontrols, hdismissed]
    exact h.known
  · rw [hreconnects, hreported, hopened]
    exact h.reconnects

/-- A command that is no report. -/
theorem Ledger.enqueue (h : s.Ledger) {command : WsCommand}
    (hcommand : ∀ peerId, command ≠ .peerClosed peerId) : (s.enqueue command).Ledger := by
  refine h.quiet (fun hrun => ⟨hrun, rfl⟩) rfl rfl rfl rfl rfl rfl ?_ fun q hq => ?_
  · unfold WsNode.enqueue
    rw [List.filterMap_append]
    exact List.append_nil _
  · rw [WsNode.enqueue, List.mem_append, List.mem_singleton] at hq
    obtain hq | rfl := hq
    · exact Or.inl hq
    · exact Or.inr ⟨rfl, hcommand⟩

/-- A session ends and reports. -/
theorem Ledger.sessionEnds (h : s.Ledger) {i : Nat} {entry : WsActivePeer}
    (hi : s.running[i]? = some entry) :
    Ledger { s with
      running := s.running.eraseIdx i
      queue := s.queue ++ [⟨.peerClosed entry.peerId, some entry.wsControl⟩] } := by
  obtain ⟨hlt, hget⟩ := List.getElem?_eq_some_iff.mp hi
  have hin : entry ∈ s.opened := h.running entry (List.mem_of_getElem? hi)
  have hperm : (WsNode.tokens { s with
      running := s.running.eraseIdx i
      queue := s.queue ++ [⟨.peerClosed entry.peerId, some entry.wsControl⟩] }).Perm s.tokens := by
    have hrunning := (List.getElem_cons_eraseIdx_perm hlt).map WsActivePeer.wsControl
    rw [hget, List.map_cons] at hrunning
    unfold tokens
    simp only [List.filterMap_append, List.append_assoc]
    refine List.Perm.trans ?_ (hrunning.append_right _)
    rw [List.cons_append, ← List.append_assoc _ (s.queue.filterMap _)]
    exact List.perm_middle.trans (by simp)
  refine ⟨h.fresh, h.distinct, h.listed, ?_, ?_, ?_, ?_, ?_, h.reconnects⟩
  · exact fun e he => h.running e (List.mem_of_mem_eraseIdx he)
  · intro q hq k hk
    rw [List.mem_append, List.mem_singleton] at hq
    obtain hq | rfl := hq
    · exact h.reports q hq k hk
    · cases hk
      exact ⟨entry, hin, rfl, rfl⟩
  · intro q hq peerId hclosed
    rw [List.mem_append, List.mem_singleton] at hq
    obtain hq | rfl := hq
    · exact h.signed q hq peerId hclosed
    · rfl
  · exact hperm.nodup_iff.mpr h.once
  · exact fun k hk => h.known k (hk.imp_left hperm.mem_iff.mp)

/-- Removing the first entry of a kind removes one session. -/
theorem eraseP_eq_filter {entries : List WsActivePeer} {p : WsActivePeer → Bool} {e : WsActivePeer}
    (hnodup : (entries.map WsActivePeer.wsControl).Nodup) (hfind : entries.find? p = some e) :
    entries.eraseP p = entries.filter fun e' => e'.wsControl ≠ e.wsControl := by
  induction entries with
  | nil => cases hfind
  | cons a entries ih =>
    obtain ⟨hnew, hnodup⟩ := List.nodup_cons.mp hnodup
    rw [List.find?_cons] at hfind
    cases hp : p a with
    | true =>
      rw [hp] at hfind
      cases hfind
      rw [List.eraseP_cons_of_pos hp, List.filter_cons_of_neg (by simp)]
      refine (List.filter_eq_self.mpr fun e' he' => ?_).symm
      refine decide_eq_true fun heq => hnew ?_
      exact heq ▸ List.mem_map_of_mem he'
    | false =>
      rw [hp] at hfind
      have hne : a.wsControl ≠ e.wsControl := fun heq =>
        hnew (heq ▸ List.mem_map_of_mem (List.mem_of_find?_eq_some hfind))
      rw [List.eraseP_cons_of_neg (by simp [hp]), ih hnodup hfind,
        List.filter_cons_of_pos (by simpa using hne)]

/-- The listed sessions are distinct. -/
theorem Ledger.current_nodup (h : s.Ledger) (hrun : s.manager.stopped = false) :
    (s.manager.currentPeers.map WsActivePeer.wsControl).Nodup := by
  rw [h.listed hrun]
  exact h.distinct.sublist (List.filter_sublist.map _)

theorem currentPeers_peerClosed (m : WebsocketManager) (peerId : NodeId) (now : Instant) :
    (m.peerClosed peerId now).currentPeers = m.currentPeers.eraseP (fun p => p.peerId = peerId) ∧
      (m.peerClosed peerId now).controls = m.controls ∧
      (m.peerClosed peerId now).stopped = m.stopped := by
  unfold WebsocketManager.peerClosed
  cases hfind : m.currentPeers.find? fun p => p.peerId = peerId with
  | none =>
    rw [List.eraseP_of_forall_not (List.find?_eq_none.mp hfind)]
    exact ⟨rfl, rfl, rfl⟩
  | some closedPeer =>
    cases hdir : closedPeer.direction with
    | inbound => simp only [hdir, and_self]
    | outbound config => simp only [hdir, and_self]

/-- Handling a report of a session whose entry is the first with its peer id: that entry goes
and no other. -/
theorem Ledger.currentPeers_report (h : s.Ledger) (hrun : s.manager.stopped = false) {k : Nat}
    {e : WsActivePeer} (he : e ∈ s.opened) (hk : e.wsControl = k)
    (hown : s.FirstIsOwn ⟨.peerClosed e.peerId, some k⟩) (now : Instant) :
    (s.manager.peerClosed e.peerId now).currentPeers =
      s.manager.currentPeers.filter fun e' => e'.wsControl ≠ k := by
  rw [(currentPeers_peerClosed _ _ _).1]
  cases hfind : s.manager.currentPeers.find? fun p => p.peerId = e.peerId with
  | none =>
    have hnone := List.find?_eq_none.mp hfind
    rw [List.eraseP_of_forall_not hnone]
    refine (List.filter_eq_self.mpr fun e' he' => ?_).symm
    rw [decide_eq_true_eq]
    intro heq
    have hopened : e' ∈ s.opened := by
      rw [h.listed hrun] at he'
      exact List.mem_of_mem_filter he'
    -- A session with this control channel is the one that has reported.
    have hsame : e' = e := List.inj_on_of_nodup_map h.distinct hopened he (heq.trans hk.symm)
    exact hnone e' he' (by rw [hsame]; simp)
  | some first =>
    have hfirst := hown first hfind
    cases hfirst
    exact eraseP_eq_filter (h.current_nodup hrun) hfind

/-- Without a session, the listed ones are those without it as reported or dismissed. -/
theorem filter_listed (opened : List WsActivePeer) (reported dismissed : List Nat) (k : Nat) :
    ((opened.filter fun e => e.wsControl ∉ reported ∧ e.wsControl ∉ dismissed).filter
        fun e => e.wsControl ≠ k) =
      (opened.filter fun e => e.wsControl ∉ k :: reported ∧ e.wsControl ∉ dismissed) ∧
    ((opened.filter fun e => e.wsControl ∉ reported ∧ e.wsControl ∉ dismissed).filter
        fun e => e.wsControl ≠ k) =
      opened.filter fun e => e.wsControl ∉ reported ∧ e.wsControl ∉ k :: dismissed := by
  rw [List.filter_filter]
  constructor
  · refine List.filter_congr fun e _ => ?_
    simp only [List.mem_cons, not_or, ← Bool.decide_and]
    exact decide_eq_decide.mpr and_assoc.symm
  · refine List.filter_congr fun e _ => ?_
    simp only [List.mem_cons, not_or, ← Bool.decide_and]
    exact decide_eq_decide.mpr and_left_comm

/-- A report is handled. -/
theorem Ledger.report (h : s.Ledger) (hrun : s.manager.stopped = false) {q : QueuedCommand}
    {rest : List QueuedCommand} (hqueue : s.queue = q :: rest) {peerId : NodeId}
    (hclosed : q.command = .peerClosed peerId) (hown : s.FirstIsOwn q) (now : Instant) :
    (({ s with queue := rest }.noteReport q).act (s.manager.peerClosed peerId now, [])).Ledger := by
  have hq : q ∈ s.queue := by
    rw [hqueue]
    exact List.mem_cons_self
  obtain ⟨k, hk⟩ := Option.isSome_iff_exists.mp (h.signed q hq peerId hclosed)
  obtain ⟨command, session⟩ := q
  cases hclosed
  cases hk
  obtain ⟨e, he, hek, hpeer⟩ := h.reports _ hq k rfl
  cases hpeer
  have hcurrent := h.currentPeers_report hrun he hek hown now
  obtain ⟨-, hcontrols, hstopped⟩ := currentPeers_peerClosed s.manager e.peerId now
  have hperm : (s.running.map WsActivePeer.wsControl ++ rest.filterMap QueuedCommand.session ++
      k :: s.reported).Perm s.tokens := by
    unfold tokens
    have hhead : (⟨.peerClosed e.peerId, some k⟩ :: rest : List QueuedCommand).filterMap
        QueuedCommand.session = k :: rest.filterMap QueuedCommand.session := rfl
    rw [hqueue, hhead, List.append_assoc, List.append_assoc, List.cons_append]
    exact List.perm_middle.append_left _
  unfold noteReport act
  simp only [List.filterMap_nil, List.append_nil]
  refine ⟨?_, h.distinct, ?_, h.running, ?_, ?_, ?_, ?_, ?_⟩
  · simp only [hcontrols]
    exact h.fresh
  · intro _
    simp only [hcurrent]
    rw [h.listed hrun]
    exact (filter_listed s.opened s.reported s.dismissed k).1
  · intro q hq
    exact h.reports q (by rw [hqueue]; exact List.mem_cons_of_mem _ hq)
  · intro q hq
    exact h.signed q (by rw [hqueue]; exact List.mem_cons_of_mem _ hq)
  · exact hperm.nodup_iff.mpr h.once
  · simp only [hcontrols]
    exact fun j hj => h.known j (hj.imp_left hperm.mem_iff.mp)
  · intro r hr
    have hold : ∀ r ∈ s.reconnects, r.1 ∈ k :: s.reported ∧ ∃ e ∈ s.opened, e.wsControl = r.1 ∧
        e.direction = .outbound r.2 := fun r hr =>
      ⟨List.mem_cons_of_mem _ (h.reconnects r hr).1, (h.reconnects r hr).2⟩
    split at hr
    · next config _ control hfind =>
      obtain rfl | hr := List.mem_cons.mp hr
      · have hfirst : some k = some control := hown _ hfind
        cases hfirst
        have hlisted := List.mem_of_find?_eq_some hfind
        rw [h.listed hrun] at hlisted
        exact ⟨List.mem_cons_self, _, List.mem_of_mem_filter hlisted, rfl, rfl⟩
      · exact hold r hr
    · exact hold r hr

/-- A session is entered. -/
theorem Ledger.newWsStream (h : s.Ledger) (hrun : s.manager.stopped = false) {q : QueuedCommand}
    {rest : List QueuedCommand} (hqueue : s.queue = q :: rest) (hsession : q.session = none)
    (entry : WsActivePeer) (hentry : entry.wsControl = s.manager.controls) :
    Ledger { s with
      queue := rest
      manager := { s.manager with
        currentPeers := s.manager.currentPeers ++ [entry]
        controls := s.manager.controls + 1 }
      running := s.running ++ [entry]
      opened := s.opened ++ [entry] } := by
  have hreported : s.manager.controls ∉ s.reported := fun hin =>
    absurd (h.known _ (Or.inl (List.mem_append_right _ hin))) (lt_irrefl _)
  have hdismissed : s.manager.controls ∉ s.dismissed := fun hin =>
    absurd (h.known _ (Or.inr hin)) (lt_irrefl _)
  have hperm : (WsNode.tokens { s with queue := rest, running := s.running ++ [entry] }).Perm
      (s.manager.controls :: s.tokens) := by
    unfold tokens
    rw [hqueue, List.filterMap_cons_none hsession, List.map_append, List.map_singleton, hentry]
    simp only [List.append_assoc, List.singleton_append]
    exact List.perm_middle
  refine ⟨?_, ?_, ?_, ?_, ?_, ?_, ?_, ?_, ?_⟩
  · intro e he
    rw [List.mem_append, List.mem_singleton] at he
    obtain he | rfl := he
    · exact (h.fresh e he).trans (Nat.lt_succ_self _)
    · rw [hentry]
      exact Nat.lt_succ_self _
  · rw [List.map_append, List.map_singleton, List.nodup_append]
    refine ⟨h.distinct, List.nodup_singleton _, fun a ha b hb => ?_⟩
    obtain ⟨e, he, rfl⟩ := List.mem_map.mp ha
    rw [List.mem_singleton.mp hb, hentry]
    exact (h.fresh e he).ne
  · intro _
    unfold Listed
    rw [List.filter_append, h.listed hrun]
    have hkeep : [entry].filter (fun e => e.wsControl ∉ s.reported ∧ e.wsControl ∉ s.dismissed) =
        [entry] := by
      rw [List.filter_cons_of_pos (by simp [hentry, hreported, hdismissed]), List.filter_nil]
    rw [hkeep]
    rfl
  · intro e he
    rw [List.mem_append] at he ⊢
    exact he.imp_left (h.running e)
  · intro q' hq' k hk
    obtain ⟨e, he, hspec⟩ := h.reports q' (by rw [hqueue]; exact List.mem_cons_of_mem _ hq') k hk
    exact ⟨e, List.mem_append_left _ he, hspec⟩
  · intro q' hq'
    exact h.signed q' (by rw [hqueue]; exact List.mem_cons_of_mem _ hq')
  · refine hperm.nodup_iff.mpr (List.nodup_cons.mpr ⟨fun hin => ?_, h.once⟩)
    exact absurd (h.known _ (Or.inl hin)) (lt_irrefl _)
  · intro k hk
    obtain hk | hk := hk
    · obtain rfl | hk := List.mem_cons.mp (hperm.mem_iff.mp hk)
      · exact Nat.lt_succ_self _
      · exact (h.known k (Or.inl hk)).trans (Nat.lt_succ_self _)
    · exact (h.known k (Or.inr hk)).trans (Nat.lt_succ_self _)
  · intro r hr
    obtain ⟨hin, e, he, hspec⟩ := h.reconnects r hr
    exact ⟨hin, e, List.mem_append_left _ he, hspec⟩

/-- A request removes the first session to an address from the list. -/
theorem Ledger.removePeer (h : s.Ledger) (hrun : s.manager.stopped = false) (url : WsUrl) :
    ((s.noteRequest (.removePeer url)).act (s.manager.removeWsPeer url)).Ledger := by
  have hquiet : (s.manager.removeWsPeer url).2.filterMap WsAction.runs = [] := by
    unfold WebsocketManager.removeWsPeer
    cases s.manager.currentPeers.find? fun p => p.direction.isToUrl url with
    | none => rfl
    | some peer => rfl
  have hrest : ((s.noteRequest (.removePeer url)).act (s.manager.removeWsPeer url)).tokens =
      s.tokens := by
    unfold tokens act noteRequest
    simp only [hquiet, List.append_nil]
  unfold act noteRequest at hrest ⊢
  simp only [hquiet, List.append_nil] at hrest ⊢
  cases hfind : s.manager.currentPeers.find? fun p => p.direction.isToUrl url with
  | none =>
    have hsame : (s.manager.removeWsPeer url).1.currentPeers = s.manager.currentPeers :=
      List.eraseP_of_forall_not (List.find?_eq_none.mp hfind)
    exact h.quiet (fun _ => ⟨hrun, hsame⟩) rfl rfl rfl rfl rfl rfl rfl fun q hq => Or.inl hq
  | some e =>
    have hin := List.mem_of_find?_eq_some hfind
    rw [h.listed hrun] at hin
    have hopened := List.mem_of_mem_filter hin
    refine ⟨h.fresh, h.distinct, fun _ => ?_, h.running, h.reports, h.signed, ?_, ?_, h.reconnects⟩
    · have hcurrent : (s.manager.removeWsPeer url).1.currentPeers =
          s.manager.currentPeers.eraseP fun p => p.direction.isToUrl url := rfl
      rw [hcurrent, eraseP_eq_filter (h.current_nodup hrun) hfind, h.listed hrun]
      exact (filter_listed s.opened s.reported s.dismissed e.wsControl).2
    · exact h.once
    · intro k hk
      obtain hk | hk := hk
      · exact h.known k (Or.inl hk)
      · simp only [Option.map_some, Option.toList_some, List.singleton_append, List.mem_cons] at hk
        obtain rfl | hk := hk
        · exact h.fresh e hopened
        · exact h.known k (Or.inr hk)

/-- The manager connects to a peer, or handles a request or notice other than a removal. -/
theorem Ledger.listenQuiet (h : s.Ledger) {r : WebsocketManager × List WsAction}
    (hruns : r.2.filterMap WsAction.runs = [])
    (hcurrent : r.1.stopped = false → s.manager.stopped = false ∧
      r.1.currentPeers = s.manager.currentPeers) (hcontrols : r.1.controls = s.manager.controls)
    (removed : List WsUrl) : (({ s with removed := removed } : WsNode).act r).Ledger := by
  refine h.quiet hcurrent hcontrols ?_ ?_ rfl rfl rfl rfl fun q hq => Or.inl hq
  · exact (congrArg _ hruns).trans (List.append_nil _)
  · exact (congrArg _ hruns).trans (List.append_nil _)

/-- Only a report names a session. -/
theorem Ledger.unsigned (h : s.Ledger) {q : QueuedCommand} (hq : q ∈ s.queue)
    (hcommand : ∀ peerId, q.command ≠ .peerClosed peerId) : q.session = none := by
  cases hsession : q.session with
  | none => rfl
  | some k =>
    obtain ⟨e, -, -, hclosed⟩ := h.reports q hq k hsession
    exact absurd hclosed (hcommand e.peerId)

theorem Ledger.command (h : s.Ledger) (hrun : s.manager.stopped = false) {q : QueuedCommand}
    {rest : List QueuedCommand} (hqueue : s.queue = q :: rest) (hown : s.FirstIsOwn q)
    (now : Instant) (connectionId : ConnectionId) :
    (({ s with queue := rest }.noteReport q).act
      (s.manager.handleCommand q.command now connectionId)).Ledger := by
  have hq : q ∈ s.queue := by
    rw [hqueue]
    exact List.mem_cons_self
  obtain ⟨command, session⟩ := q
  cases command with
  | peerClosed peerId => exact h.report hrun hqueue rfl hown now
  | newWsStream wsPendingPeer peerId =>
    obtain rfl : session = none := h.unsigned hq fun peerId heq => by cases heq
    cases wsPendingPeer with
    | none => exact h.newWsStream hrun hqueue rfl ⟨.inbound, peerId, s.manager.controls⟩ rfl
              |>.quiet (fun _ => ⟨hrun, rfl⟩) rfl rfl rfl rfl rfl rfl rfl fun q hq => Or.inl hq
    | some peer =>
      exact h.newWsStream hrun hqueue rfl ⟨.outbound peer.config, peerId, s.manager.controls⟩ rfl
        |>.quiet (fun _ => ⟨hrun, rfl⟩) rfl rfl rfl rfl rfl rfl rfl fun q hq => Or.inl hq
  | queueReconnect peer =>
    obtain rfl : session = none := h.unsigned hq fun peerId heq => by cases heq
    refine h.quiet (fun _ => ⟨hrun, rfl⟩) rfl (List.append_nil _) (List.append_nil _) rfl rfl rfl ?_
      fun q hq => Or.inl ?_
    · rw [hqueue]
      rfl
    · rw [hqueue]
      exact List.mem_cons_of_mem _ hq

theorem Ledger.request (h : s.Ledger) (hrun : s.manager.stopped = false) {input : WsInput}
    (hinput : ∀ command now connectionId, input ≠ .command command now connectionId) :
    ((s.noteRequest input).act (s.manager.react input)).Ledger := by
  cases input with
  | command command now connectionId => exact absurd rfl (hinput command now connectionId)
  | removePeer url => exact h.removePeer hrun url
  | timeout now =>
    simp only [WebsocketManager.react]
    cases hready : s.manager.getNextReadyPeer now with
    | none => exact h.listenQuiet rfl (fun hstop => ⟨hstop, rfl⟩) rfl s.removed
    | some ready =>
      obtain ⟨peer, m⟩ := ready
      obtain ⟨rest, -, rfl⟩ := WebsocketManager.getNextReadyPeer_cases hready
      exact h.listenQuiet rfl (fun _ => ⟨hrun, rfl⟩) rfl s.removed
  | addPeer peerConfig now =>
    simp only [WebsocketManager.react, WebsocketManager.addWsPeer]
    split
    · exact h.listenQuiet rfl (fun hstop => ⟨hstop, rfl⟩) rfl _
    · exact h.listenQuiet rfl (fun _ => ⟨hrun, rfl⟩) rfl _
  | resuming clock =>
    refine h.listenQuiet (r := s.manager.onResume clock) ?_ (fun _ => ⟨hrun, rfl⟩) rfl s.removed
    rw [List.filterMap_eq_nil_iff]
    intro action haction
    obtain ⟨p, -, rfl⟩ := List.mem_map.mp haction
    rfl
  | otherStatus => exact h.listenQuiet rfl (fun hstop => ⟨hstop, rfl⟩) rfl s.removed
  | shuttingDown =>
    refine h.listenQuiet (r := s.manager.shutdown) ?_ (fun hstop => by cases hstop) rfl s.removed
    rw [List.filterMap_eq_nil_iff]
    intro action haction
    obtain ⟨p, -, rfl⟩ := List.mem_map.mp haction
    rfl

theorem Ledger.turn (h : s.Ledger) {now : Instant} {wake : WsWake}
    (hown : s.ReportsOwn (.turn now wake)) (hs : s.step (.turn now wake) = some s') : s'.Ledger := by
  obtain ⟨hrun, ⟨peer, m, hdue, rfl⟩ | ⟨hdue, ⟨now', connectionId, q, rest, rfl, hqueue, rfl⟩ |
    ⟨input, rfl, hinput, rfl⟩⟩⟩ := turn_cases hs
  · obtain ⟨-, hm⟩ | ⟨rest, -, hm⟩ := WebsocketManager.dueNow_cases hdue
    · rw [hm]
      exact h.listenQuiet rfl (fun _ => ⟨hrun, rfl⟩) rfl s.removed
    · rw [hm]
      exact h.listenQuiet rfl (fun _ => ⟨hrun, rfl⟩) rfl s.removed
  · refine h.command hrun hqueue (hown hdue q ?_) now' connectionId
    rw [hqueue]
    rfl
  · exact h.request hrun hinput

theorem ledger_of_reaches (h : machine.Reaches ReportsOwn s) : s.Ledger := by
  refine h.invariant ?_ ?_
  · rintro s ⟨wsPeers, clock, rfl⟩
    exact ⟨by simp [new], List.nodup_nil, fun _ => rfl, by simp [new], by simp [new], by simp [new],
      List.nodup_nil, by simp [new, tokens], by simp [new]⟩
  · intro s event s' hledger hown hs
    cases event with
    | turn now wake => exact hledger.turn hown hs
    | accept =>
      cases hs
      exact hledger.quiet (fun hrun => ⟨hrun, rfl⟩) rfl rfl rfl rfl rfl rfl rfl fun q hq => Or.inl hq
    | sessionEnds i =>
      obtain ⟨entry, hi, rfl⟩ := Option.map_eq_some_iff.mp hs
      exact hledger.sessionEnds hi
    | connected i =>
      obtain ⟨peer, -, rfl⟩ := Option.map_eq_some_iff.mp hs
      exact hledger.quiet (fun hrun => ⟨hrun, rfl⟩) rfl rfl rfl rfl rfl rfl rfl fun q hq => Or.inl hq
    | connectFailed i =>
      obtain ⟨peer, -, rfl⟩ := Option.map_eq_some_iff.mp hs
      refine Ledger.enqueue ?_ fun peerId heq => by cases heq
      exact hledger.quiet (fun hrun => ⟨hrun, rfl⟩) rfl rfl rfl rfl rfl rfl rfl fun q hq => Or.inl hq
    | greeted i peerId =>
      obtain ⟨pending, -, rfl⟩ := Option.map_eq_some_iff.mp hs
      refine Ledger.enqueue ?_ fun peerId heq => by cases heq
      exact hledger.quiet (fun hrun => ⟨hrun, rfl⟩) rfl rfl rfl rfl rfl rfl rfl fun q hq => Or.inl hq
    | handshakeFailed i =>
      obtain ⟨pending, -, rfl⟩ := Option.map_eq_some_iff.mp hs
      have hdrop : Ledger { s with handshaking := s.handshaking.eraseIdx i } :=
        hledger.quiet (fun hrun => ⟨hrun, rfl⟩) rfl rfl rfl rfl rfl rfl rfl fun q hq => Or.inl hq
      cases pending with
      | none => exact hdrop
      | some peer => exact hdrop.enqueue fun peerId heq => by cases heq

/-- If every report is handled when the first entry with its peer id is the session's own,
the listed sessions are those entered and neither reported closed nor shut down on request.
A report that waits is the first of its session and stands for a listed one, handling it
removes the entry of that session and no other, and each reconnect on a report is to the
peer of an outbound session that has reported. -/
theorem closed_session_removes_own (h : machine.Reaches ReportsOwn s)
    (hrun : s.manager.stopped = false) :
    s.manager.currentPeers = s.Listed ∧
    (∀ q ∈ s.queue, ∀ k, q.session = some k → k ∉ s.reported ∧ (k ∉ s.dismissed →
      ∃ e ∈ s.manager.currentPeers, e.wsControl = k ∧ q.command = .peerClosed e.peerId)) ∧
    (∀ q ∈ s.queue, ∀ k peerId now, q = ⟨.peerClosed peerId, some k⟩ → s.FirstIsOwn q →
      (s.manager.peerClosed peerId now).currentPeers =
        s.manager.currentPeers.filter fun e => e.wsControl ≠ k) ∧
    ∀ r ∈ s.reconnects, r.1 ∈ s.reported ∧ ∃ e ∈ s.opened, e.wsControl = r.1 ∧
      e.direction = .outbound r.2 := by
  have hledger := ledger_of_reaches h
  refine ⟨hledger.listed hrun, fun q hq k hk => ?_, fun q hq k peerId now hreport hown => ?_,
    hledger.reconnects⟩
  · obtain ⟨e, he, hek, hclosed⟩ := hledger.reports q hq k hk
    have hwaiting : k ∈ s.running.map WsActivePeer.wsControl ++
        s.queue.filterMap QueuedCommand.session :=
      List.mem_append_right _ (List.mem_filterMap.mpr ⟨q, hq, hk⟩)
    have hnew : k ∉ s.reported := fun hin =>
      (List.nodup_append.mp hledger.once).2.2 k hwaiting k hin rfl
    refine ⟨hnew, fun hkept => ⟨e, ?_, hek, hclosed⟩⟩
    rw [hledger.listed hrun]
    exact List.mem_filter.mpr ⟨he, decide_eq_true ⟨hek ▸ hnew, hek ▸ hkept⟩⟩
  · subst hreport
    obtain ⟨e, he, hek, hclosed⟩ := hledger.reports _ hq k rfl
    cases hclosed
    exact hledger.currentPeers_report hrun he hek hown now

/-- The server that node 2 runs. -/
def homeConfig : WebSocketPeerConfig := ⟨"ws://home", "home"⟩

/-- A session to node 2, and one that node 2 has opened. -/
def bothWays : List WsNodeEvent :=
  [.turn 0 (.request .otherStatus), .connected 0, .greeted 0 2, .accept, .greeted 0 2,
    .turn 0 (.next 0 1), .turn 0 (.next 0 2)]

theorem older_session_closed : ∃ s : WsNode,
    s.manager.currentPeers = [⟨.inbound, 2, 1⟩] ∧ s.reported = [0] ∧
    s.reconnects = [(0, homeConfig)] ∧ s.manager.currentPeers = s.Listed := by
  have hend : (Machine.run step ReportsOwn (.new [homeConfig] fun _ => 0)
      (bothWays ++ [.sessionEnds 0, .turn 0 (.next 5 0)])).map (fun s =>
        (s.manager.stopped, s.manager.currentPeers, s.reported, s.reconnects)) =
      some (false, [⟨.inbound, 2, 1⟩], [0], [(0, homeConfig)]) := by
    decide +kernel
  obtain ⟨s, hrun, hend⟩ := Option.map_eq_some_iff.mp hend
  simp only [Prod.mk.injEq] at hend
  exact ⟨s, hend.2.1, hend.2.2.1, hend.2.2.2,
    (closed_session_removes_own (reaches_of_run hrun) hend.1).1⟩

/-- The session that node 2 has opened ends first. The entry of the other one is removed,
and a reconnect is scheduled for it although it is up. -/
theorem younger_session_closed : ∃ s : WsNode, machine.Reaches (fun _ _ => True) s ∧
    s.manager.stopped = false ∧ s.manager.currentPeers = [⟨.inbound, 2, 1⟩] ∧
    s.Listed = [⟨.outbound homeConfig, 2, 0⟩] ∧ s.reconnects = [(1, homeConfig)] := by
  have hend : (Machine.run step (fun _ _ => True) (.new [homeConfig] fun _ => 0)
      (bothWays ++ [.sessionEnds 1, .turn 0 (.next 5 0)])).map (fun s =>
        (s.manager.stopped, s.manager.currentPeers, s.Listed, s.reconnects)) =
      some (false, [⟨.inbound, 2, 1⟩], [⟨.outbound homeConfig, 2, 0⟩], [(1, homeConfig)]) := by
    decide +kernel
  obtain ⟨s, hrun, hend⟩ := Option.map_eq_some_iff.mp hend
  simp only [Prod.mk.injEq] at hend
  exact ⟨s, reaches_of_run hrun, hend.1, hend.2.1, hend.2.2.1, hend.2.2.2⟩

end Anybus.WsNode
