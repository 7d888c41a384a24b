import Anybus.Ipc.Tasks
import Mathlib.Data.List.Nodup

/-!
# Entries without a session

A session is entered when it is announced and removed when it reports that it is closed. A
task that gives up waiting for the answer to its announcement reports something else, and
its entry stays for ever. As long as no task gives up, every entry belongs to a task that
has not ended or whose report is on its way. No peer is ever listed twice.
-/

namespace Anybus

/-- The session that a command announces for a task. -/
def IpcCommand.announces (t : Nat) : IpcCommand Nat → Option RegisteredPeer
  | .sessionReady id control c => if control = t then some ⟨id, c⟩ else none
  | _ => none

namespace IpcNode

variable {node node' : IpcNode} {t : Nat} {task : IpcPeer Nat} {p : RegisteredPeer}

/-- The sessions that a task has announced and the manager has not answered. -/
def announcements (node : IpcNode) (t : Nat) : List RegisteredPeer :=
  node.commands.filterMap (IpcCommand.announces t)

/-- What a task is told, sent or not. -/
def inbox (node : IpcNode) (t : Nat) : List IpcControl :=
  node.controls t ++ node.outbox.filterMap fun c => if c.1 = t then some c.2 else none

def Lists (node : IpcNode) (t : Nat) : Prop := ∃ e ∈ node.manager.peers, e.control = t

/-- The manager does not know of a task. -/
structure Unheard (node : IpcNode) (t : Nat) : Prop where
  announced : node.announcements t = []
  unlisted : ¬ node.Lists t
  inbox : node.inbox t = []

/-- The manager has entered a task with its peer, though it may have dropped the entry. -/
structure Entered (node : IpcNode) (t : Nat) (p : RegisteredPeer) : Prop where
  announced : node.announcements t = []
  entry : ∀ e ∈ node.manager.peers, e.control = t → p = ⟨e.nodeId, e.connectionId⟩

/-- How far a task has come, and what the manager knows of it. -/
inductive Standing (node : IpcNode) (t : Nat) (task : IpcPeer Nat) : Prop where
  | unannounced (h : node.Unheard t) (hst : task.state.Unannounced)
      (hp : ∀ id c, task.state = .helloReceived id c → task.peer = some ⟨id, c⟩)
  | announced (p : RegisteredPeer) (h : node.announcements t = [p]) (hlist : ¬ node.Lists t)
      (hin : node.inbox t = []) (hst : task.state = .awaitAccepted) (hp : task.peer = some p)
  | accepted (p : RegisteredPeer) (rest : List IpcControl) (h : node.Entered t p)
      (hin : node.inbox t = .accepted :: rest) (hst : task.state = .awaitAccepted)
      (hp : task.peer = some p)
  | running (p : RegisteredPeer) (h : node.Entered t p) (hst : task.state.Running)
      (hest : task.established = true) (hp : task.peer = some p)
  | ended (p : RegisteredPeer) (h : node.Entered t p) (hst : task.state = .ended)
      (hp : task.peer = some p)
      (hclosed : node.Lists t → .peerClosed p.peerId p.connectionId ∈ node.commands)

/-- A change of the node that matters little to a task: it is announced as before, it gains
no entry, it is told something only if it is listed, and a report that it is closed is
lost only together with its entry. -/
structure Keeps (node node' : IpcNode) (t : Nat) : Prop where
  announcements : node'.announcements t = node.announcements t
  entries : ∀ e ∈ node'.manager.peers, e.control = t → e ∈ node.manager.peers
  inbox : node'.inbox t = node.inbox t ∨
    node.Lists t ∧ ∃ l, node'.inbox t = node.inbox t ++ l
  closed : ∀ id c, .peerClosed id c ∈ node.commands → .peerClosed id c ∈ node'.commands ∨
    ∀ e ∈ node'.manager.peers, ¬ (e.nodeId = id ∧ e.connectionId = c)

theorem Keeps.lists (h : node.Keeps node' t) (hlist : node'.Lists t) : node.Lists t := by
  obtain ⟨e, he, ht⟩ := hlist
  exact ⟨e, h.entries e he ht, ht⟩

theorem Keeps.inbox_of_unlisted (h : node.Keeps node' t) (hlist : ¬ node.Lists t) :
    node'.inbox t = node.inbox t := by
  obtain heq | ⟨hlist', -⟩ := h.inbox
  · exact heq
  · exact absurd hlist' hlist

theorem Keeps.unheard (h : node.Keeps node' t) (hun : node.Unheard t) : node'.Unheard t :=
  ⟨h.announcements.trans hun.announced, fun hlist => hun.unlisted (h.lists hlist),
    (h.inbox_of_unlisted hun.unlisted).trans hun.inbox⟩

theorem Keeps.entered (h : node.Keeps node' t) (hen : node.Entered t p) : node'.Entered t p :=
  ⟨h.announcements.trans hen.announced, fun e he ht => hen.entry e (h.entries e he ht) ht⟩

theorem Standing.keep (hs : node.Standing t task) (h : node.Keeps node' t) :
    node'.Standing t task := by
  cases hs with
  | unannounced hun hst hp => exact .unannounced (h.unheard hun) hst hp
  | announced p hann hlist hin hst hp =>
    exact .announced p (h.announcements.trans hann) (fun hlist' => hlist (h.lists hlist'))
      ((h.inbox_of_unlisted hlist).trans hin) hst hp
  | accepted p rest hen hin hst hp =>
    obtain heq | ⟨-, l, heq⟩ := h.inbox
    · exact .accepted p rest (h.entered hen) (heq.trans hin) hst hp
    · rw [hin] at heq
      exact .accepted p (rest ++ l) (h.entered hen) heq hst hp
  | running p hen hst hest hp => exact .running p (h.entered hen) hst hest hp
  | ended p hen hst hp hclosed =>
    refine .ended p (h.entered hen) hst hp ?_
    intro hlist
    obtain hmem | hgone := h.closed _ _ (hclosed (h.lists hlist))
    · exact hmem
    · obtain ⟨e, he, ht⟩ := hlist
      have hentry := hen.entry e (h.entries e he ht) ht
      refine absurd ?_ (hgone e he)
      rw [hentry]
      exact ⟨rfl, rfl⟩

/-- What a task finds when it takes its input, and what it leaves. -/
structure Took (node : IpcNode) (t : Nat) (input : IpcInput) (controls : Nat → List IpcControl) :
    Prop where
  others : ∀ t', t' ≠ t → controls t' = node.controls t'
  own : (controls t = node.controls t ∧ ∀ message, input ≠ .control message) ∨
    ∃ c, input = .control (some c) ∧ node.controls t = c :: controls t
  told : node.running = true → input ≠ .told false

theorem take_eq {input : IpcInput} (h : node.take t input = some node') :
    ∃ controls, node' = { node with controls := controls } ∧ node.Took t input controls := by
  cases input with
  | told ok =>
    simp only [take, Option.ite_none_right_eq_some, Option.some.injEq] at h
    obtain ⟨hok, rfl⟩ := h
    refine ⟨node.controls, rfl, fun _ _ => rfl, .inl ⟨rfl, by simp⟩, ?_⟩
    intro hrun hfalse
    rw [hrun, Bool.true_or] at hok
    cases hfalse
    cases hok
  | control message =>
    cases message with
    | none => cases h
    | some message =>
      simp only [take] at h
      split at h
      · next c rest hc =>
        rw [Option.ite_none_right_eq_some] at h
        obtain ⟨rfl, h⟩ := h
        refine ⟨_, (Option.some.inj h).symm, ?_, .inr ⟨c, rfl, ?_⟩, by simp⟩
        · intro t' hne
          exact Function.update_of_ne hne _ _
        · rw [Function.update_self]
          exact hc
      · cases h
  | wrote | read | node | elapsed | proceed =>
    obtain rfl := Option.some.inj h
    exact ⟨node.controls, rfl, fun _ _ => rfl, .inl ⟨rfl, by simp⟩, by simp⟩

theorem stepTask_eq {ctx : IpcContext} {input : IpcInput}
    (h : node.stepTask t ctx input = some node') :
    ∃ task r controls, node.tasks[t]? = some task ∧ task.next ctx input = some r ∧
      node.Took t input controls ∧ node' = { node with
        controls := controls
        tasks := node.tasks.set t r.1
        commands := node.commands ++ r.2.filterMap IpcEffect.told } := by
  unfold stepTask at h
  split at h
  · next task taken htask htake =>
    obtain ⟨r, hr, rfl⟩ := Option.map_eq_some_iff.mp h
    obtain ⟨controls, rfl, htook⟩ := take_eq htake
    exact ⟨task, r, controls, htask, hr, htook, rfl⟩
  · cases h

/-- Commands that announce nothing for a task leave its announcements alone. -/
theorem announcements_append {commands : List (IpcCommand Nat)}
    (h : ∀ command ∈ commands, command.announces t = none) :
    (node.commands ++ commands).filterMap (IpcCommand.announces t) = node.announcements t := by
  rw [List.filterMap_append, List.filterMap_eq_nil_iff.mpr h, List.append_nil]
  rfl

/-- A task that is told nothing takes no control. -/
theorem Took.of_nil {input : IpcInput} {controls : Nat → List IpcControl}
    (h : node.Took t input controls) (hin : node.inbox t = []) :
    controls t = [] ∧ ∀ message, input ≠ .control message := by
  have hnil : node.controls t = [] := (List.append_eq_nil_iff.mp hin).1
  obtain ⟨heq, hno⟩ | ⟨c, -, heq⟩ := h.own
  · exact ⟨heq.trans hnil, hno⟩
  · rw [hnil] at heq
    cases heq

/-- The step of a task as the manager sees it: the task itself gets to a new standing, and
nothing is announced for any other. -/
theorem Standing.next {ctx : IpcContext} {input : IpcInput} {r : IpcPeer Nat × List (IpcEffect Nat)}
    {controls : Nat → List IpcControl} (hs : node.Standing t task)
    (hown : task.control = t) (hrun : node.running = true) (hr : task.next ctx input = some r)
    (htook : node.Took t input controls)
    (hpat : input = .elapsed → task.state ≠ .awaitAccepted) (tasks : List (IpcPeer Nat)) :
    r.1.control = t ∧
      (∀ command ∈ r.2.filterMap IpcEffect.told, ∀ t', t' ≠ t → command.announces t' = none) ∧
      { node with
        controls := controls
        tasks := tasks
        commands := node.commands ++ r.2.filterMap IpcEffect.told }.Standing t r.1 := by
  cases hs with
  | unannounced hun hst hp =>
    obtain ⟨hnil, hno⟩ := htook.of_nil hun.inbox
    have hin : controls t ++ node.outbox.filterMap (fun c => if c.1 = t then some c.2 else none) =
        [] := by
      rw [hnil]
      exact (List.append_eq_nil_iff.mp hun.inbox).2
    by_cases hrec : ∃ id c, task.state = .helloReceived id c
    · obtain ⟨id, c, hrec⟩ := hrec
      obtain ⟨ok, rfl, rfl⟩ := IpcPeer.next_helloReceived hr hrec
      cases ok with
      | false => exact absurd rfl (htook.told hrun)
      | true =>
        refine ⟨hown, ?_, .announced ⟨id, c⟩ ?_ hun.unlisted hin rfl (hp id c hrec)⟩
        · intro command hmem t' hne
          obtain rfl : command = .sessionReady id task.control c := by
            simpa [IpcEffect.told] using hmem
          rw [hown]
          exact if_neg (Ne.symm hne)
        · change (node.commands ++ [_]).filterMap _ = _
          rw [List.filterMap_append]
          change node.announcements t ++ _ = _
          rw [hun.announced, hown]
          simp [IpcCommand.announces]
    · have hnot : ∀ id c, task.state ≠ .helloReceived id c := fun id c h => hrec ⟨id, c, h⟩
      obtain ⟨hcontrol, hst', hp', htold⟩ := IpcPeer.next_unannounced hr hst hnot
      have hnone : ∀ command ∈ r.2.filterMap IpcEffect.told, ∀ t', command.announces t' = none := by
        intro command hmem t'
        rw [htold command hmem]
        rfl
      refine ⟨hcontrol.trans hown, fun command hmem t' _ => hnone command hmem t', ?_⟩
      refine .unannounced ⟨?_, hun.unlisted, hin⟩ hst' hp'
      exact (announcements_append fun command hmem => hnone command hmem t).trans hun.announced
  | announced p hann hlist hin hst hp =>
    obtain ⟨-, hno⟩ := htook.of_nil hin
    obtain ⟨rfl, -⟩ | ⟨-, hcontrol | rfl, -⟩ := IpcPeer.next_awaitAccepted hr hst
    · exact absurd rfl (hno _)
    · obtain ⟨message, rfl⟩ := hcontrol
      exact absurd rfl (hno _)
    · exact absurd hst (hpat rfl)
  | accepted p rest hen hin hst hp =>
    -- the first control of a task is the answer to its announcement
    obtain ⟨rfl, rfl⟩ | ⟨hne, hcontrol | rfl, -⟩ := IpcPeer.next_awaitAccepted hr hst
    · refine ⟨hown, by simp, .running p ⟨?_, hen.entry⟩ trivial rfl hp⟩
      exact (announcements_append (by simp)).trans hen.announced
    · obtain ⟨message, rfl⟩ := hcontrol
      obtain ⟨-, hno⟩ | ⟨c, hc, heq⟩ := htook.own
      · exact absurd rfl (hno _)
      · rw [inbox, heq, List.cons_append] at hin
        rw [(List.cons.inj hin).1] at hc
        exact absurd hc hne
    · exact absurd hst (hpat rfl)
  | running p hen hst hest hp =>
    obtain hcont | ⟨ok, rfl, rfl⟩ := IpcPeer.next_running hr hst hest hp
    · have hnone : ∀ command ∈ r.2.filterMap IpcEffect.told, ∀ t', command.announces t' = none := by
        intro command hmem t'
        obtain ⟨ids, rfl⟩ := hcont.told command hmem
        rfl
      refine ⟨hcont.control.trans hown, fun command hmem t' _ => hnone command hmem t', ?_⟩
      refine .running p ⟨?_, hen.entry⟩ hcont.running (hcont.established.trans hest)
        (hcont.registered.trans hp)
      exact (announcements_append fun command hmem => hnone command hmem t).trans hen.announced
    · cases ok with
      | false => exact absurd rfl (htook.told hrun)
      | true =>
        refine ⟨hown, ?_, .ended p ⟨?_, hen.entry⟩ rfl hp fun _ => ?_⟩
        · intro command hmem t' _
          obtain rfl : command = .peerClosed p.peerId p.connectionId := by
            simpa [IpcEffect.told] using hmem
          rfl
        · exact (announcements_append (by simp [IpcEffect.told, IpcCommand.announces])).trans
            hen.announced
        · exact List.mem_append_right _ (by simp [IpcEffect.told])
  | ended p hen hst hp hclosed =>
    rw [IpcPeer.next.eq_def, hst] at hr
    cases hr

/-- What holds as long as no task gives up. -/
structure Inv (node : IpcNode) : Prop where
  stopped : node.running = false → node.manager.peers = []
  own : ∀ t (task : IpcPeer Nat), node.tasks[t]? = some task → node.running = true →
    task.control = t
  standing : ∀ t task, node.tasks[t]? = some task → node.running = true → node.Standing t task
  fresh : ∀ t, node.tasks[t]? = none → node.running = true → node.Unheard t

theorem Inv.new (ourNodeid : NodeId) : (IpcNode.new ourNodeid).Inv := by
  refine ⟨fun _ => rfl, ?_, ?_, ?_⟩
  · intro t task htask
    cases htask
  · intro t task htask
    cases htask
  · intro t _ _
    refine ⟨rfl, ?_, rfl⟩
    rintro ⟨e, he, -⟩
    cases he

/-- A change that matters to no task. -/
theorem Inv.keep (h : node.Inv) (hrun : node'.running = node.running)
    (htasks : node'.tasks = node.tasks) (hpeers : node'.running = false → node'.manager.peers = [])
    (hkeep : node.running = true → ∀ t, node.Keeps node' t) : node'.Inv := by
  refine ⟨hpeers, ?_, ?_, ?_⟩
  · intro t task htask hon
    rw [htasks] at htask
    rw [hrun] at hon
    exact h.own t task htask hon
  · intro t task htask hon
    rw [htasks] at htask
    rw [hrun] at hon
    exact (h.standing t task htask hon).keep (hkeep hon t)
  · intro t htask hon
    rw [htasks] at htask
    rw [hrun] at hon
    exact (hkeep hon t).unheard (h.fresh t htask hon)

theorem Inv.stepTask {ctx : IpcContext} {input : IpcInput} (h : node.Inv)
    (hpat : node.Patient (.task t ctx input)) (hstep : node.stepTask t ctx input = some node') :
    node'.Inv := by
  obtain ⟨task, r, controls, htask, hr, htook, rfl⟩ := stepTask_eq hstep
  have hlt : t < node.tasks.length := (List.getElem?_eq_some_iff.mp htask).1
  have hawait : node.running = true → input = .elapsed → task.state ≠ .awaitAccepted := by
    intro hrun hinput hst
    refine hpat hinput hrun ?_
    rw [htask, Option.map_some, hst]
  have hnext := fun hrun => (h.standing t task htask hrun).next (h.own t task htask hrun) hrun hr
    htook (hawait hrun) (node.tasks.set t r.1)
  have hkeep : node.running = true → ∀ t', t' ≠ t → node.Keeps { node with
      controls := controls
      tasks := node.tasks.set t r.1
      commands := node.commands ++ r.2.filterMap IpcEffect.told } t' := by
    intro hrun t' hne
    refine ⟨?_, fun e he _ => he, .inl ?_, fun id c hmem => .inl (List.mem_append_left _ hmem)⟩
    · exact announcements_append fun command hmem => (hnext hrun).2.1 command hmem t' hne
    · simp only [inbox, htook.others t' hne]
  refine ⟨h.stopped, ?_, ?_, ?_⟩
  · intro t' task' htask' hrun
    by_cases heq : t' = t
    · subst heq
      rw [List.getElem?_set_self hlt, Option.some.injEq] at htask'
      subst htask'
      exact (hnext hrun).1
    · rw [List.getElem?_set_ne (Ne.symm heq)] at htask'
      exact h.own t' task' htask' hrun
  · intro t' task' htask' hrun
    by_cases heq : t' = t
    · subst heq
      rw [List.getElem?_set_self hlt, Option.some.injEq] at htask'
      subst htask'
      exact (hnext hrun).2.2
    · rw [List.getElem?_set_ne (Ne.symm heq)] at htask'
      exact (h.standing t' task' htask' hrun).keep (hkeep hrun t' heq)
  · intro t' htask' hrun
    have hne : t' ≠ t := by
      rintro rfl
      rw [List.getElem?_set_self hlt] at htask'
      cases htask'
    rw [List.getElem?_set_ne (Ne.symm hne)] at htask'
    exact (hkeep hrun t' hne).unheard (h.fresh t' htask' hrun)

theorem Inv.spawnPeer (h : node.Inv) (expected : Option NodeId) (now : Instant)
    (interval timeout : Duration) (dialling : List NodeId) :
    { node.spawnPeer expected now interval timeout with dialling := dialling }.Inv := by
  have hkeep : ∀ t, node.Keeps
      { node.spawnPeer expected now interval timeout with dialling := dialling } t :=
    fun t => ⟨rfl, fun e he _ => he, .inl rfl, fun _ _ hmem => .inl hmem⟩
  have hnew : ∀ {t : Nat} {task : IpcPeer Nat},
      (node.spawnPeer expected now interval timeout).tasks[t]? = some task →
      node.tasks[t]? = some task ∨ node.tasks[t]? = none ∧ task.control = t ∧ task.state = .hello := by
    intro t task htask
    rw [IpcNode.spawnPeer, List.getElem?_append] at htask
    split at htask
    · exact .inl htask
    · next hge =>
      rw [List.getElem?_singleton, Option.ite_none_right_eq_some] at htask
      obtain ⟨hzero, htask⟩ := htask
      obtain rfl := Option.some.inj htask
      have hlen : node.tasks.length = t := by omega
      exact .inr ⟨List.getElem?_eq_none (by omega), hlen, rfl⟩
  refine ⟨h.stopped, ?_, ?_, ?_⟩
  · intro t task htask hrun
    obtain hold | ⟨-, hcontrol, -⟩ := hnew htask
    · exact h.own t task hold hrun
    · exact hcontrol
  · intro t task htask hrun
    obtain hold | ⟨hnone, -, hst⟩ := hnew htask
    · exact (h.standing t task hold hrun).keep (hkeep t)
    · refine .unannounced ((hkeep t).unheard (h.fresh t hnone hrun)) ?_ ?_
      · rw [hst]
        trivial
      · intro id c hrec
        rw [hst] at hrec
        cases hrec
  · intro t hnone hrun
    refine (hkeep t).unheard (h.fresh t ?_ hrun)
    rw [List.getElem?_eq_none_iff] at hnone ⊢
    simp only [IpcNode.spawnPeer, List.length_append, List.length_singleton] at hnone
    omega

/-- An answer to a command that is not about a task: what the manager then sends goes to
tasks that it lists. -/
theorem Keeps.command {command : IpcCommand Nat} {rest : List (IpcCommand Nat)}
    {manager : IpcManager Nat} {outbox : List (Nat × IpcControl)} {dialling : List NodeId}
    (hq : node.commands = command :: rest) (hout : node.outbox = [])
    (hann : command.announces t = none)
    (hentries : ∀ e ∈ manager.peers, e.control = t → e ∈ node.manager.peers)
    (hsent : (outbox.filterMap fun c => if c.1 = t then some c.2 else none) = [] ∨ node.Lists t)
    (hclosed : ∀ id c, command = .peerClosed id c →
      ∀ e ∈ manager.peers, ¬ (e.nodeId = id ∧ e.connectionId = c)) :
    node.Keeps { node with
      manager := manager, commands := rest, outbox := outbox, dialling := dialling } t := by
  have hin : node.inbox t = node.controls t := by
    rw [IpcNode.inbox, hout, List.filterMap_nil, List.append_nil]
  refine ⟨?_, hentries, ?_, ?_⟩
  · rw [IpcNode.announcements, IpcNode.announcements, hq, List.filterMap_cons, hann]
  · rw [hin]
    obtain hnil | hlist := hsent
    · left
      rw [IpcNode.inbox, hnil, List.append_nil]
    · exact .inr ⟨hlist, _, rfl⟩
  · intro id c hmem
    rw [hq, List.mem_cons] at hmem
    obtain heq | hmem := hmem
    · exact .inr (hclosed id c heq.symm)
    · exact .inl hmem

theorem Inv.peerClosed {id : NodeId} {c : ConnectionId} {rest : List (IpcCommand Nat)} (h : node.Inv)
    (hq : node.commands = .peerClosed id c :: rest) (hon : node.Listening) :
    { node with
      manager := node.manager.peerClosed id c, commands := rest, outbox := [], dialling := [] }.Inv := by
  refine h.keep rfl rfl (fun hoff => ?_) fun _ t => .command hq hon.2.1 rfl ?_ (.inl rfl) ?_
  · rw [IpcManager.peers_peerClosed, h.stopped hoff, List.filter_nil]
  · intro e he _
    rw [IpcManager.peers_peerClosed] at he
    exact List.mem_of_mem_filter he
  · intro id' c' heq e he
    cases heq
    rw [IpcManager.peers_peerClosed, List.mem_filter] at he
    rintro ⟨hid, hc⟩
    simp [hid, hc] at he

/-- A command that leaves the entries alone and announces nothing. -/
theorem Inv.aside {command : IpcCommand Nat} {rest : List (IpcCommand Nat)}
    {manager : IpcManager Nat} (h : node.Inv) (hq : node.commands = command :: rest)
    (hon : node.Listening) (hann : ∀ t, command.announces t = none)
    (hnot : ∀ id c, command ≠ .peerClosed id c) (hpeers : manager.peers = node.manager.peers)
    (dialling : List NodeId) :
    { node with manager := manager, commands := rest, outbox := [], dialling := dialling }.Inv := by
  refine h.keep rfl rfl (fun hoff => hpeers.trans (h.stopped hoff)) fun _ t =>
    .command hq hon.2.1 (hann t) ?_ (.inl rfl) ?_
  · intro e he _
    rwa [hpeers] at he
  · intro id c heq
    exact absurd heq (hnot id c)

/-- The task whose session is announced next. -/
theorem Inv.announcer {id : NodeId} {k : Nat} {c : ConnectionId} {rest : List (IpcCommand Nat)}
    (h : node.Inv) (hq : node.commands = .sessionReady id k c :: rest) (hrun : node.running = true) :
    ∃ task, node.tasks[k]? = some task ∧ task.state = .awaitAccepted ∧ task.peer = some ⟨id, c⟩ ∧
      ¬ node.Lists k ∧ node.inbox k = [] ∧ rest.filterMap (IpcCommand.announces k) = [] := by
  have hann : node.announcements k = ⟨id, c⟩ :: rest.filterMap (IpcCommand.announces k) := by
    rw [announcements, hq, List.filterMap_cons, IpcCommand.announces, if_pos rfl]
  have hsome : node.announcements k ≠ [] := by
    rw [hann]
    exact List.cons_ne_nil _ _
  cases htask : node.tasks[k]? with
  | none => exact absurd (h.fresh k htask hrun).announced hsome
  | some task =>
    cases h.standing k task htask hrun with
    | unannounced hun => exact absurd hun.announced hsome
    | announced p hp hlist hin hst hpeer =>
      rw [hp] at hann
      obtain ⟨rfl, hrest⟩ := List.cons.inj hann
      exact ⟨task, rfl, hst, hpeer, hlist, hin, hrest.symm⟩
    | accepted p rest hen => exact absurd hen.announced hsome
    | running p hen => exact absurd hen.announced hsome
    | ended p hen => exact absurd hen.announced hsome

theorem Inv.sessionReady {id : NodeId} {k : Nat} {c : ConnectionId} {rest : List (IpcCommand Nat)}
    (h : node.Inv) (hq : node.commands = .sessionReady id k c :: rest) (hon : node.Listening) :
    { node with
      manager := (node.manager.sessionReady id k c).1
      commands := rest
      outbox := (node.manager.sessionReady id k c).2
      dialling := [] }.Inv := by
  obtain ⟨task, htask, hst, hp, hlist, hin, hrest⟩ := h.announcer hq hon.1
  have hsent := (node.manager.sessionReady_spec id k c).2
  -- only the task of the old entry is told to shut down
  have hold : ∀ t, ¬ node.Lists t →
      (((node.manager.sessions id).head?.map fun old => (old.control, IpcControl.shutdown)).toList
        ).filterMap (fun c => if c.1 = t then some c.2 else none) = [] := by
    intro t hnot
    cases hhead : (node.manager.sessions id).head? with
    | none => rfl
    | some old =>
      have hmem : old ∈ node.manager.peers :=
        List.mem_of_mem_filter (List.mem_of_mem_head? (Option.mem_def.mpr hhead))
      have hne : old.control ≠ t := fun heq => hnot ⟨old, hmem, heq⟩
      simp [hne]
  have hkeep : ∀ t, t ≠ k → node.Keeps { node with
      manager := (node.manager.sessionReady id k c).1
      commands := rest
      outbox := (node.manager.sessionReady id k c).2
      dialling := [] } t := by
    intro t hne
    refine .command hq hon.2.1 (if_neg (Ne.symm hne)) ?_ ?_ ?_
    · intro e he ht
      obtain rfl | he := IpcManager.mem_sessionReady he
      · exact absurd ht.symm hne
      · exact he
    · by_cases hlists : node.Lists t
      · exact .inr hlists
      · left
        rw [hsent, List.filterMap_append, hold t hlists]
        simp [Ne.symm hne]
    · intro id' c' heq
      cases heq
  refine ⟨fun hoff => ?_, h.own, ?_, ?_⟩
  · rw [hon.1] at hoff
    cases hoff
  · intro t task' htask' hrun
    by_cases heq : t = k
    · subst heq
      rw [htask, Option.some.injEq] at htask'
      subst htask'
      refine .accepted ⟨id, c⟩ [] ⟨hrest, ?_⟩ ?_ hst hp
      · intro e he ht
        obtain rfl | he := IpcManager.mem_sessionReady he
        · rfl
        · exact absurd ⟨e, he, ht⟩ hlist
      · rw [inbox, hsent, List.filterMap_append, hold t hlist, (List.append_eq_nil_iff.mp hin).1]
        simp
    · exact (h.standing t task' htask' hrun).keep (hkeep t heq)
  · intro t hnone hrun
    have hne : t ≠ k := by
      rintro rfl
      rw [htask] at hnone
      cases hnone
    exact (hkeep t hne).unheard (h.fresh t hnone hrun)

theorem Inv.step {event : NodeEvent} (h : node.Inv) (hpat : node.Patient event)
    (hstep : node.step event = some node') : node'.Inv := by
  cases event with
  | task t ctx input => exact h.stepTask hpat hstep
  | command connects =>
    simp only [IpcNode.step] at hstep
    split at hstep
    · next command rest hq =>
      rw [Option.ite_none_right_eq_some] at hstep
      obtain ⟨hon, hstep⟩ := hstep
      obtain rfl := Option.some.inj hstep
      cases command with
      | peerClosed id c => exact h.peerClosed hq hon
      | sessionReady id k c => exact h.sessionReady hq hon
      | handshakeFailed expected =>
        exact h.aside hq hon (fun _ => rfl) (by simp) (IpcManager.peers_handshakeFailed _ _) _
      | learnedPeers ids =>
        exact h.aside hq hon (fun _ => rfl) (by simp) (IpcManager.peers_dialPeers _ _ _ _) _
    · cases hstep
  | send =>
    simp only [IpcNode.step] at hstep
    split at hstep
    · next k c rest hout =>
      obtain rfl := Option.some.inj hstep
      refine h.keep rfl rfl h.stopped fun _ t =>
        ⟨rfl, fun e he _ => he, .inl ?_, fun _ _ hmem => .inl hmem⟩
      -- a control that is sent moves from the one queue to the other
      simp only [inbox, hout, List.filterMap_cons]
      by_cases hk : k = t
      · subst hk
        simp
      · simp [hk, Function.update_of_ne (Ne.symm hk)]
    · cases hstep
  | dial now interval timeout =>
    simp only [IpcNode.step] at hstep
    split at hstep
    · obtain rfl := Option.some.inj hstep
      exact h.spawnPeer _ now interval timeout _
    · cases hstep
  | accept now interval timeout =>
    simp only [IpcNode.step, Option.ite_none_right_eq_some] at hstep
    obtain rfl := Option.some.inj hstep.2
    exact h.spawnPeer none now interval timeout node.dialling
  | directory ids connects =>
    simp only [IpcNode.step, Option.ite_none_right_eq_some] at hstep
    obtain rfl := Option.some.inj hstep.2
    have hpeers := node.manager.peers_dialPeers ids true connects
    refine h.keep rfl rfl (fun hoff => hpeers.trans (h.stopped hoff)) fun _ t =>
      ⟨rfl, fun e he _ => ?_, .inl rfl, fun _ _ hmem => .inl hmem⟩
    rwa [hpeers] at he
  | resume full =>
    simp only [IpcNode.step, Option.ite_none_right_eq_some] at hstep
    obtain ⟨hon, hstep⟩ := hstep
    obtain rfl := Option.some.inj hstep
    refine h.keep rfl rfl h.stopped fun _ t =>
      ⟨rfl, fun e he _ => he, ?_, fun _ _ hmem => .inl hmem⟩
    simp only [inbox, hon.2.1, List.filterMap_nil, List.append_nil]
    by_cases hlist : node.Lists t
    · exact .inr ⟨hlist, _, rfl⟩
    · left
      have hnone : (node.manager.peers.filterMap fun e =>
          if e.control = t ∧ full t = false then some IpcControl.resume else none) = [] := by
        rw [List.filterMap_eq_nil_iff]
        intro e he
        exact if_neg fun hctl => hlist ⟨e, he, hctl.1⟩
      rw [hnone, List.append_nil]
  | softShutdown =>
    simp only [IpcNode.step, Option.ite_none_right_eq_some] at hstep
    obtain rfl := Option.some.inj hstep.2
    exact h.keep rfl rfl h.stopped fun _ t =>
      ⟨rfl, fun e he _ => he, .inl rfl, fun _ _ hmem => .inl hmem⟩
  | shutdown =>
    simp only [IpcNode.step, Option.ite_none_right_eq_some] at hstep
    obtain rfl := Option.some.inj hstep.2
    refine ⟨fun _ => rfl, ?_, ?_, ?_⟩
    · intro t task _ hrun
      cases hrun
    · intro t task _ hrun
      cases hrun
    · intro t _ hrun
      cases hrun

theorem inv_of_reaches (h : machine.Reaches Patient node) : node.Inv := by
  apply h.invariant
  · rintro _ ⟨ourNodeid, rfl⟩
    exact .new ourNodeid
  · intro node event node' hinv hpat hstep
    exact hinv.step hpat hstep

/-- Only a command that announces or closes a session, and the end of the manager, change
the entries, and no peer gains a second one. -/
theorem nodup_step {event : NodeEvent} (h : (node.manager.peers.map IpcEntry.nodeId).Nodup)
    (hstep : node.step event = some node') : (node'.manager.peers.map IpcEntry.nodeId).Nodup := by
  cases event with
  | task t ctx input =>
    obtain ⟨task, r, controls, -, -, -, rfl⟩ := stepTask_eq hstep
    exact h
  | command connects =>
    simp only [IpcNode.step] at hstep
    split at hstep
    · next command rest hq =>
      rw [Option.ite_none_right_eq_some] at hstep
      obtain rfl := Option.some.inj hstep.2
      cases command with
      | peerClosed id c =>
        simp only [IpcManager.handleIpcCommand, IpcManager.peers_peerClosed]
        exact h.sublist (List.filter_sublist.map _)
      | sessionReady id k c => exact IpcManager.nodup_sessionReady h id k c
      | handshakeFailed expected =>
        simp only [IpcManager.handleIpcCommand, IpcManager.peers_handshakeFailed]
        exact h
      | learnedPeers ids =>
        simp only [IpcManager.handleIpcCommand, IpcManager.peers_dialPeers]
        exact h
    · cases hstep
  | send | dial =>
    simp only [IpcNode.step] at hstep
    split at hstep
    · obtain rfl := Option.some.inj hstep
      exact h
    · cases hstep
  | accept | resume | softShutdown =>
    simp only [IpcNode.step, Option.ite_none_right_eq_some] at hstep
    obtain rfl := Option.some.inj hstep.2
    exact h
  | directory ids connects =>
    simp only [IpcNode.step, Option.ite_none_right_eq_some] at hstep
    obtain rfl := Option.some.inj hstep.2
    simp only [IpcManager.peers_dialPeers]
    exact h
  | shutdown =>
    simp only [IpcNode.step, Option.ite_none_right_eq_some] at hstep
    obtain rfl := Option.some.inj hstep.2
    exact List.nodup_nil

/-- Whatever times out, no peer is listed twice. -/
theorem nodup_of_reaches {allowed : IpcNode → NodeEvent → Prop} (h : machine.Reaches allowed node) :
    (node.manager.peers.map IpcEntry.nodeId).Nodup := by
  apply h.invariant (P := fun node => (node.manager.peers.map IpcEntry.nodeId).Nodup)
  · rintro _ ⟨ourNodeid, rfl⟩
    exact List.nodup_nil
  · intro node event node' hnodup _ hstep
    exact nodup_step hnodup hstep

/-- An entry belongs to a task that has not ended, or whose report is on its way. -/
theorem Inv.backed_or_closed (h : node.Inv) {e : IpcEntry Nat} (he : e ∈ node.manager.peers) :
    node.Backed e ∨ .peerClosed e.nodeId e.connectionId ∈ node.commands := by
  have hrun : node.running = true := by
    cases hrun : node.running with
    | true => rfl
    | false =>
      rw [h.stopped hrun] at he
      cases he
  have hlist : node.Lists e.control := ⟨e, he, rfl⟩
  cases htask : node.tasks[e.control]? with
  | none => exact absurd hlist (h.fresh _ htask hrun).unlisted
  | some task =>
    cases h.standing _ task htask hrun with
    | unannounced hun => exact absurd hlist hun.unlisted
    | announced p _ hnot => exact absurd hlist hnot
    | accepted p rest hen _ hst hp =>
      rw [hen.entry e he rfl] at hp
      exact .inl ⟨task, htask, hp, by simp [hst], by simp [hst]⟩
    | running p hen hst _ hp =>
      rw [hen.entry e he rfl] at hp
      refine .inl ⟨task, htask, hp, ?_, ?_⟩
      · intro hend
        rw [hend] at hst
        exact hst
      · intro hpanic
        rw [hpanic] at hst
        exact hst
    | ended p hen _ _ hclosed =>
      have hmem := hclosed hlist
      rw [hen.entry e he rfl] at hmem
      exact .inr hmem

/-- As long as no task gives up waiting to be accepted, the manager that has answered all
commands lists no peer twice and no session that has ended. -/
theorem no_ghosts (h : machine.Reaches Patient node) (hempty : node.commands = []) :
    (∀ e ∈ node.manager.peers, node.Backed e) ∧
      (node.manager.peers.map IpcEntry.nodeId).Nodup := by
  refine ⟨?_, nodup_of_reaches h⟩
  intro e he
  obtain hbacked | hmem := (inv_of_reaches h).backed_or_closed he
  · exact hbacked
  · rw [hempty] at hmem
    cases hmem

end IpcNode

/-- A step of the only task. -/
def onlyTask (input : IpcInput) : NodeEvent := .task 0 ⟨0, 3, []⟩ input

/-- Peer 5 has dialled and greeted, and its session is announced. -/
def greeted : List NodeEvent :=
  [.accept 0 10 30, onlyTask (.wrote true), onlyTask (.read (some (some (.hello 5)))),
    onlyTask (.told true)]

/-- The session is accepted and goes on. -/
def acceptedInTime : List NodeEvent :=
  greeted ++ [.command fun _ => false, .send, onlyTask (.control (some .accepted)),
    onlyTask (.wrote true)]

theorem accepted_session_backed : ∃ node : IpcNode, node.manager.peers = [⟨5, 0, 3⟩] ∧
    (∀ e ∈ node.manager.peers, node.Backed e) ∧
      (node.manager.peers.map IpcEntry.nodeId).Nodup := by
  have hend : (Machine.run IpcNode.step IpcNode.Patient (.new 1) acceptedInTime).map
      (fun node => (node.commands, node.manager.peers)) = some ([], [⟨5, 0, 3⟩]) := by
    decide +kernel
  obtain ⟨node, hrun, heq⟩ := Option.map_eq_some_iff.mp hend
  obtain ⟨hempty, hpeers⟩ := Prod.mk.inj heq
  exact ⟨node, hpeers, IpcNode.no_ghosts (IpcNode.reaches_of_run hrun) hempty⟩

/-- The task gives up before the manager comes to its announcement. -/
def acceptedTooLate : List NodeEvent :=
  greeted ++ [onlyTask .elapsed, onlyTask (.wrote true), onlyTask (.told true),
    .command fun _ => false, .send, .command fun _ => false]

theorem ended_session_listed : ∃ node : IpcNode,
    IpcNode.machine.Reaches (fun _ _ => True) node ∧ node.commands = [] ∧
      ∃ e ∈ node.manager.peers, ¬ node.Backed e := by
  have hend : (Machine.run IpcNode.step (fun _ _ => True) (.new 1) acceptedTooLate).map
      (fun node => (node.commands, node.manager.peers, node.tasks.map IpcPeer.state)) =
        some ([], [⟨5, 0, 3⟩], [.ended]) := by
    decide +kernel
  obtain ⟨node, hrun, heq⟩ := Option.map_eq_some_iff.mp hend
  obtain ⟨hempty, heq⟩ := Prod.mk.inj heq
  obtain ⟨hpeers, htasks⟩ := Prod.mk.inj heq
  refine ⟨node, IpcNode.reaches_of_run hrun, hempty, ⟨5, 0, 3⟩, ?_, ?_⟩
  · rw [hpeers]
    exact List.mem_singleton_self _
  · rintro ⟨task, htask, -, hlive, -⟩
    have hstate := congrArg (fun l => l[0]?) htasks
    rw [List.getElem?_map, htask] at hstate
    exact hlive (Option.some.inj hstate)

end Anybus
