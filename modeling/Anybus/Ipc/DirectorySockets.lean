import Anybus.Core.Machine
import Anybus.Peers.IpcDirectory

/-!
# The sockets of a manager

A manager never holds both directory names between two states, whatever a bind, a probe or
the timer brings. Once it has been told that the bus shuts down it holds no socket, and from
then on it only sends controls to its sessions.
-/

namespace Anybus

namespace IpcDirectory

variable {τ : Type} {m : IpcDirectory τ} {env : Surroundings τ} {turn : ManagerTurn τ}

/-- Two managers with the same sockets. -/
structure SameSockets (m' m : IpcDirectory τ) : Prop where
  peer : m'.peerListener = m.peerListener
  primary : m'.primaryListener = m.primaryListener
  backup : m'.backupListener = m.backupListener
  shuttingDown : m'.shuttingDown = m.shuttingDown

theorem SameSockets.refl (m : IpcDirectory τ) : SameSockets m m := ⟨rfl, rfl, rfl, rfl⟩

theorem SameSockets.trans {m₁ m₂ m₃ : IpcDirectory τ} (h₁ : SameSockets m₁ m₂)
    (h₂ : SameSockets m₂ m₃) : SameSockets m₁ m₃ :=
  ⟨h₁.peer.trans h₂.peer, h₁.primary.trans h₂.primary, h₁.backup.trans h₂.backup,
    h₁.shuttingDown.trans h₂.shuttingDown⟩

theorem sameSockets_scheduleDirectoryWake (m : IpcDirectory τ) (now : Instant) (delay : Duration)
    (probePrimary : Bool) : SameSockets (m.scheduleDirectoryWake now delay probePrimary) m := by
  unfold scheduleDirectoryWake
  cases m.directoryWakeAt with
  | none => exact ⟨rfl, rfl, rfl, rfl⟩
  | some existing =>
    dsimp only
    split
    · exact ⟨rfl, rfl, rfl, rfl⟩
    · exact ⟨rfl, rfl, rfl, rfl⟩

theorem sameSockets_scheduleDirectoryHealth (m : IpcDirectory τ) (now : Instant) :
    SameSockets (m.scheduleDirectoryHealth now) m := by
  unfold scheduleDirectoryHealth
  split
  · exact .refl m
  · exact sameSockets_scheduleDirectoryWake m now _ _

theorem sameSockets_spawnDirectoryProbe (m : IpcDirectory τ) :
    SameSockets m.spawnDirectoryProbe.1 m := by
  unfold spawnDirectoryProbe
  split
  · exact .refl m
  · exact ⟨rfl, rfl, rfl, rfl⟩

/-- At most one of the two names is held. -/
def Exclusive (m : IpcDirectory τ) : Prop := m.primaryListener = false ∨ m.backupListener = false

theorem Exclusive.of_same {m' : IpcDirectory τ} (h : m.Exclusive) (hsame : SameSockets m' m) :
    m'.Exclusive := by
  unfold Exclusive
  rw [hsame.primary, hsame.backup]
  exact h

theorem exclusive_holdPrimary (m : IpcDirectory τ) (now : Instant) : (m.holdPrimary now).Exclusive := by
  refine Exclusive.of_same ?_ (sameSockets_scheduleDirectoryHealth _ now)
  exact Or.inr rfl

theorem exclusive_bindPrimary (h : m.Exclusive) : (m.bindPrimary env).manager.Exclusive := by
  unfold bindPrimary
  split
  · exact h
  · split
    · exact exclusive_holdPrimary m env.now
    · next hfree =>
      split
      · exact exclusive_holdPrimary _ env.now
      · -- The name is not bound, so a backup name that is held is the only one.
        refine Exclusive.of_same (Or.inl (Bool.eq_false_iff.mpr hfree)) ?_
        exact (sameSockets_scheduleDirectoryWake _ _ _ _).trans
          ((sameSockets_spawnDirectoryProbe _).trans ⟨rfl, rfl, rfl, rfl⟩)

theorem exclusive_bindBackup (h : m.Exclusive) : (m.bindBackup env).manager.Exclusive := by
  -- The primary name is given up first.
  have hfree : ∀ m' : IpcDirectory τ, m'.primaryListener = false → m'.Exclusive := fun _ => Or.inl
  unfold bindBackup
  split
  · exact h
  · dsimp only
    split
    · exact (hfree _ rfl).of_same (sameSockets_scheduleDirectoryHealth _ _)
    · split
      · exact (hfree _ rfl).of_same (sameSockets_scheduleDirectoryHealth _ _)
      · exact (hfree _ rfl).of_same (sameSockets_scheduleDirectoryWake _ _ _ _)

theorem exclusive_reconcileDirectory (h : m.Exclusive) :
    (m.reconcileDirectory env).manager.Exclusive := by
  unfold reconcileDirectory
  split
  · exact h
  · split
    · split
      · exact exclusive_holdPrimary m env.now
      · exact h
    · exact h
    · exact Or.inl rfl

/-- When the timer fires no socket changes. -/
theorem sameSockets_directoryTimer (m : IpcDirectory τ) (shutdown : Bool) (now : Instant) :
    SameSockets (m.directoryTimer shutdown now).manager m := by
  have hcleared : SameSockets { m with directoryWakeAt := none, directoryWakeProbe := false } m :=
    ⟨rfl, rfl, rfl, rfl⟩
  unfold directoryTimer
  dsimp only
  split
  · split
    · exact (sameSockets_scheduleDirectoryHealth _ _).trans hcleared
    · exact (sameSockets_spawnDirectoryProbe _).trans hcleared
  · exact hcleared

theorem acceptStream_cases {accepting listener ok : Bool} {accepted : ManagerTurn τ}
    (h : m.acceptStream accepting listener ok accepted = some turn) :
    accepting = true ∧ listener = true ∧
      (turn = accepted ∨ turn = ⟨some (.handleError .io), m, [.accept]⟩) := by
  obtain ⟨hheld, hturn⟩ := Option.ite_none_right_eq_some.mp h
  cases hturn
  obtain ⟨haccepting, hlistener⟩ := Bool.and_eq_true_iff.mp hheld
  refine ⟨haccepting, hlistener, ?_⟩
  cases ok with
  | true => exact Or.inl rfl
  | false => exact Or.inr rfl

/-- Everything that can end a wait: a stream from a socket that is held, while the manager
accepts; the timer; or something that leaves the manager as it is. -/
theorem react_cases {shutdown : Bool} (h : m.react shutdown env = some turn) :
    ((shutdown = false ∧ m.shuttingDown = false) ∧ turn.manager = m) ∨
    turn = m.directoryTimer shutdown env.later ∨
    (turn.manager = m ∧ (∀ a ∈ turn.actions, ∃ session message, a = .control session message) ∧
      ∀ st, turn.state = some st → (∃ command, st = .handleIpcCommand command) ∨
        st = .softShutdown ∨ st = .shutdown ∨ st = .listen (shutdown || m.shuttingDown)) := by
  have haccept : ∀ {listener ok : Bool} {accepted : ManagerTurn τ}, accepted.manager = m →
      m.acceptStream (!shutdown && !m.shuttingDown) listener ok accepted = some turn →
      (shutdown = false ∧ m.shuttingDown = false) ∧ turn.manager = m := by
    intro listener ok accepted hm hturn
    obtain ⟨haccepting, -, hcases⟩ := acceptStream_cases hturn
    refine ⟨by simpa using haccepting, ?_⟩
    obtain rfl | rfl := hcases
    · exact hm
    · rfl
  cases hevent : env.event with
  | peerStream ok | primaryStream ok | backupStream ok =>
    simp only [react, hevent] at h
    exact Or.inl (haccept rfl h)
  | directoryTimer =>
    simp only [react, hevent] at h
    split at h
    · obtain ⟨-, hturn⟩ := Option.ite_none_right_eq_some.mp h
      cases hturn
      exact Or.inr (Or.inl rfl)
    · cases h
  | command command =>
    simp only [react, hevent] at h
    cases h
    refine Or.inr (Or.inr ⟨rfl, by simp, fun st hst => Or.inl ⟨command, ?_⟩⟩)
    exact (Option.some.inj hst).symm
  | shuttingDown | otherStatus | statusClosed =>
    simp only [react, hevent] at h
    cases h
    refine Or.inr (Or.inr ⟨rfl, by simp, fun st hst => ?_⟩)
    cases hst
    simp
  | resuming =>
    simp only [react, hevent] at h
    cases h
    refine Or.inr (Or.inr ⟨rfl, fun a ha => ?_, fun st hst => ?_⟩)
    · obtain ⟨e, -, rfl⟩ := List.mem_map.mp ha
      exact ⟨_, _, rfl⟩
    · cases hst
      simp

/-- Listening changes no socket, however the wait ends. -/
theorem sameSockets_listen {shutdown : Bool} (h : m.listen shutdown env = some turn) :
    SameSockets turn.manager m := by
  have hreact : ∀ {m' : IpcDirectory τ}, m'.react shutdown env = some turn →
      SameSockets turn.manager m' := by
    intro m' hturn
    obtain ⟨-, hm⟩ | rfl | ⟨hm, -⟩ := react_cases hturn
    · rw [hm]
      exact .refl m'
    · exact sameSockets_directoryTimer m' shutdown _
    · rw [hm]
      exact .refl m'
  unfold listen at h
  dsimp only at h
  split at h
  · cases h
    exact .refl m
  · split at h
    · exact (hreact h).trans (sameSockets_scheduleDirectoryHealth m _)
    · exact hreact h

theorem sameSockets_namesKept (m : IpcDirectory τ) (primary : Option DirectoryView)
    (primarySelf : Bool) (backup : Option DirectoryView) (now : Instant) :
    SameSockets (m.namesKept primary primarySelf backup now).manager m := by
  unfold namesKept
  dsimp only
  split
  · exact ⟨rfl, rfl, rfl, rfl⟩
  · exact (sameSockets_scheduleDirectoryHealth _ now).trans ⟨rfl, rfl, rfl, rfl⟩

/-- A probe can only lose names. -/
theorem exclusive_directoryProbe (h : m.Exclusive) (primary : Option DirectoryView)
    (primarySelf : Bool) (backup : Option DirectoryView) (backupSelf : Bool) (now : Instant) :
    (m.directoryProbe primary primarySelf backup backupSelf now).manager.Exclusive := by
  have hlost : ∀ (m' : IpcDirectory τ) (lost lost' : Bool),
      m'.primaryListener = (m.primaryListener && !lost) →
      m'.backupListener = (m.backupListener && !lost') → m'.Exclusive := by
    intro m' lost lost' hprimary hbackup
    unfold Exclusive
    rw [hprimary, hbackup]
    refine h.imp (fun hfree => ?_) fun hfree => ?_
    · rw [hfree, Bool.false_and]
    · rw [hfree, Bool.false_and]
  unfold directoryProbe
  dsimp only
  split
  · exact h
  · split
    · exact (hlost _ _ _ rfl rfl).of_same (sameSockets_scheduleDirectoryHealth _ now)
    · split
      · exact hlost _ _ _ rfl rfl
      · exact (hlost _ _ _ rfl rfl).of_same (sameSockets_namesKept _ primary primarySelf backup now)

/-- The commands of sessions leave the sockets alone. -/
theorem sameSockets_handleSession (m : IpcDirectory τ) (command : IpcCommand τ) (now : Instant) :
    SameSockets (m.handleCommand (.session command) now).manager m := by
  cases command with
  | learnedPeers ids => exact .refl m
  | sessionReady id control connectionId =>
    refine ⟨rfl, rfl, rfl, ?_⟩
    simp only [handleCommand, IpcManager.sessionReady]
    split
    · rfl
    · rfl
  | peerClosed id connectionId =>
    refine ⟨rfl, rfl, rfl, ?_⟩
    simp only [handleCommand, IpcManager.peerClosed]
    split
    · rfl
    · rfl
  | handshakeFailed expected =>
    have hsettled : SameSockets
        { m with toIpcManager := m.toIpcManager.handshakeFailed expected } m := by
      refine ⟨rfl, rfl, rfl, ?_⟩
      cases expected with
      | none => rfl
      | some id => rfl
    simp only [handleCommand]
    split
    · exact (sameSockets_scheduleDirectoryWake _ _ _ _).trans hsettled
    · exact hsettled

theorem exclusive_handleCommand (h : m.Exclusive) (command : ManagerCommand τ) (now : Instant) :
    (m.handleCommand command now).manager.Exclusive := by
  cases command with
  | session command => exact h.of_same (sameSockets_handleSession m command now)
  | directoryProbe primary primarySelf backup backupSelf =>
    exact exclusive_directoryProbe h primary primarySelf backup backupSelf now

/-- No state leaves a manager with both names. -/
theorem exclusive_next (h : m.Exclusive) {st : ManagerState τ} (hturn : m.next env st = some turn) :
    turn.manager.Exclusive := by
  cases st with
  | listen shutdown => exact h.of_same (sameSockets_listen hturn)
  | creation | handleError error =>
    cases hturn
    exact h
  | startPeerListener query =>
    cases hturn
    unfold startPeerListener
    dsimp only
    split
    · exact h
    · split
      · exact h
      · exact h
  | queryDirectory =>
    cases hturn
    unfold queryDirectory
    split
    · exact h
    · exact h
  | bindPrimary =>
    cases hturn
    exact exclusive_bindPrimary h
  | bindBackup =>
    cases hturn
    exact exclusive_bindBackup h
  | dialPeers ids fromDirectory =>
    cases hturn
    unfold dialPeersTurn
    split
    · exact h
    · have hdialled : Exclusive
          { m with toIpcManager := (m.toIpcManager.dialPeers ids fromDirectory env.connects).1 } := h
      exact hdialled.of_same (sameSockets_scheduleDirectoryHealth _ _)
  | serveDirectory =>
    cases hturn
    unfold serveDirectory
    split
    · exact h
    · exact h
  | reconcileDirectory =>
    cases hturn
    exact exclusive_reconcileDirectory h
  | softShutdown | shutdown =>
    cases hturn
    exact Or.inl rfl
  | handleIpcCommand command =>
    cases hturn
    exact exclusive_handleCommand h command env.now

/-- A manager that is shutting down and holds no socket. -/
structure Closed (m : IpcDirectory τ) : Prop where
  shuttingDown : m.shuttingDown = true
  peer : m.peerListener = false
  primary : m.primaryListener = false
  backup : m.backupListener = false

theorem Closed.of_same {m' : IpcDirectory τ} (h : m.Closed) (hsame : SameSockets m' m) : m'.Closed :=
  ⟨hsame.shuttingDown.trans h.shuttingDown, hsame.peer.trans h.peer, hsame.primary.trans h.primary,
    hsame.backup.trans h.backup⟩

end IpcDirectory

/-- The states of a manager that no longer opens or serves anything. -/
def ManagerState.Late {τ : Type} : ManagerState τ → Prop
  | .creation | .startPeerListener _ | .queryDirectory | .serveDirectory => False
  | _ => True

namespace ManagerTurn

variable {τ : Type}

/-- A turn after which the manager is still closed, and which has only sent controls. -/
structure Quiet (turn : ManagerTurn τ) : Prop where
  closed : turn.manager.Closed
  late : ∀ st, turn.state = some st → st.Late
  controls : ∀ a ∈ turn.actions, ∃ session message, a = .control session message

theorem Quiet.silent {m : IpcDirectory τ} {st : ManagerState τ} (hm : m.Closed) (hst : st.Late) :
    Quiet ⟨some st, m, []⟩ := by
  refine ⟨hm, fun st' hst' => ?_, fun a ha => ?_⟩
  · cases hst'
    exact hst
  · cases ha

end ManagerTurn

namespace IpcDirectory

variable {τ : Type} {m : IpcDirectory τ} {env : Surroundings τ} {turn : ManagerTurn τ}

theorem Closed.directoryTimer (h : m.Closed) (shutdown : Bool) (now : Instant) :
    (m.directoryTimer shutdown now).Quiet := by
  refine ⟨h.of_same (sameSockets_directoryTimer m shutdown now), fun st hst => ?_, fun a ha => ?_⟩
  · unfold IpcDirectory.directoryTimer at hst
    dsimp only at hst
    split at hst
    · cases hst
      trivial
    · cases hst
      trivial
  · -- Nothing is spawned any more.
    have hnone : (m.directoryTimer shutdown now).actions = [] := by
      unfold IpcDirectory.directoryTimer
      dsimp only
      split
      · split
        · rfl
        · simp only [spawnDirectoryProbe, h.shuttingDown, Bool.or_true, if_true]
      · rfl
    rw [hnone] at ha
    cases ha

theorem Closed.listen (h : m.Closed) {shutdown : Bool} (hturn : m.listen shutdown env = some turn) :
    turn.Quiet := by
  have hreact : m.react shutdown env = some turn := by
    simpa [IpcDirectory.listen, h.shuttingDown] using hturn
  obtain ⟨⟨-, hopen⟩, -⟩ | rfl | ⟨hm, hcontrols, hstates⟩ := react_cases hreact
  · rw [h.shuttingDown] at hopen
    cases hopen
  · exact h.directoryTimer shutdown _
  · refine ⟨hm ▸ h, fun st hst => ?_, hcontrols⟩
    obtain ⟨command, rfl⟩ | rfl | rfl | rfl := hstates st hst
    · trivial
    · trivial
    · trivial
    · trivial

theorem Closed.handleCommand (h : m.Closed) (command : ManagerCommand τ) (now : Instant) :
    (m.handleCommand command now).Quiet := by
  cases command with
  | directoryProbe primary primarySelf backup backupSelf =>
    have hstale : m.directoryProbe primary primarySelf backup backupSelf now =
        ⟨some (.listen true), { m with probeInFlight := false }, []⟩ := if_pos h.shuttingDown
    rw [IpcDirectory.handleCommand, hstale]
    exact .silent (h.of_same ⟨rfl, rfl, rfl, rfl⟩) trivial
  | session command =>
    refine ⟨h.of_same (sameSockets_handleSession m command now), fun st hst => ?_, fun a ha => ?_⟩
    · cases command with
      | peerClosed | sessionReady | handshakeFailed | learnedPeers =>
        cases hst
        trivial
    · cases command with
      | sessionReady id control connectionId =>
        obtain ⟨c, -, rfl⟩ := List.mem_map.mp ha
        exact ⟨_, _, rfl⟩
      | peerClosed | handshakeFailed | learnedPeers => cases ha

/-- A closed manager stays closed in every state it can still get into. -/
theorem Closed.next (h : m.Closed) {st : ManagerState τ} (hst : st.Late)
    (hturn : m.next env st = some turn) : turn.Quiet := by
  cases st with
  | creation | startPeerListener | queryDirectory | serveDirectory => cases hst
  | listen shutdown => exact h.listen hturn
  | bindPrimary =>
    cases hturn
    rw [bindPrimary, if_pos h.shuttingDown]
    exact .silent h trivial
  | bindBackup =>
    cases hturn
    rw [bindBackup, if_pos h.shuttingDown]
    exact .silent h trivial
  | dialPeers ids fromDirectory =>
    cases hturn
    rw [dialPeersTurn, if_pos h.shuttingDown]
    exact .silent h trivial
  | reconcileDirectory =>
    cases hturn
    rw [reconcileDirectory, if_pos h.shuttingDown]
    exact .silent h trivial
  | softShutdown =>
    cases hturn
    exact .silent ⟨rfl, rfl, rfl, rfl⟩ trivial
  | shutdown =>
    cases hturn
    refine ⟨⟨h.shuttingDown, rfl, rfl, rfl⟩, fun st hst => ?_, fun a ha => ?_⟩
    · cases hst
    · obtain ⟨e, -, rfl⟩ := List.mem_map.mp ha
      exact ⟨_, _, rfl⟩
  | handleError error =>
    cases hturn
    exact .silent h trivial
  | handleIpcCommand command =>
    cases hturn
    exact h.handleCommand command env.now

end IpcDirectory

/-- A manager in a state, with what it has done since it has been told of the shutdown. -/
structure IpcService (τ : Type) where
  state : Option (ManagerState τ)
  manager : IpcDirectory τ
  /-- The state `SoftShutdown` has run. -/
  softened : Bool
  /-- Everything done after that. -/
  afterwards : List (ManagerAction τ)

namespace IpcService

variable {τ : Type} {s s' : IpcService τ} {env : Surroundings τ}

def isSoftShutdown : ManagerState τ → Bool
  | .softShutdown => true
  | _ => false

def new (ourNodeid : NodeId) : IpcService τ where
  state := some .creation
  manager := .new ourNodeid
  softened := false
  afterwards := []

/-- Run the current state. -/
def step (s : IpcService τ) (env : Surroundings τ) : Option (IpcService τ) :=
  match s.state with
  | none => none
  | some st => (s.manager.next env st).map fun turn =>
    { state := turn.state
      manager := turn.manager
      softened := s.softened || isSoftShutdown st
      afterwards := if s.softened then s.afterwards ++ turn.actions else s.afterwards }

def machine : Machine (IpcService τ) (Surroundings τ) where
  init s := ∃ ourNodeid, s = .new ourNodeid
  step s env s' := s.step env = some s'

/-- The invariant of all runs. -/
structure Sockets (s : IpcService τ) : Prop where
  exclusive : s.manager.Exclusive
  closed : s.softened = true → s.manager.Closed
  late : s.softened = true → ∀ st, s.state = some st → st.Late
  controls : ∀ a ∈ s.afterwards, ∃ session message, a = .control session message

theorem Sockets.step (h : s.Sockets) (hs : s.step env = some s') : s'.Sockets := by
  unfold IpcService.step at hs
  split at hs
  · cases hs
  · next st hst =>
    obtain ⟨turn, hturn, rfl⟩ := Option.map_eq_some_iff.mp hs
    have hexclusive := IpcDirectory.exclusive_next h.exclusive hturn
    cases hsoft : s.softened with
    | true =>
      have hquiet := (h.closed hsoft).next (h.late hsoft st hst) hturn
      refine ⟨hexclusive, fun _ => hquiet.closed, fun _ => hquiet.late, fun a ha => ?_⟩
      rw [if_pos rfl, List.mem_append] at ha
      exact ha.elim (h.controls a) (hquiet.controls a)
    | false =>
      rw [Bool.false_or, if_neg Bool.false_ne_true]
      cases st with
      | softShutdown =>
        cases hturn
        have hclosed : s.manager.softShutdown.Quiet := .silent ⟨rfl, rfl, rfl, rfl⟩ trivial
        exact ⟨hexclusive, fun _ => hclosed.closed, fun _ => hclosed.late, h.controls⟩
      | _ => exact ⟨hexclusive, (by cases ·), (by cases ·), h.controls⟩

theorem sockets_of_reaches (h : machine.Reaches (fun _ _ => True) s) : s.Sockets := by
  refine h.invariant ?_ fun s env s' hsockets _ hs => hsockets.step hs
  rintro s ⟨ourNodeid, rfl⟩
  refine ⟨Or.inl rfl, fun hsoft => ?_, fun hsoft => ?_, fun a ha => ?_⟩
  · cases hsoft
  · cases hsoft
  · cases ha

/-- A manager never holds both directory names between two states. After it has run the
state for a shutdown it holds no socket, and everything it has done since is to send
controls to its sessions: it has bound and queried nothing, started no probe, accepted no
stream and dialled no peer. -/
theorem directory_sockets (h : machine.Reaches (fun _ _ => True) s) :
    ¬(s.manager.primaryListener = true ∧ s.manager.backupListener = true) ∧
    (s.softened = true → s.manager.peerListener = false ∧ s.manager.primaryListener = false ∧
      s.manager.backupListener = false) ∧
    ∀ a ∈ s.afterwards, ∃ session message, a = .control session message := by
  have hsockets := sockets_of_reaches h
  refine ⟨fun ⟨hprimary, hbackup⟩ => ?_, fun hsoft => ?_, hsockets.controls⟩
  · obtain hfree | hfree := hsockets.exclusive
    · rw [hprimary] at hfree
      cases hfree
    · rw [hbackup] at hfree
      cases hfree
  · have hclosed := hsockets.closed hsoft
    exact ⟨hclosed.peer, hclosed.primary, hclosed.backup⟩

/-- Surroundings in which every bind succeeds and no directory answers. -/
def alone (event : ListenEvent Nat) : Surroundings Nat where
  now := 0
  bind := .ok ()
  primary := none
  backup := none
  connects _ := false
  write := .ok ()
  event := event
  later := 0

theorem reaches_of_run {envs : List (Surroundings τ)} {ourNodeid : NodeId}
    (h : Machine.run step (fun _ _ => True) (.new ourNodeid) envs = some s) :
    machine.Reaches (fun _ _ => True) s := by
  have hinit : machine.Reaches (fun _ _ => True) (.new ourNodeid : IpcService τ) :=
    .init ⟨ourNodeid, rfl⟩
  exact hinit.run (fun _ _ _ hs => hs) h

/-- The states from the creation to the first wait, in which the primary name is bound. -/
def becomesPrimary : List (Surroundings Nat) := List.replicate 4 (alone .otherStatus)

/-- A manager that holds the primary name is told of the shutdown. A failed handshake then
makes it wait for the timer once more, and the timer makes it reconcile. -/
theorem primary_shuts_down : ∃ s : IpcService Nat, s.state = some .reconcileDirectory ∧
    s.softened = true ∧ s.manager.peerListener = false ∧ s.manager.primaryListener = false := by
  have hend : (Machine.run step (fun _ _ => True) (.new 7) (becomesPrimary ++
      [alone .shuttingDown, alone .otherStatus,
        alone (.command (.session (.handshakeFailed none))), alone .otherStatus,
        { alone .directoryTimer with later := 500 }])).map (fun s => (s.state, s.softened)) =
      some (some .reconcileDirectory, true) := by
    decide +kernel
  obtain ⟨s, hrun, hend⟩ := Option.map_eq_some_iff.mp hend
  simp only [Prod.mk.injEq] at hend
  obtain ⟨hstate, hsoft⟩ := hend
  obtain ⟨hpeer, hprimary, -⟩ := (directory_sockets (reaches_of_run hrun)).2.1 hsoft
  exact ⟨s, hstate, hsoft, hpeer, hprimary⟩

end IpcService

end Anybus
