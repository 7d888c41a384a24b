import Anybus.Peers.IpcManager
import Mathlib.Data.List.Sort

/-!
# The directory of an IPC manager

Besides its sessions a manager keeps a socket for its own peers, and a node of rank 0 or 1
keeps a directory socket by which new nodes find the others. The manager runs through
states, one after the other; what its surroundings do while it is in a state, such as the
outcome of a bind or what ends its wait, is given with the state.
-/

namespace Anybus

/-- What a directory answers. -/
structure DirectoryView where
  owner : NodeId
  peers : List NodeId
  deriving DecidableEq

def DirectoryView.dialIds (view : DirectoryView) : List NodeId :=
  if view.owner ∈ view.peers then view.peers else view.peers ++ [view.owner]

/-- What the manager is told, by a session or by a probe of the directory names. -/
inductive ManagerCommand (τ : Type) where
  | session (command : IpcCommand τ)
  | directoryProbe (primary : Option DirectoryView) (primarySelf : Bool)
      (backup : Option DirectoryView) (backupSelf : Bool)
  deriving DecidableEq

/-- Why a bind has failed. -/
inductive BindError where
  | addrInUse
  | other
  deriving DecidableEq

inductive IpcManagerError where
  | io
  | encodeError
  | timedOut
  deriving DecidableEq

/-- Where the manager is. -/
inductive ManagerState (τ : Type) where
  | creation
  | startPeerListener (query : Bool)
  | queryDirectory
  | bindPrimary
  | bindBackup
  | dialPeers (ids : List NodeId) (fromDirectory : Bool)
  | serveDirectory
  | reconcileDirectory
  | listen (shutdown : Bool)
  | softShutdown
  | shutdown
  | handleError (error : IpcManagerError)
  | handleIpcCommand (command : ManagerCommand τ)
  deriving DecidableEq

/-- What ends the wait of a listening manager. An `accept` returns a stream or an error. -/
inductive ListenEvent (τ : Type) where
  | peerStream (ok : Bool)
  | primaryStream (ok : Bool)
  | backupStream (ok : Bool)
  | directoryTimer
  | command (command : ManagerCommand τ)
  | shuttingDown
  | resuming
  | otherStatus
  | statusClosed
  deriving DecidableEq

/-- What the surroundings do while the manager is in a state. A state reads what it needs. -/
structure Surroundings (τ : Type) where
  /-- The clock when the state is entered. -/
  now : Instant
  /-- The outcome of a bind. -/
  bind : Except BindError Unit
  /-- What the two directory names answer. -/
  primary : Option DirectoryView
  backup : Option DirectoryView
  /-- Which peers can be connected to. -/
  connects : NodeId → Bool
  /-- The outcome of writing to a stream. -/
  write : Except IpcManagerError Unit
  event : ListenEvent τ
  /-- The clock when the wait is over. -/
  later : Instant

/-- What the manager does besides changing its own data. -/
inductive ManagerAction (τ : Type) where
  | bindPeer
  | bindPrimary (overwrite : Bool)
  | bindBackup (overwrite : Bool)
  | queryDirectory
  | spawnProbe (holdPrimary holdBackup : Bool)
  | accept
  | connectNode (id : NodeId)
  | spawnPeer (expected : Option NodeId)
  | serve (owner : NodeId) (peers : List NodeId)
  | control (session : τ) (message : IpcControl)
  deriving DecidableEq

/-- A manager with its sockets. Of a socket it matters whether it is held. -/
structure IpcDirectory (τ : Type) extends IpcManager τ where
  peerListener : Bool
  primaryListener : Bool
  backupListener : Bool
  directoryWakeAt : Option Instant
  directoryWakeProbe : Bool
  primaryMisses : Nat
  primaryBindInUse : Nat
  backupBindInUse : Nat
  probeInFlight : Bool
  deriving DecidableEq

/-- The state that follows, `none` at the end, and what the manager is and does then. -/
structure ManagerTurn (τ : Type) where
  state : Option (ManagerState τ)
  manager : IpcDirectory τ
  actions : List (ManagerAction τ)
  deriving DecidableEq

def directoryRetryInterval : Duration := 500

def directoryHealthInterval : Duration := 15 * 1000

def primaryTakeoverMisses : Nat := 3

def directoryOverwriteAfter : Nat := 3

/-- Count one more in a byte. -/
def saturatingSucc (n : Nat) : Nat := min (n + 1) 255

def bindRetryDelay : BindError → Duration
  | .addrInUse => directoryHealthInterval
  | .other => directoryRetryInterval

def countInUse (error : BindError) (n : Nat) : Nat :=
  if error = .addrInUse then saturatingSucc n else n

namespace IpcDirectory

variable {τ : Type}

def new (ourNodeid : NodeId) : IpcDirectory τ where
  ourNodeid := ourNodeid
  peers := []
  pending := ∅
  shuttingDown := false
  peerListener := false
  primaryListener := false
  backupListener := false
  directoryWakeAt := none
  directoryWakeProbe := false
  primaryMisses := 0
  primaryBindInUse := 0
  backupBindInUse := 0
  probeInFlight := false

/-- The position of the node among those it has a session with, the smallest id first. -/
def rank (m : IpcDirectory τ) : Nat :=
  ((m.peers.map IpcEntry.nodeId ++ [m.ourNodeid]).insertionSort (· ≤ ·)).idxOf m.ourNodeid

def directoryPeerList (m : IpcDirectory τ) : List NodeId :=
  m.peers.map IpcEntry.nodeId ++ [m.ourNodeid]

def hasUnknownPeers (m : IpcDirectory τ) (ids : List NodeId) : Bool :=
  ids.any fun id => decide (id ≠ m.ourNodeid) && !(m.peers.any fun e => decide (e.nodeId = id)) &&
    decide (id ∉ m.pending)

/-- Ask for the timer to fire. One deadline and one flag stand for all requests: a later
request adds to the flag, an earlier one replaces it. -/
def scheduleDirectoryWake (m : IpcDirectory τ) (now : Instant) (delay : Duration)
    (probePrimary : Bool) : IpcDirectory τ :=
  let replaced : IpcDirectory τ :=
    { m with directoryWakeAt := some (now + delay), directoryWakeProbe := probePrimary }
  match m.directoryWakeAt with
  | some existing =>
    if existing ≤ now + delay then
      { m with directoryWakeProbe := m.directoryWakeProbe || probePrimary }
    else replaced
  | none => replaced

def scheduleDirectoryHealth (m : IpcDirectory τ) (now : Instant) : IpcDirectory τ :=
  if m.shuttingDown then m else m.scheduleDirectoryWake now directoryHealthInterval true

def spawnDirectoryProbe (m : IpcDirectory τ) : IpcDirectory τ × List (ManagerAction τ) :=
  if m.probeInFlight || m.shuttingDown then (m, [])
  else ({ m with probeInFlight := true }, [.spawnProbe m.primaryListener m.backupListener])

def dropDirectoryListeners (m : IpcDirectory τ) : IpcDirectory τ :=
  { m with
    primaryListener := false
    backupListener := false
    directoryWakeAt := none
    directoryWakeProbe := false
    primaryMisses := 0
    primaryBindInUse := 0
    backupBindInUse := 0 }

def dropBackup (m : IpcDirectory τ) : IpcDirectory τ := { m with backupListener := false }

def startPeerListener (m : IpcDirectory τ) (query : Bool) (env : Surroundings τ) : ManagerTurn τ :=
  let following : ManagerState τ := if query then .queryDirectory else .listen false
  if m.peerListener then ⟨some following, m, []⟩
  else
    match env.bind with
    | .ok () => ⟨some following, { m with peerListener := true }, [.bindPeer]⟩
    | .error _ => ⟨some .shutdown, m, [.bindPeer]⟩

def queryDirectory (m : IpcDirectory τ) (env : Surroundings τ) : ManagerTurn τ :=
  match env.primary.or env.backup with
  | some view => ⟨some (.dialPeers view.dialIds true), m, [.queryDirectory]⟩
  | none => ⟨some .bindPrimary, m, [.queryDirectory]⟩

/-- The primary name is held. -/
def holdPrimary (m : IpcDirectory τ) (now : Instant) : IpcDirectory τ :=
  { m.dropBackup with primaryMisses := 0 }.scheduleDirectoryHealth now

def bindPrimary (m : IpcDirectory τ) (env : Surroundings τ) : ManagerTurn τ :=
  if m.shuttingDown then ⟨some (.listen true), m, []⟩
  else if m.primaryListener then ⟨some (.listen false), m.holdPrimary env.now, []⟩
  else
    let attempt := ManagerAction.bindPrimary (decide (directoryOverwriteAfter ≤ m.primaryBindInUse))
    match env.bind with
    | .ok () =>
      let m := { m with primaryListener := true, primaryBindInUse := 0 }
      ⟨some (.listen false), m.holdPrimary env.now, [attempt]⟩
    | .error error =>
      -- A backup name that is held is kept.
      let m := { m with primaryBindInUse := countInUse error m.primaryBindInUse }
      let probed := m.spawnDirectoryProbe
      ⟨some (.listen false), probed.1.scheduleDirectoryWake env.now (bindRetryDelay error) false,
        attempt :: probed.2⟩

def bindBackup (m : IpcDirectory τ) (env : Surroundings τ) : ManagerTurn τ :=
  if m.shuttingDown then ⟨some (.listen true), m, []⟩
  else
    let m := { m with primaryListener := false }
    if m.backupListener then ⟨some (.listen false), m.scheduleDirectoryHealth env.now, []⟩
    else
      let attempt := ManagerAction.bindBackup (decide (directoryOverwriteAfter ≤ m.backupBindInUse))
      match env.bind with
      | .ok () =>
        let m := { m with backupListener := true, backupBindInUse := 0 }
        ⟨some (.listen false), m.scheduleDirectoryHealth env.now, [attempt]⟩
      | .error error =>
        let m := { m with backupBindInUse := countInUse error m.backupBindInUse }
        ⟨some (.listen false), m.scheduleDirectoryWake env.now (bindRetryDelay error) false, [attempt]⟩

/-- Dial the peers in turn and start a session with each that answers. -/
def dialPeersTurn (m : IpcDirectory τ) (ids : List NodeId) (fromDirectory : Bool)
    (env : Surroundings τ) : ManagerTurn τ :=
  if m.shuttingDown then ⟨some (.listen true), m, []⟩
  else
    let dialled := m.toIpcManager.dialPeers ids fromDirectory env.connects
    ⟨some (.listen false), { m with toIpcManager := dialled.1 }.scheduleDirectoryHealth env.now,
      (m.toIpcManager.dialable ids fromDirectory).map .connectNode ++
        dialled.2.map fun id => .spawnPeer (some id)⟩

def serveDirectory (m : IpcDirectory τ) (env : Surroundings τ) : ManagerTurn τ :=
  let served := [ManagerAction.serve m.ourNodeid m.directoryPeerList]
  match env.write with
  | .ok () => ⟨some (.listen false), m, served⟩
  | .error error => ⟨some (.handleError error), m, served⟩

def reconcileDirectory (m : IpcDirectory τ) (env : Surroundings τ) : ManagerTurn τ :=
  if m.shuttingDown then ⟨some (.listen true), m, []⟩
  else
    match m.rank with
    | 0 =>
      if m.primaryListener then ⟨some (.listen false), m.holdPrimary env.now, []⟩
      else ⟨some .bindPrimary, m, []⟩
    | 1 => ⟨some .bindBackup, m, []⟩
    | _ => ⟨some (.listen false), m.dropDirectoryListeners, []⟩

/-- The directory timer fires. -/
def directoryTimer (m : IpcDirectory τ) (shutdown : Bool) (now : Instant) : ManagerTurn τ :=
  let probe := m.directoryWakeProbe
  let m := { m with directoryWakeAt := none, directoryWakeProbe := false }
  if probe then
    let probed := if m.probeInFlight then (m.scheduleDirectoryHealth now, []) else m.spawnDirectoryProbe
    ⟨some (.listen (shutdown || m.shuttingDown)), probed.1, probed.2⟩
  else ⟨some .reconcileDirectory, m, []⟩

/-- A stream, or an error, comes from a socket that is held. Sockets are asked only while the
manager accepts. -/
def acceptStream (m : IpcDirectory τ) (accepting listener ok : Bool) (accepted : ManagerTurn τ) :
    Option (ManagerTurn τ) :=
  if accepting && listener then
    some (if ok then accepted else ⟨some (.handleError .io), m, [.accept]⟩)
  else none

/-- What a listening manager does when its wait ends, if its wait can end like that. -/
def react (m : IpcDirectory τ) (shutdown : Bool) (env : Surroundings τ) : Option (ManagerTurn τ) :=
  let accepting := !shutdown && !m.shuttingDown
  let stay : ManagerState τ := .listen (shutdown || m.shuttingDown)
  match env.event with
  | .peerStream ok => m.acceptStream accepting m.peerListener ok
      ⟨some (.listen shutdown), m, [.accept, .spawnPeer none]⟩
  | .primaryStream ok => m.acceptStream accepting m.primaryListener ok
      ⟨some .serveDirectory, m, [.accept]⟩
  | .backupStream ok => m.acceptStream accepting m.backupListener ok
      ⟨some .serveDirectory, m, [.accept]⟩
  | .directoryTimer =>
    match m.directoryWakeAt with
    | some deadline =>
      if deadline ≤ env.later then some (m.directoryTimer shutdown env.later) else none
    | none => none
  | .command command => some ⟨some (.handleIpcCommand command), m, []⟩
  | .shuttingDown => some ⟨some .softShutdown, m, []⟩
  | .resuming => some ⟨some stay, m, m.peers.map fun e => .control e.control .resume⟩
  | .otherStatus => some ⟨some stay, m, []⟩
  | .statusClosed => some ⟨some .shutdown, m, []⟩

def listen (m : IpcDirectory τ) (shutdown : Bool) (env : Surroundings τ) : Option (ManagerTurn τ) :=
  let accepting := !shutdown && !m.shuttingDown
  if accepting && !m.peerListener then some ⟨some (.startPeerListener false), m, []⟩
  else
    let m := if accepting && m.directoryWakeAt.isNone then m.scheduleDirectoryHealth env.now else m
    m.react shutdown env

def softShutdown (m : IpcDirectory τ) : ManagerTurn τ :=
  ⟨some (.listen true), { m with shuttingDown := true, peerListener := false }.dropDirectoryListeners, []⟩

def shutdown (m : IpcDirectory τ) : ManagerTurn τ :=
  ⟨none, { m with peerListener := false, peers := [] }.dropDirectoryListeners,
    m.peers.map fun e => .control e.control .shutdown⟩

/-- Whether a name that was held when the probe was started is lost, and the ids its new
owner knows. -/
def probedName (m : IpcDirectory τ) (held : Bool) (answer : Option DirectoryView) :
    Bool × List NodeId :=
  if held then
    match answer with
    | some view => if view.owner = m.ourNodeid then (false, []) else (true, view.dialIds)
    | none => (true, [])
  else (false, [])

/-- How often in a row the primary name of another node was out of reach. -/
def missesAfter (m : IpcDirectory τ) (primary : Option DirectoryView) (primarySelf : Bool) : Nat :=
  if primarySelf then m.primaryMisses
  else if primary.isSome then 0
  else saturatingSucc m.primaryMisses

/-- A probe has found no name lost. Dial the peers it has brought; a manager without the primary
name counts how often it was out of reach and takes it over in the end. -/
def namesKept (m : IpcDirectory τ) (primary : Option DirectoryView) (primarySelf : Bool)
    (backup : Option DirectoryView) (now : Instant) : ManagerTurn τ :=
  let m := { m with primaryMisses := m.missesAfter primary primarySelf }
  if !primarySelf && primary.isNone && decide (primaryTakeoverMisses ≤ m.primaryMisses) then
    ⟨some .bindPrimary, m, []⟩
  else
    let ids := (primary.map DirectoryView.dialIds).getD [] ++
      (backup.map DirectoryView.dialIds).getD []
    let following : ManagerState τ :=
      if m.hasUnknownPeers ids then .dialPeers ids true else .listen m.shuttingDown
    ⟨some following, m.scheduleDirectoryHealth now, []⟩

/-- The answers to a probe. -/
def directoryProbe (m : IpcDirectory τ) (primary : Option DirectoryView) (primarySelf : Bool)
    (backup : Option DirectoryView) (backupSelf : Bool) (now : Instant) : ManagerTurn τ :=
  let m := { m with probeInFlight := false }
  if m.shuttingDown then ⟨some (.listen true), m, []⟩
  else
    let ofPrimary := m.probedName primarySelf primary
    let ofBackup := m.probedName backupSelf backup
    let m := { m with
      primaryListener := m.primaryListener && !ofPrimary.1
      backupListener := m.backupListener && !ofBackup.1 }
    let stolenIds := ofPrimary.2 ++ ofBackup.2
    if !stolenIds.isEmpty && m.hasUnknownPeers stolenIds then
      ⟨some (.dialPeers stolenIds true), m.scheduleDirectoryHealth now, []⟩
    else if ofPrimary.1 || ofBackup.1 then ⟨some .reconcileDirectory, m, []⟩
    else m.namesKept primary primarySelf backup now

/-- Answer a command. -/
def handleCommand (m : IpcDirectory τ) (command : ManagerCommand τ) (now : Instant) :
    ManagerTurn τ :=
  match command with
  | .session (.peerClosed id connectionId) =>
    ⟨some .reconcileDirectory,
      { m with toIpcManager := m.toIpcManager.peerClosed id connectionId }, []⟩
  | .session (.sessionReady id control connectionId) =>
    let r := m.toIpcManager.sessionReady id control connectionId
    ⟨some .reconcileDirectory, { m with toIpcManager := r.1 }, r.2.map fun c => .control c.1 c.2⟩
  | .session (.handshakeFailed expected) =>
    let m := { m with toIpcManager := m.toIpcManager.handshakeFailed expected }
    let m := if !m.primaryListener && m.peers.isEmpty then
      m.scheduleDirectoryWake now directoryRetryInterval false else m
    ⟨some (.listen m.shuttingDown), m, []⟩
  | .session (.learnedPeers ids) => ⟨some (.dialPeers ids false), m, []⟩
  | .directoryProbe primary primarySelf backup backupSelf =>
    m.directoryProbe primary primarySelf backup backupSelf now

/-- One state of the manager, if its surroundings can be as given. -/
def next (m : IpcDirectory τ) (env : Surroundings τ) : ManagerState τ → Option (ManagerTurn τ)
  | .creation => some ⟨some (.startPeerListener true), m, []⟩
  | .startPeerListener query => some (m.startPeerListener query env)
  | .queryDirectory => some (m.queryDirectory env)
  | .bindPrimary => some (m.bindPrimary env)
  | .bindBackup => some (m.bindBackup env)
  | .dialPeers ids fromDirectory => some (m.dialPeersTurn ids fromDirectory env)
  | .serveDirectory => some (m.serveDirectory env)
  | .reconcileDirectory => some (m.reconcileDirectory env)
  | .listen shutdown => m.listen shutdown env
  | .softShutdown => some m.softShutdown
  | .shutdown => some m.shutdown
  | .handleError _ => some ⟨some (.listen m.shuttingDown), m, []⟩
  | .handleIpcCommand command => some (m.handleCommand command env.now)

end IpcDirectory

end Anybus
