import Anybus.Db.Handle
import Anybus.Linkstate.ForwardTable
import Anybus.Spf.ShortestPaths

/-!
# Runs of one database

Every operation the router performs on its database, as one step function. Between
steps the environment may do anything to the channels, time may pass, and the hash
maps may be rehashed. The trace of what was handed to links grows along the run.
-/

namespace Anybus

/-- What was handed to which link, oldest first. -/
abbrev Log := List (ConnectionId × Lsa)

/-- The operations of the router on its database. -/
inductive Op where
  | addEndpoint (request : RegistrationRequest)
  | removeEndpoint (endpointId : EndpointId)
  | setAnycastCost (endpointId : EndpointId) (sender : Sender) (cost : Cost)
  | addPeer (link : Link)
  | removePeer (connectionId : ConnectionId)
  | handleLsa (lsa : Lsa) (sender : ConnectionId)
  | handleAck (sender : ConnectionId) (key : LsaKey) (seq : Nat)
  | tick
  | buildFib
  | shutdown
  deriving DecidableEq

namespace LsDb

/-- Change the cost of a listener and advertise a new minimum. -/
def changeAnycastCost (db : LsDb) (w : Wires) (endpointId : EndpointId) (sender : Sender)
    (cost : Cost) (now : Instant) : LsDb × Wires :=
  match db.setAnycastCost endpointId sender cost with
  | .ok (db, .changed _ _ (some minCost)) => db.updateEndpointCost w endpointId minCost now
  | .ok (db, _) => (db, w)
  | .error _ => (db, w)

/-- One operation; `none` if it panics. -/
def step (db : LsDb) (w : Wires) (now : Instant) : Op → Option (LsDb × Wires)
  | .addEndpoint request => some ((db.addEndpoint w request now).1, (db.addEndpoint w request now).2.1)
  | .removeEndpoint endpointId => some (db.removeEndpoint w endpointId now)
  | .setAnycastCost endpointId sender cost => some (db.changeAnycastCost w endpointId sender cost now)
  | .addPeer link => some (db.addPeer w link now)
  | .removePeer connectionId => db.removePeer w connectionId now
  | .handleLsa lsa sender => db.handleLsa w lsa sender now
  | .handleAck sender key seq => some (db.handleAck sender key seq, w)
  | .tick => (db.tick w now).map fun r => (r.1, r.2.1)
  | .buildFib => db.buildFib.map fun r => (r.1, w)
  | .shutdown => some (db.shutdown w now)

/-- The same database with its maps in another order. -/
structure Rehash (db db' : LsDb) : Prop where
  records : db.db.entries.Perm db'.db.entries
  links : db.links.entries.Perm db'.links.entries
  pending : db.pendingTx.entries.Perm db'.pendingTx.entries
  hops : db.nextHop.entries.Perm db'.nextHop.entries
  costs : db.cost.entries.Perm db'.cost.entries
  parents : db.parent.entries.Perm db'.parent.entries
  routes : db.routes.table.entries.Perm db'.routes.table.entries
  rest : db' = { db with
    db := db'.db
    links := db'.links
    pendingTx := db'.pendingTx
    nextHop := db'.nextHop
    cost := db'.cost
    parent := db'.parent
    routes := db'.routes }

theorem Rehash.refl (db : LsDb) : Rehash db db :=
  ⟨.refl _, .refl _, .refl _, .refl _, .refl _, .refl _, .refl _, rfl⟩

theorem Rehash.symm {db db' : LsDb} (h : Rehash db db') : Rehash db' db := by
  refine ⟨h.records.symm, h.links.symm, h.pending.symm, h.hops.symm, h.costs.symm, h.parents.symm,
    h.routes.symm, ?_⟩
  rw [h.rest]

theorem Rehash.trans {db db' db'' : LsDb} (h : Rehash db db') (h' : Rehash db' db'') :
    Rehash db db'' := by
  refine ⟨h.records.trans h'.records, h.links.trans h'.links, h.pending.trans h'.pending,
    h.hops.trans h'.hops, h.costs.trans h'.costs, h.parents.trans h'.parents,
    h.routes.trans h'.routes, ?_⟩
  rw [h'.rest, h.rest]

theorem Rehash.selfId {db db' : LsDb} (h : Rehash db db') : db'.selfId = db.selfId := by
  rw [h.rest]

theorem Rehash.get_record {db db' : LsDb} (h : Rehash db db') (k : LsaKey) :
    db'.db.get k = db.db.get k := (HashMap.get_eq_of_perm h.records k).symm

theorem Rehash.get_link {db db' : LsDb} (h : Rehash db db') (c : ConnectionId) :
    db'.links.get c = db.links.get c := (HashMap.get_eq_of_perm h.links c).symm

theorem Rehash.get_route {db db' : LsDb} (h : Rehash db db') (e : EndpointId) :
    db'.routes.table.get e = db.routes.table.get e := (HashMap.get_eq_of_perm h.routes e).symm

/-- A rebuild recomputes the paths, clears the request and builds the table. -/
theorem buildFib_eq_some_iff {db db' : LsDb} {fib : ForwardingTable} :
    db.buildFib = some (db', fib) ↔ ∃ s, spf db.db db.links db.selfId = some s ∧
      db' = { db with
        nextHop := s.nextHop, cost := s.cost, parent := s.parent, rebuildRequested := none } ∧
      db'.buildFromDb = some fib := by
  unfold buildFib
  constructor
  · intro h
    cases hc : db.computeSpf db.selfId with
    | none => simp [hc] at h
    | some d =>
      obtain ⟨s, hs, rfl⟩ := computeSpf_eq_some_iff.mp hc
      simp only [hc, Option.map_eq_some_iff, Prod.mk.injEq] at h
      obtain ⟨fib', hfib, rfl, rfl⟩ := h
      exact ⟨s, hs, rfl, hfib⟩
  · rintro ⟨s, hs, rfl, hfib⟩
    have hc := computeSpf_eq_some_iff.mpr ⟨s, hs, rfl⟩
    simp only [hc, hfib, Option.map_some]

/-- The states a fresh database can reach, with the trace of its hand-overs, when every
operation satisfies a side condition on the state and channels it meets. -/
inductive Reaches (allowed : LsDb → Wires → Op → Prop) (selfId : NodeId) : LsDb → Log → Prop where
  | new (now : Instant) : Reaches allowed selfId (LsDb.new selfId now) []
  | rehash {db db' : LsDb} {log : Log} : Reaches allowed selfId db log → Rehash db db' →
      Reaches allowed selfId db' log
  | step {db db' : LsDb} {w w' : Wires} (now : Instant) (op : Op) :
      Reaches allowed selfId db w.handed → allowed db w op → db.step w now op = some (db', w') →
      Reaches allowed selfId db' w'.handed

/-- An operation and the environment it meets. -/
structure Action where
  op : Op
  now : Instant
  node : Tx → Chan NodeMessage
  client : Sender → Chan ClientMessage

/-- An operation at time zero, with all listeners open or all closed. -/
def Action.at (closed : Bool) (op : Op) : Action :=
  ⟨op, 0, fun _ => .channel 32, fun _ => ⟨[], 32, closed⟩⟩

/-- Perform a list of operations. -/
def run : LsDb → Log → List Action → Option (LsDb × Log)
  | db, log, [] => some (db, log)
  | db, log, a :: l =>
    match db.step ⟨a.node, a.client, log⟩ a.now a.op with
    | some (db', w') => db'.run w'.handed l
    | none => none

/-- A list of operations that are allowed in any state reaches its result. -/
theorem reaches_of_run {allowed : LsDb → Wires → Op → Prop} {selfId : NodeId} {db db' : LsDb}
    {log log' : Log} {l : List Action} (h : Reaches allowed selfId db log)
    (hall : ∀ a ∈ l, ∀ d w, allowed d w a.op) (hrun : db.run log l = some (db', log')) :
    Reaches allowed selfId db' log' := by
  induction l generalizing db log with
  | nil =>
    simp only [run, Option.some.injEq, Prod.mk.injEq] at hrun
    obtain ⟨rfl, rfl⟩ := hrun
    exact h
  | cons a l ih =>
    simp only [run] at hrun
    cases hs : db.step ⟨a.node, a.client, log⟩ a.now a.op with
    | none => simp [hs] at hrun
    | some r =>
      simp only [hs] at hrun
      have hstep := Reaches.step (w := ⟨a.node, a.client, log⟩) a.now a.op h (hall a List.mem_cons_self _ _) hs
      exact ih hstep (fun b hb => hall b (List.mem_cons_of_mem _ hb)) hrun

/-- An acknowledgement only changes what is pending. -/
theorem handleAck_frame (db : LsDb) (sender : ConnectionId) (key : LsaKey) (seq : Nat) :
    ∃ p, db.handleAck sender key seq = { db with pendingTx := p } := by
  unfold handleAck
  split
  · split
    · exact ⟨_, rfl⟩
    · exact ⟨_, rfl⟩
  · exact ⟨db.pendingTx, rfl⟩

section Flood

variable (db : LsDb) (w : Wires) (lsa : Lsa) (c : Option ConnectionId)

/-- A flood only changes what is pending. -/
@[simp] theorem flood_db : (db.floodAllNeighbors w lsa c).1.db = db.db := rfl

@[simp] theorem flood_selfId : (db.floodAllNeighbors w lsa c).1.selfId = db.selfId := rfl

@[simp] theorem flood_links : (db.floodAllNeighbors w lsa c).1.links = db.links := rfl

@[simp] theorem flood_routes : (db.floodAllNeighbors w lsa c).1.routes = db.routes := rfl

@[simp] theorem flood_lsaTimeout : (db.floodAllNeighbors w lsa c).1.lsaTimeout = db.lsaTimeout := rfl

/-- A flood hands out nothing but its LSA. -/
theorem flood_handed : ∃ out : Log, (db.floodAllNeighbors w lsa c).2.handed = w.handed ++ out ∧
    ∀ x ∈ out, x.2 = lsa := by
  refine ⟨(db.floodSends lsa c).map fun s => (s.1.connectionId, s.2), ?_, ?_⟩
  · rw [floodAllNeighbors_eq, trackAll_handed]
  · intro x hx
    obtain ⟨⟨link, lsa'⟩, hs, rfl⟩ := List.mem_map.mp hx
    exact (mem_floodSends.mp hs).1

/-- Several floods in turn only change what is pending, and hand out their LSAs. -/
theorem floodEach_spec (l : List Lsa) :
    (∃ p, (db.floodEach w l).1 = { db with pendingTx := p }) ∧
      ∃ out : Log, (db.floodEach w l).2.handed = w.handed ++ out ∧ ∀ x ∈ out, x.2 ∈ l := by
  unfold floodEach
  induction l generalizing db w with
  | nil => exact ⟨⟨db.pendingTx, rfl⟩, [], by simp, by simp⟩
  | cons lsa l ih =>
    obtain ⟨⟨p, hp⟩, out, hout, hmem⟩ := ih (db.floodAllNeighbors w lsa none).1
      (db.floodAllNeighbors w lsa none).2
    obtain ⟨out', hout', hmem'⟩ := db.flood_handed w lsa none
    refine ⟨⟨p, hp.trans ?_⟩, out' ++ out, ?_, fun x hx => ?_⟩
    · rw [floodAllNeighbors_eq]
    · rw [List.foldl_cons, hout, hout', List.append_assoc]
    · rcases List.mem_append.mp hx with hx | hx
      · exact List.mem_cons.mpr (Or.inl (hmem' x hx))
      · exact List.mem_cons_of_mem _ (hmem x hx)

end Flood

end LsDb

end Anybus
