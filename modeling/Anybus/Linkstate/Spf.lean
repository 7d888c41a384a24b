import Anybus.Linkstate.Lsa
import Mathlib.Data.Finset.Card

/-!
# The shortest path computation

A Dijkstra search over the stored router LSAs. The frontier is one queue ordered
by `Entry.better`; an improved node is taken out of it and put back at its new
place. A node reached directly from the root gets the first link to it as its next
hop, a deeper node inherits the next hop of the node it was reached from. That
inheritance unwraps a lookup, so the search can panic: `none` stands for that.
-/

namespace Anybus

/-- The working state of the search. -/
structure Spf where
  cost : HashMap NodeId Cost
  parent : HashMap NodeId NodeId
  nextHop : HashMap NodeId Link
  queue : List Entry
  deriving DecidableEq

/-- The cost found so far, infinite for a node never reached. -/
def Spf.costOf (s : Spf) (n : NodeId) : Cost := (s.cost.get n).getD Cost.max

/-- Put an entry at its place in the ordered queue, replacing an older entry of the
same node. -/
def requeue (queue : List Entry) (entry : Entry) : List Entry :=
  let queue := queue.eraseP fun e => e.node = entry.node
  let pos := (queue.takeWhile fun e => e.better entry).length
  queue.insertIdx pos entry

/-- The next hops after `next` was reached from `current`. The direct neighbours of
the root take the first link that leads to them, if there is one. -/
def inheritHop (links : HashMap ConnectionId Link) (root current next : NodeId)
    (nextHop : HashMap NodeId Link) : Option (HashMap NodeId Link) :=
  if current = root then
    some (match links.values.find? fun link => link.peerId = next with
      | some link => nextHop.insert next link
      | none => nextHop)
  else
    match nextHop.get current with
    | some link => some (nextHop.insert next link)
    | none => none

/-- Try one adjacency of the node just taken from the queue. -/
def relax (links : HashMap ConnectionId Link) (root : NodeId) (current : Entry) (s : Spf)
    (adjacency : Adjacency) : Option Spf :=
  let nextNode := adjacency.peerId
  let newCost := current.cost + adjacency.cost
  if Entry.better ⟨newCost, nextNode⟩ ⟨s.costOf nextNode, nextNode⟩ then
    match inheritHop links root current.node nextNode s.nextHop with
    | some nextHop => some
      { cost := s.cost.insert nextNode newCost
        parent := s.parent.insert nextNode current.node
        nextHop := nextHop
        queue := requeue s.queue ⟨newCost, nextNode⟩ }
    | none => none
  else some s

/-- Try all adjacencies of the node just taken from the queue, in their stored order. -/
def relaxAll (links : HashMap ConnectionId Link) (root : NodeId) (current : Entry) :
    List Adjacency → Spf → Option Spf
  | [], s => some s
  | adjacency :: rest, s =>
    match relax links root current s adjacency with
    | some s => relaxAll links root current rest s
    | none => none

/-- One turn of the main loop: take the first entry and try its adjacencies. -/
def spfTurn (nodes : HashMap NodeId (List Adjacency)) (links : HashMap ConnectionId Link)
    (root : NodeId) (current : Entry) (rest : List Entry) (s : Spf) : Option Spf :=
  match nodes.get current.node with
  | some adjacencies => relaxAll links root current adjacencies { s with queue := rest }
  | none => some { s with queue := rest }

/-- The main loop with a bound on its turns. -/
def spfLoop (nodes : HashMap NodeId (List Adjacency)) (links : HashMap ConnectionId Link)
    (root : NodeId) : Nat → Spf → Option Spf
  | 0, s => some s
  | fuel + 1, s =>
    match s.queue with
    | [] => some s
    | current :: rest =>
      match spfTurn nodes links root current rest s with
      | some s => spfLoop nodes links root fuel s
      | none => none

/-- Collect one record if it is a router's. -/
def addRouterLsa (nodes : HashMap NodeId (List Adjacency)) (e : Σ _ : LsaKey, LsaRecord) :
    HashMap NodeId (List Adjacency) :=
  match e.2.lsa.body with
  | .router adjacencies => nodes.insert e.1.origin adjacencies
  | .endpoint _ => nodes

/-- The adjacency lists of the stored router LSAs by origin; of several router
records of one origin the last one visited wins. -/
def routerLsas (db : HashMap LsaKey LsaRecord) : HashMap NodeId (List Adjacency) :=
  db.entries.foldl addRouterLsa ∅

/-- The state before the first turn: every known router at infinity, the root at zero. -/
def spfInit (nodes : HashMap NodeId (List Adjacency)) (root : NodeId) : Spf where
  cost := (nodes.keys.foldl (fun (cost : HashMap NodeId Cost) n => cost.insert n Cost.max) ∅).insert root 0
  parent := ∅
  nextHop := ∅
  queue := [⟨0, root⟩]

/-- Every node that an adjacency can lead to. -/
def spfTargets (nodes : HashMap NodeId (List Adjacency)) : Finset NodeId :=
  (nodes.values.flatMap fun adjacencies => adjacencies.map fun adj => adj.peerId).toFinset

/-- Turns that always suffice: a turn either shortens the queue or lowers the cost
of one of finitely many nodes. -/
def spfFuel (nodes : HashMap NodeId (List Adjacency)) : Nat :=
  2 * (65535 * (spfTargets nodes).card) + 2

/-- The whole search over the given database and links. -/
def spf (db : HashMap LsaKey LsaRecord) (links : HashMap ConnectionId Link) (root : NodeId) :
    Option Spf :=
  let nodes := routerLsas db
  spfLoop nodes links root (spfFuel nodes) (spfInit nodes root)

end Anybus
