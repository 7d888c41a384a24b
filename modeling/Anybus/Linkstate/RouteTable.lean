import Anybus.Linkstate.Lsa

/-!
# The route table

For every endpoint id the table holds one entry of one kind with all its known
routes, local listeners and remote advertisers alike. Local registrations report
through `Effects` what the link state database has to advertise.
-/

namespace Anybus

/-- Where a route leads. -/
inductive LsForwardTo where
  /-- A listener at this node. -/
  | loc (sender : Sender)
  /-- A node that advertises the endpoint. -/
  | remote (nodeId : NodeId)
  deriving DecidableEq, Repr

/-- Whether a route ends at this node. -/
def LsForwardTo.isLocal : LsForwardTo → Bool
  | .loc _ => true
  | .remote _ => false

/-- One known way to an endpoint. -/
structure LsRoute where
  via : LsForwardTo
  cost : Cost
  realm : Realm
  kind : RouteKind
  deriving DecidableEq, Repr

/-- All known routes of one endpoint id. -/
structure LsRouteEntry where
  routes : List LsRoute
  kind : RouteKind
  deriving DecidableEq, Repr

/-- All entries by endpoint id. -/
structure RouteTable where
  table : HashMap EndpointId LsRouteEntry
  deriving DecidableEq

/-- What a change of the route table asks of the link state database. -/
inductive Effects where
  | addLsa (endpointId : EndpointId) (info : EndpointInfo)
  | updateLsa (endpointId : EndpointId) (cost : Cost)
  | removeLsa (endpointId : EndpointId)
  | rebuildFib
  | noop
  deriving DecidableEq, Repr

/-- Why a route was refused. -/
inductive RouteTableError where
  | mismatchedRouteKind
  | duplicateUnicast
  deriving DecidableEq, Repr

/-- Why a cost change was refused. -/
inductive SetAnycastCostError where
  | notAnycast
  | notRegistered
  deriving DecidableEq, Repr

/-- What an accepted cost change did. -/
inductive SetAnycastCostOutcome where
  | unchanged
  | changed (previous new : Cost) (advertise : Option Cost)
  deriving DecidableEq, Repr

/-- The least cost among the local routes. -/
def minLocalCost (routes : List LsRoute) : Option Cost :=
  ((routes.filter fun route => route.via.isLocal).map fun route => route.cost).min?

/-- Apply a change to the first element that satisfies a test. -/
def modifyFirst {α : Type*} (p : α → Bool) (f : α → α) : List α → List α
  | [] => []
  | a :: l => if p a then f a :: l else a :: modifyFirst p f l

/-- Whether a route is the remote route of a node. -/
def LsRoute.isRemoteOf (route : LsRoute) (origin : NodeId) : Bool :=
  decide (route.via = .remote origin)

/-- Whether a route ends in a given channel. -/
def LsRoute.isLocalTo (route : LsRoute) (sender : Sender) : Bool :=
  decide (route.via = .loc sender)

/-- Whether a route leads to another node or ends in an open channel. -/
def LsRoute.staysOpen (w : Wires) (route : LsRoute) : Bool :=
  match route.via with
  | .loc sender => !(w.client sender).closed
  | .remote _ => true

namespace RouteTable

/-- The table of a fresh router. -/
def new : RouteTable := ⟨∅⟩

/-- The entry of an endpoint, or the empty entry that `or_insert` creates for it. -/
def entryOr (t : RouteTable) (endpointId : EndpointId) (kind : RouteKind) : LsRouteEntry :=
  (t.table.get endpointId).getD ⟨[], kind⟩

/-- Write an entry. -/
def setEntry (t : RouteTable) (endpointId : EndpointId) (entry : LsRouteEntry) : RouteTable :=
  ⟨t.table.insert endpointId entry⟩

/-- Drop an entry. -/
def removeEntry (t : RouteTable) (endpointId : EndpointId) : RouteTable :=
  ⟨t.table.erase endpointId⟩

/-- Tell every local listener that the bus is closing, then forget everything. -/
def shutdown (t : RouteTable) (w : Wires) : RouteTable × Wires :=
  let senders := t.table.values.flatMap fun re => re.routes.filterMap fun fwd =>
    match fwd.via with
    | .loc sender => some sender
    | .remote _ => none
  (new, senders.foldl (fun w sender => w.offerClient sender .shutdown) w)

/-- Register a local listener. A second unicast listener is refused, and a listener
of another kind than the entry's. -/
def addEndpoint (t : RouteTable) (endpointId : EndpointId) (info : EndpointInfo)
    (sender : Sender) : Except RouteTableError (RouteTable × Effects) :=
  let entry := t.entryOr endpointId info.kind
  let lsRoute : LsRoute := ⟨.loc sender, info.cost, info.realm, info.kind⟩
  let pushed := t.setEntry endpointId { entry with routes := entry.routes ++ [lsRoute] }
  if entry.kind ≠ info.kind then .error .mismatchedRouteKind
  else
    match info.kind with
    | .unicast =>
      if entry.routes.isEmpty then .ok (pushed, .addLsa endpointId info)
      else .error .duplicateUnicast
    | .anycast =>
      match minLocalCost entry.routes with
      | none => .ok (pushed, .addLsa endpointId info)
      | some previous =>
        if info.cost < previous then .ok (pushed, .updateLsa endpointId info.cost)
        else .ok (pushed, .noop)
    | .broadcast | .multicast =>
      if entry.routes.any fun r => r.via.isLocal then .ok (pushed, .noop)
      else .ok (pushed, .addLsa endpointId info)
    -- The entry is created but no route is pushed.
    | .node => .ok (t.setEntry endpointId entry, .noop)

/-- Change the cost of one local anycast listener. -/
def setAnycastCost (t : RouteTable) (endpointId : EndpointId) (sender : Sender) (cost : Cost) :
    Except SetAnycastCostError (RouteTable × SetAnycastCostOutcome) :=
  match t.table.get endpointId with
  | none => .error .notRegistered
  | some entry =>
    if entry.kind ≠ .anycast then .error .notAnycast
    else
      match entry.routes.find? fun route => route.isLocalTo sender with
      | none => .error .notRegistered
      | some route =>
        if route.cost = cost then .ok (t, .unchanged)
        else
          let routes := modifyFirst (fun route => route.isLocalTo sender)
            (fun route => { route with cost := cost }) entry.routes
          let advertise := match minLocalCost entry.routes, minLocalCost routes with
            | some old, some newMin => if old ≠ newMin then some newMin else none
            | _, _ => none
          .ok (t.setEntry endpointId { entry with routes := routes },
            .changed route.cost cost advertise)

/-- Drop the closed local listeners of an endpoint. The advertisement is withdrawn
only when no route at all is left. -/
def removeEndpoint (t : RouteTable) (w : Wires) (endpointId : EndpointId) :
    RouteTable × Effects :=
  match t.table.get endpointId with
  | none => (t, .noop)
  | some entry =>
    let previousMin := minLocalCost entry.routes
    let routes := entry.routes.filter (LsRoute.staysOpen w)
    if routes.isEmpty then (t.removeEntry endpointId, .removeLsa endpointId)
    else
      let t := t.setEntry endpointId { entry with routes := routes }
      let rest := if entry.routes.length ≠ routes.length then Effects.rebuildFib else .noop
      if entry.kind = .anycast then
        match minLocalCost routes with
        | some cost => if previousMin ≠ some cost then (t, .updateLsa endpointId cost) else (t, rest)
        | none => (t, rest)
      else (t, rest)

/-- Learn that a node advertises an endpoint. -/
def addRemoteEndpoint (t : RouteTable) (endpointId : EndpointId) (origin : NodeId)
    (info : EndpointInfo) : Except RouteTableError (RouteTable × Effects) :=
  let entry := t.entryOr endpointId info.kind
  if entry.kind ≠ info.kind then .error .mismatchedRouteKind
  else
    match entry.routes.find? fun r => r.isRemoteOf origin with
    | some existing =>
      if existing.cost ≠ info.cost ∨ existing.realm ≠ info.realm then
        .ok (t.setEntry endpointId { entry with
          routes := modifyFirst (fun r => r.isRemoteOf origin)
            (fun r => { r with cost := info.cost, realm := info.realm }) entry.routes }, .rebuildFib)
      else .ok (t, .noop)
    | none =>
      if entry.kind = .unicast ∧ ¬ entry.routes.isEmpty then .error .duplicateUnicast
      else
        let effect := if entry.routes.all fun r => r.via.isLocal then Effects.rebuildFib else .noop
        .ok (t.setEntry endpointId { entry with
          routes := entry.routes ++ [⟨.remote origin, info.cost, info.realm, info.kind⟩] }, effect)

/-- Forget that a node advertises an endpoint. -/
def removeRemoteEndpoint (t : RouteTable) (endpointId : EndpointId) (origin : NodeId) :
    RouteTable × Effects :=
  match t.table.get endpointId with
  | none => (t, .noop)
  | some entry =>
    let routes := entry.routes.filter fun r => !r.isRemoteOf origin
    if routes.isEmpty then (t.removeEntry endpointId, .rebuildFib)
    else
      (t.setEntry endpointId { entry with routes := routes },
        if entry.routes.length ≠ routes.length then .rebuildFib else .noop)

end RouteTable

end Anybus
