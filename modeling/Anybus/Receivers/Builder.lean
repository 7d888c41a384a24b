import Anybus.Db.Routes

/-!
# Registrations

A client registers with one of the functions of its handle, or with a builder: a chain of
calls that ends in `register`. The type of a builder says which calls it has, so a chain
that is wrong does not compile. What compiles never panics, and asks the router for the
endpoint, the kind, the realm and the cost that were set, with two exceptions: a unicast
service for remote calls is always global, and only anycast listeners have a cost.
-/

namespace Anybus

namespace Handle

/-- The request of a listener on a channel of its own. -/
def registerRpcChannel (endpointId : EndpointId) (kind : RouteKind) (realm : Realm) (cost : Cost)
    (sender : Sender) : RegistrationRequest := ⟨endpointId, ⟨kind, realm, cost⟩, sender⟩

def registerAnycastInner (endpointId : EndpointId) (realm : Realm) (cost : Cost) (sender : Sender) :
    RegistrationRequest := registerRpcChannel endpointId .anycast realm cost sender

def registerUnicastInner (endpointId : EndpointId) (realm : Realm) (sender : Sender) :
    RegistrationRequest := registerRpcChannel endpointId .unicast realm 0 sender

def registerBroadcastInner (broadcastId : EndpointId) (realm : Realm) (sender : Sender) :
    RegistrationRequest := registerRpcChannel broadcastId .broadcast realm 0 sender

def registerAnycastUuid (endpointId : EndpointId) (sender : Sender) : RegistrationRequest :=
  registerAnycastInner endpointId .global 0 sender

def registerUnicastUuid (endpointId : EndpointId) (sender : Sender) : RegistrationRequest :=
  registerUnicastInner endpointId .global sender

def registerBroadcastUuid (broadcastId : EndpointId) (sender : Sender) : RegistrationRequest :=
  registerBroadcastInner broadcastId .global sender

def registerRpcUuid (endpointId : EndpointId) (sender : Sender) : RegistrationRequest :=
  registerRpcChannel endpointId .unicast .global 0 sender

def registerAnycastRpcInner (endpointId : EndpointId) (realm : Realm) (cost : Cost) (sender : Sender) :
    RegistrationRequest := registerRpcChannel endpointId .anycast realm cost sender

def registerAnycastRpcUuid (endpointId : EndpointId) (sender : Sender) : RegistrationRequest :=
  registerAnycastRpcInner endpointId .global 0 sender

/-- The channel for the replies to a client's own calls. -/
def rpcHelper (responseUuid : EndpointId) (sender : Sender) : RegistrationRequest :=
  registerRpcChannel responseUuid .unicast .process 0 sender

end Handle

/-- Whether a builder has an endpoint. -/
inductive EndpointState where
  | noEndpointId
  | endpointSet (endpointId : EndpointId)
  deriving DecidableEq

/-- Whether a builder has a kind. -/
inductive CastState where
  | noCast
  | castSet (kind : RouteKind)
  | anycastSet
  deriving DecidableEq

/-- Whether a builder registers a service for remote calls. -/
inductive RpcState where
  | noRpc
  | rpcSet
  deriving DecidableEq

/-- A registration to be; the states are parts of its type in the source. -/
structure RegistrationBuilder where
  endpointId : EndpointState
  realm : Realm
  cast : CastState
  rpcFlag : RpcState
  cost : Cost
  deriving DecidableEq

/-- The calls in a chain. -/
inductive BuilderCall where
  | realm (realm : Realm)
  | cost (cost : Cost)
  | endpoint (ep : EndpointId)
  | anycast
  | unicast
  | broadcast
  | rpc
  deriving DecidableEq

/-- What `register` does. -/
inductive Registering where
  /-- The builder has no such method. -/
  | noMethod
  | panic
  | request (request : RegistrationRequest)
  deriving DecidableEq

namespace RegistrationBuilder

def listener : RegistrationBuilder := ⟨.noEndpointId, .global, .noCast, .noRpc, 0⟩

/-- The builder after a call; `none` if it has no such method. -/
def call (b : RegistrationBuilder) : BuilderCall → Option RegistrationBuilder
  | .realm realm => some { b with realm := realm }
  | .cost cost => some { b with cost := cost }
  | .endpoint ep => some { b with endpointId := .endpointSet ep }
  | .anycast =>
    match b.cast with
    | .noCast => some { b with cast := .anycastSet }
    | _ => none
  | .unicast =>
    match b.cast with
    | .noCast => some { b with cast := .castSet .unicast }
    | _ => none
  | .broadcast =>
    match b.cast, b.rpcFlag with
    | .noCast, .noRpc => some { b with cast := .castSet .broadcast }
    | _, _ => none
  | .rpc =>
    match b.cast, b.rpcFlag with
    | .anycastSet, .noRpc => some { b with rpcFlag := .rpcSet }
    | .noCast, .noRpc => some { b with rpcFlag := .rpcSet }
    | _, _ => none

/-- The builder after a chain of calls. -/
def chain (calls : List BuilderCall) : Option RegistrationBuilder := calls.foldlM call listener

/-- A registration of one of the kinds that are set by name. -/
def registerCast (kind : RouteKind) (ep : EndpointId) (realm : Realm) (sender : Sender) : Registering :=
  match kind with
  | .anycast => .panic
  | .unicast => .request (Handle.registerUnicastInner ep realm sender)
  | .broadcast => .request (Handle.registerBroadcastInner ep realm sender)
  | .multicast => .panic
  | .node => .panic

/-- The end of a chain, for a type with a uuid of its own and a new channel. -/
def register (b : RegistrationBuilder) (uuid : EndpointId) (sender : Sender) : Registering :=
  match b.endpointId, b.cast, b.rpcFlag with
  | .endpointSet ep, .anycastSet, .noRpc => .request (Handle.registerAnycastInner ep b.realm b.cost sender)
  | .noEndpointId, .anycastSet, .noRpc => .request (Handle.registerAnycastInner uuid b.realm b.cost sender)
  | .endpointSet ep, .castSet kind, .noRpc => registerCast kind ep b.realm sender
  | .noEndpointId, .castSet kind, .noRpc => registerCast kind uuid b.realm sender
  | .noEndpointId, .noCast, .rpcSet => .request (Handle.registerRpcUuid uuid sender)
  | .endpointSet ep, .noCast, .rpcSet => .request (Handle.registerRpcUuid ep sender)
  | .noEndpointId, .anycastSet, .rpcSet =>
    .request (Handle.registerAnycastRpcInner uuid b.realm b.cost sender)
  | .endpointSet ep, .anycastSet, .rpcSet =>
    .request (Handle.registerAnycastRpcInner ep b.realm b.cost sender)
  | _, .noCast, .noRpc => .noMethod
  | _, .castSet _, .rpcSet => .noMethod

end RegistrationBuilder

/-- What a call sets. -/
def BuilderCall.realm? : BuilderCall → Option Realm
  | .realm r => some r
  | _ => none

def BuilderCall.cost? : BuilderCall → Option Cost
  | .cost c => some c
  | _ => none

def BuilderCall.endpoint? : BuilderCall → Option EndpointId
  | .endpoint e => some e
  | _ => none

def BuilderCall.kind? : BuilderCall → Option RouteKind
  | .anycast => some .anycast
  | .unicast => some .unicast
  | .broadcast => some .broadcast
  | _ => none

/-- The kinds a builder has been given. -/
def CastState.kinds : CastState → List RouteKind
  | .noCast => []
  | .castSet kind => [kind]
  | .anycastSet => [.anycast]

/-- How often a builder has been made one for remote calls. -/
def RpcState.count : RpcState → Nat
  | .noRpc => 0
  | .rpcSet => 1

/-- What a chain of calls asks for. -/
structure Asked where
  endpointId : Option EndpointId
  realm : Option Realm
  kinds : List RouteKind
  cost : Option Cost
  rpc : Nat
  deriving DecidableEq

/-- Of endpoints, realms and costs the last one counts. -/
def Asked.of (calls : List BuilderCall) : Asked where
  endpointId := (calls.filterMap BuilderCall.endpoint?).getLast?
  realm := (calls.filterMap BuilderCall.realm?).getLast?
  kinds := calls.filterMap BuilderCall.kind?
  cost := (calls.filterMap BuilderCall.cost?).getLast?
  rpc := calls.count .rpc

namespace Asked

/-- One more call. -/
def next (asked : Asked) (c : BuilderCall) : Asked where
  endpointId := c.endpoint?.or asked.endpointId
  realm := c.realm?.or asked.realm
  kinds := asked.kinds ++ c.kind?.toList
  cost := c.cost?.or asked.cost
  rpc := asked.rpc + if c = .rpc then 1 else 0

/-- At most one kind is asked for, and for remote calls at most once, then of anycast only. -/
def Fits (asked : Asked) : Prop :=
  asked.kinds.length ≤ 1 ∧ asked.rpc ≤ 1 ∧ (0 < asked.rpc → ∀ kind ∈ asked.kinds, kind = .anycast)

/-- A kind or a service for remote calls is asked for, or both. -/
def Complete (asked : Asked) : Prop := asked.Fits ∧ (asked.kinds = [] → asked.rpc = 1)

/-- The request that answers to it. A unicast service is global, whatever realm was set. -/
def request (asked : Asked) (uuid : EndpointId) (sender : Sender) : RegistrationRequest where
  endpointId := asked.endpointId.getD uuid
  endpointInfo :=
    { kind := asked.kinds.head?.getD .unicast
      realm := if asked.kinds = [] then .global else asked.realm.getD .global
      cost := if asked.kinds = [.anycast] then asked.cost.getD 0 else 0 }
  sender := sender

theorem of_concat (calls : List BuilderCall) (c : BuilderCall) :
    Asked.of (calls ++ [c]) = (Asked.of calls).next c := by
  cases c <;>
    simp [Asked.of, next, BuilderCall.endpoint?, BuilderCall.realm?, BuilderCall.kind?, BuilderCall.cost?]

/-- What fits with one more call fits without it. -/
theorem Fits.of_next {asked : Asked} {c : BuilderCall} (h : (asked.next c).Fits) : asked.Fits := by
  obtain ⟨hkinds, hrpc, hany⟩ := h
  simp only [next, List.length_append] at hkinds hrpc hany
  refine ⟨by omega, by omega, fun hpos kind hmem => ?_⟩
  exact hany (by omega) kind (List.mem_append_left _ hmem)

end Asked

namespace RegistrationBuilder

/-- A builder holds what the calls of its chain have asked for. -/
structure Holds (b : RegistrationBuilder) (asked : Asked) : Prop where
  endpointId : b.endpointId = asked.endpointId.elim .noEndpointId .endpointSet
  realm : b.realm = asked.realm.getD .global
  kinds : b.cast.kinds = asked.kinds
  cost : b.cost = asked.cost.getD 0
  rpc : b.rpcFlag.count = asked.rpc
  /-- Only unicast and broadcast are set by name. -/
  named : ∀ kind, b.cast = .castSet kind → kind = .unicast ∨ kind = .broadcast

section Chain

variable {b b' : RegistrationBuilder} {asked : Asked} {calls : List BuilderCall} {c : BuilderCall}
  {uuid : EndpointId} {sender : Sender}

theorem holds_listener : listener.Holds (Asked.of []) := by
  refine ⟨rfl, rfl, rfl, rfl, rfl, fun kind h => ?_⟩
  cases h

/-- A call that sets a kind is there only as long as there is none. -/
theorem call_kind_cases (h : b.call c = some b') {kind : RouteKind} (hk : c.kind? = some kind) :
    b.cast = .noCast ∧ b'.cast.kinds = [kind] ∧ b' = { b with cast := b'.cast } ∧
      ∀ k, b'.cast = .castSet k → k = .unicast ∨ k = .broadcast := by
  cases c with
  | realm | cost | endpoint | rpc => cases hk
  | anycast =>
    obtain rfl := Option.some.inj hk
    simp only [call] at h
    split at h
    · next hcast =>
      obtain rfl := Option.some.inj h
      refine ⟨hcast, rfl, rfl, fun k hk' => ?_⟩
      cases hk'
    · cases h
  | unicast =>
    obtain rfl := Option.some.inj hk
    simp only [call] at h
    split at h
    · next hcast =>
      obtain rfl := Option.some.inj h
      refine ⟨hcast, rfl, rfl, fun k hk' => ?_⟩
      exact .inl (CastState.castSet.inj hk').symm
    · cases h
  | broadcast =>
    obtain rfl := Option.some.inj hk
    simp only [call] at h
    split at h
    · next hcast _ =>
      obtain rfl := Option.some.inj h
      refine ⟨hcast, rfl, rfl, fun k hk' => ?_⟩
      exact .inr (CastState.castSet.inj hk').symm
    · cases h

/-- A call for remote calls is there once. -/
theorem call_rpc_cases (h : b.call .rpc = some b') :
    b.rpcFlag = .noRpc ∧ b' = { b with rpcFlag := .rpcSet } := by
  simp only [call] at h
  split at h
  · next hrpc => exact ⟨hrpc, (Option.some.inj h).symm⟩
  · next hrpc => exact ⟨hrpc, (Option.some.inj h).symm⟩
  · cases h

/-- One more call. -/
theorem Holds.call (h : b.Holds asked) (hcall : b.call c = some b') : b'.Holds (asked.next c) := by
  have hsame : asked.kinds ++ [] = asked.kinds := List.append_nil _
  cases hc : c with
  | realm r =>
    subst hc
    obtain rfl := Option.some.inj hcall
    exact ⟨h.endpointId, rfl, h.kinds.trans hsame.symm, h.cost, h.rpc, h.named⟩
  | cost r =>
    subst hc
    obtain rfl := Option.some.inj hcall
    exact ⟨h.endpointId, h.realm, h.kinds.trans hsame.symm, rfl, h.rpc, h.named⟩
  | endpoint e =>
    subst hc
    obtain rfl := Option.some.inj hcall
    exact ⟨rfl, h.realm, h.kinds.trans hsame.symm, h.cost, h.rpc, h.named⟩
  | rpc =>
    subst hc
    obtain ⟨hno, rfl⟩ := call_rpc_cases hcall
    have hzero : asked.rpc = 0 := by rw [← h.rpc, hno, RpcState.count]
    refine ⟨h.endpointId, h.realm, h.kinds.trans hsame.symm, h.cost, ?_, h.named⟩
    simp only [Asked.next, hzero]
    rfl
  | anycast | unicast | broadcast =>
    obtain ⟨hno, hkinds, hb', hnamed⟩ := call_kind_cases hcall (by rw [hc]; rfl)
    have hnil : asked.kinds = [] := by rw [← h.kinds, hno, CastState.kinds]
    rw [hb']
    refine ⟨h.endpointId, h.realm, ?_, h.cost, h.rpc, hnamed⟩
    simp only [hkinds, Asked.next, hnil]
    rfl

theorem chain_concat (calls : List BuilderCall) (c : BuilderCall) :
    chain (calls ++ [c]) = (chain calls).bind (call · c) := by
  rw [chain, List.foldlM_append]
  cases h : calls.foldlM call listener with
  | none => simp [chain, h]
  | some b => simp [chain, h]

/-- A chain that compiles holds what it asks for. -/
theorem holds_of_chain (h : chain calls = some b) : b.Holds (Asked.of calls) := by
  induction calls using List.reverseRecOn generalizing b with
  | nil =>
    obtain rfl := Option.some.inj h
    exact holds_listener
  | append_singleton calls c ih =>
    rw [chain_concat] at h
    obtain ⟨b₀, hchain, hcall⟩ := Option.bind_eq_some_iff.mp h
    rw [Asked.of_concat]
    exact (ih hchain).call hcall

/-- A call that fits is there. -/
theorem Holds.exists_call (h : b.Holds asked) (hfits : (asked.next c).Fits) :
    ∃ b', b.call c = some b' := by
  obtain ⟨hkinds, hrpc, hany⟩ := hfits
  have hcast : c.kind?.isSome = true → b.cast = .noCast := by
    intro hsome
    obtain ⟨kind, hk⟩ := Option.isSome_iff_exists.mp hsome
    rw [Asked.next, hk, ← h.kinds] at hkinds
    cases hb : b.cast with
    | noCast => rfl
    | castSet | anycastSet => simp [hb, CastState.kinds] at hkinds
  cases c with
  | realm | cost | endpoint => exact ⟨_, rfl⟩
  | anycast | unicast => exact ⟨_, by simp only [RegistrationBuilder.call, hcast rfl]; rfl⟩
  | broadcast =>
    have hno : b.rpcFlag = .noRpc := by
      cases hb : b.rpcFlag with
      | noRpc => rfl
      | rpcSet =>
        have hpos : 0 < asked.rpc := by rw [← h.rpc, hb]; exact Nat.one_pos
        have hkind := hany (Nat.add_pos_left hpos _) .broadcast
          (List.mem_append_right _ (by simp [BuilderCall.kind?]))
        cases hkind
    exact ⟨_, by simp only [RegistrationBuilder.call, hcast rfl, hno]; rfl⟩
  | rpc =>
    have hno : b.rpcFlag = .noRpc := by
      cases hb : b.rpcFlag with
      | noRpc => rfl
      | rpcSet =>
        have hone : asked.rpc = 1 := by rw [← h.rpc, hb, RpcState.count]
        simp only [Asked.next, hone, if_true] at hrpc
        omega
    cases hb : b.cast with
    | noCast | anycastSet => exact ⟨_, by simp only [RegistrationBuilder.call, hb, hno]; rfl⟩
    | castSet kind =>
      -- A kind set by name is not anycast.
      have hkind := hany (Nat.succ_pos _) kind (by simp [Asked.next, ← h.kinds, hb, CastState.kinds])
      rcases h.named kind hb with rfl | rfl
      · cases hkind
      · cases hkind

/-- What fits compiles. -/
theorem exists_chain (h : (Asked.of calls).Fits) : ∃ b, chain calls = some b := by
  induction calls using List.reverseRecOn with
  | nil => exact ⟨listener, rfl⟩
  | append_singleton calls c ih =>
    rw [Asked.of_concat] at h
    obtain ⟨b, hb⟩ := ih h.of_next
    obtain ⟨b', hb'⟩ := (holds_of_chain hb).exists_call h
    exact ⟨b', by rw [chain_concat, hb]; exact hb'⟩

/-- A builder registers what it holds, if that is complete. -/
theorem Holds.register (h : b.Holds asked) (uuid : EndpointId) (sender : Sender) :
    (asked.Complete ∧ b.register uuid sender = .request (asked.request uuid sender)) ∨
      (¬ asked.Complete ∧ b.register uuid sender = .noMethod) := by
  obtain ⟨endpointId, realm, cast, rpcFlag, cost⟩ := b
  obtain ⟨hep, hrealm, hkinds, hcost, hrpc, hnamed⟩ := h
  simp only at hep hrealm hkinds hcost hrpc hnamed
  cases cast with
  | noCast =>
    cases rpcFlag with
    | noRpc =>
      refine .inr ⟨fun hcomplete => ?_, ?_⟩
      · have hone := hcomplete.2 hkinds.symm
        rw [← hrpc] at hone
        cases hone
      · cases endpointId <;> rfl
    | rpcSet =>
      refine .inl ⟨⟨⟨?_, ?_, ?_⟩, fun _ => hrpc.symm⟩, ?_⟩
      · simp [← hkinds, CastState.kinds]
      · rw [← hrpc, RpcState.count]
      · simp [← hkinds, CastState.kinds]
      · cases he : asked.endpointId <;>
          simp [hep, he, RegistrationBuilder.register, Asked.request, ← hkinds, CastState.kinds,
            Handle.registerRpcUuid, Handle.registerRpcChannel]
  | castSet kind =>
    cases rpcFlag with
    | noRpc =>
      refine .inl ⟨⟨⟨?_, ?_, fun hpos => ?_⟩, fun hnil => ?_⟩, ?_⟩
      · simp [← hkinds, CastState.kinds]
      · rw [← hrpc, RpcState.count]
        omega
      · rw [← hrpc] at hpos
        cases hpos
      · rw [← hkinds] at hnil
        cases hnil
      · rcases hnamed kind rfl with rfl | rfl <;> cases he : asked.endpointId <;>
          simp [hep, he, hrealm, RegistrationBuilder.register, registerCast, Asked.request, ← hkinds,
            CastState.kinds, Handle.registerUnicastInner, Handle.registerBroadcastInner,
            Handle.registerRpcChannel]
    | rpcSet =>
      refine .inr ⟨fun hcomplete => ?_, ?_⟩
      · have hany := hcomplete.1.2.2 (by rw [← hrpc]; exact Nat.one_pos) kind
          (by simp [← hkinds, CastState.kinds])
        rcases hnamed kind rfl with rfl | rfl
        · cases hany
        · cases hany
      · cases endpointId <;> rfl
  | anycastSet =>
    refine .inl ⟨⟨⟨?_, ?_, fun _ kind hmem => ?_⟩, fun hnil => ?_⟩, ?_⟩
    · simp [← hkinds, CastState.kinds]
    · rw [← hrpc]
      cases rpcFlag <;> simp [RpcState.count]
    · rw [← hkinds] at hmem
      exact List.mem_singleton.mp hmem
    · rw [← hkinds] at hnil
      cases hnil
    · cases rpcFlag <;> cases he : asked.endpointId <;>
        simp [hep, he, hrealm, hcost, RegistrationBuilder.register, Asked.request, ← hkinds,
          CastState.kinds, Handle.registerAnycastInner, Handle.registerAnycastRpcInner,
          Handle.registerRpcChannel]

/-- So it makes the request that it holds. -/
theorem Holds.request_of_register (h : b.Holds asked) {request : RegistrationRequest}
    (hr : b.register uuid sender = .request request) : request = asked.request uuid sender := by
  rcases h.register uuid sender with ⟨-, heq⟩ | ⟨-, heq⟩
  · rw [heq] at hr
    exact (Registering.request.inj hr).symm
  · rw [heq] at hr
    cases hr

/-- None is for a multicast endpoint. -/
theorem Holds.kind_ne (h : b.Holds asked) (uuid : EndpointId) (sender : Sender) :
    (asked.request uuid sender).endpointInfo.kind ≠ .multicast := by
  simp only [Asked.request, ← h.kinds]
  cases hcast : b.cast with
  | noCast | anycastSet => simp [CastState.kinds]
  | castSet kind =>
    rcases h.named kind hcast with rfl | rfl
    · simp [CastState.kinds]
    · simp [CastState.kinds]

/-- A chain of calls that ends in `register` compiles exactly if it asks for a kind or a
service for remote calls, for neither twice, and for both only with anycast. Then it makes the
request that it asks for; it never panics. -/
theorem registers_as_asked (calls : List BuilderCall) (uuid : EndpointId) (sender : Sender) :
    (∀ b, chain calls = some b → b.register uuid sender ≠ .panic) ∧
      ((∃ b, chain calls = some b ∧ b.register uuid sender ≠ .noMethod) ↔ (Asked.of calls).Complete) ∧
      ∀ b request, chain calls = some b → b.register uuid sender = .request request →
        request = (Asked.of calls).request uuid sender := by
  refine ⟨fun b hb hpanic => ?_, ⟨?_, fun hcomplete => ?_⟩, fun b request hb hrequest => ?_⟩
  · rcases (holds_of_chain hb).register uuid sender with ⟨-, heq⟩ | ⟨-, heq⟩
    · rw [heq] at hpanic
      cases hpanic
    · rw [heq] at hpanic
      cases hpanic
  · rintro ⟨b, hb, hsome⟩
    rcases (holds_of_chain hb).register uuid sender with ⟨hcomplete, -⟩ | ⟨-, heq⟩
    · exact hcomplete
    · exact absurd heq hsome
  · obtain ⟨b, hb⟩ := exists_chain hcomplete.1
    refine ⟨b, hb, ?_⟩
    rcases (holds_of_chain hb).register uuid sender with ⟨-, heq⟩ | ⟨hnot, -⟩
    · rw [heq]
      simp
    · exact absurd hcomplete hnot
  · exact (holds_of_chain hb).request_of_register hrequest

end Chain

end RegistrationBuilder

end Anybus
