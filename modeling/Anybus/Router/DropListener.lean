import Anybus.Db.Listeners
import Anybus.Router.Bus

/-!
# Dropping a listener

A listener that is dropped first tells the router and then closes its channel. The
router drops only routes whose channel is closed when it handles the message, and looks
at a route again only with the next message for the same endpoint. A route goes away
exactly if such a message is handled after the channel was closed.
-/

namespace Anybus

/-- Whether an endpoint serves a channel after a turn. -/
def Router.ServesAfter (router : Router) (w : Wires) (st' : Option RouterState) (e : EndpointId)
    (s : Sender) : RouterState → Prop
  | .handleBrokerMsg (.deadLink e') =>
    router.lsdb.routes.Serves e s ∧ ¬ (e = e' ∧ (w.client s).closed = true)
  | .registerEndpoint request =>
    router.lsdb.routes.Serves e s ∨
      (st' = some (.routeChange (some request)) ∧ request.endpointInfo.kind ≠ .node ∧
        request.endpointId = e ∧ request.sender = s)
  | .shutdown => False
  | _ => router.lsdb.routes.Serves e s

theorem Router.next_serves {router router' : Router} {w w' : Wires} {now : Instant} {wake : Wake}
    {st : RouterState} {st' : Option RouterState}
    (h : router.next w now wake st = some (st', router', w')) (e : EndpointId) (s : Sender) :
    router'.lsdb.routes.Serves e s ↔ router.ServesAfter w st' e s st := by
  obtain ⟨v, hop, _⟩ := Router.next_op h
  cases st with
  | start | listen =>
    rw [hop.1]
    rfl
  | handleBrokerMsg msg =>
    cases msg with
    | registerEndpoint | shutdown =>
      rw [hop.1]
      rfl
    | deadLink e' =>
      have hlsdb : router'.lsdb = (router.lsdb.removeEndpoint w e' now).1 :=
        (congrArg Prod.fst (Option.some.inj hop)).symm
      rw [hlsdb, LsDb.removeEndpoint_serves]
      rfl
    | registerPeer | unRegisterPeer | lsaInbound | lsaAckInbound | setAnycastCost =>
      exact LsDb.step_serves hop (by simp) (by simp) (by simp)
  | registerEndpoint request =>
    have hlsdb : router'.lsdb = (router.lsdb.addEndpoint w request now).1 :=
      (congrArg Prod.fst (Option.some.inj hop)).symm
    have hst : st' = some (.routeChange (some request)) ↔
        (router.lsdb.addEndpoint w request now).2.2 = true := by
      simp only [Router.next] at h
      split at h
      · next hok =>
        simp only [Option.some.injEq, Prod.mk.injEq] at h
        rw [← h.1, hok]
        simp
      · next hno =>
        simp only [Option.some.injEq, Prod.mk.injEq] at h
        rw [← h.1]
        simp [hno]
    rw [hlsdb, LsDb.addEndpoint_serves, ← hst]
    rfl
  | routeChange | tick =>
    exact LsDb.step_serves hop (by simp) (by simp) (by simp)
  | shutdown =>
    simp only [Router.next, Option.some.injEq, Prod.mk.injEq] at h
    obtain ⟨_, rfl, _⟩ := h
    constructor
    · intro hserves
      cases hserves
    · exact False.elim

/-- Only the registration of a channel makes an endpoint serve it. -/
theorem Router.ServesAfter.cases {router : Router} {w : Wires} {st : RouterState}
    {st' : Option RouterState} {e : EndpointId} {s : Sender} (h : router.ServesAfter w st' e s st) :
    router.lsdb.routes.Serves e s ∨ ∃ request, st = .registerEndpoint request ∧
      st' = some (.routeChange (some request)) ∧ request.endpointId = e ∧ request.sender = s := by
  cases st with
  | registerEndpoint request =>
    rcases h with hold | ⟨hst, _, he, hs⟩
    · exact Or.inl hold
    · exact Or.inr ⟨request, rfl, hst, he, hs⟩
  | handleBrokerMsg msg =>
    left
    cases msg with
    | deadLink e' => exact h.1
    | registerEndpoint | registerPeer | unRegisterPeer | lsaInbound | lsaAckInbound | setAnycastCost
    | shutdown => exact h
  | start | listen | routeChange | tick => exact Or.inl h
  | shutdown => exact h.elim

/-- A channel stays served unless the router is told of its end when it is closed. -/
theorem Router.ServesAfter.of_serves {router : Router} {w : Wires} {st : RouterState}
    {st' : Option RouterState} {e : EndpointId} {s : Sender} (h : router.lsdb.routes.Serves e s)
    (hshut : st ≠ .shutdown)
    (htold : st = .handleBrokerMsg (.deadLink e) → (w.client s).closed = false) :
    router.ServesAfter w st' e s st := by
  cases st with
  | registerEndpoint request => exact Or.inl h
  | handleBrokerMsg msg =>
    cases msg with
    | deadLink e' =>
      refine ⟨h, fun hclosed => ?_⟩
      have hopen := htold (by rw [hclosed.1])
      rw [hopen] at hclosed
      cases hclosed.2
    | registerEndpoint | registerPeer | unRegisterPeer | lsaInbound | lsaAckInbound | setAnycastCost
    | shutdown => exact h
  | start | listen | routeChange | tick => exact h
  | shutdown => exact absurd rfl hshut

/-- The message asks for a registration of a kind. -/
def RouterMsg.asks (q : RegistrationRequest → Bool) : RouterMsg → Bool
  | .registerEndpoint request => q request
  | _ => false

/-- The note is the confirmation of a registration of a kind. -/
def BusNote.confirms (q : RegistrationRequest → Bool) : BusNote → Bool
  | .confirmed request => q request
  | _ => false

/-- The registration a state is about to perform. -/
def RouterState.requested : RouterState → List RegistrationRequest
  | .registerEndpoint request => [request]
  | _ => []

/-- The registration a state is about to confirm. -/
def RouterState.accepted : RouterState → List RegistrationRequest
  | .routeChange (some request) => [request]
  | _ => []

/-- A registration goes through the states of the loop one after the other. -/
theorem Router.next_requests {router router' : Router} {w w' : Wires} {now : Instant} {wake : Wake}
    {st : RouterState} {st' : Option RouterState}
    (h : router.next w now wake st = some (st', router', w')) (q : RegistrationRequest → Bool) :
    (st'.elim [] RouterState.requested).countP q + (st'.elim [] RouterState.accepted).countP q +
        st.notes.countP (BusNote.confirms q) ≤
      st.inHand.countP (RouterMsg.asks q) + st.requested.countP q + st.accepted.countP q := by
  cases st with
  | start | shutdown =>
    simp only [Router.next, Option.some.injEq, Prod.mk.injEq] at h
    rw [← h.1]
    exact Nat.le_refl 0
  | listen =>
    cases wake with
    | message | channelClosed | timer =>
      simp only [Router.next, Option.some.injEq, Prod.mk.injEq] at h
      rw [← h.1]
      exact Nat.le_refl 0
  | handleBrokerMsg msg =>
    simp only [Router.next, Option.map_eq_some_iff, Prod.mk.injEq] at h
    obtain ⟨⟨st₁, _, _⟩, hm, rfl, _⟩ := h
    rcases Router.handleBrokerMsg_state hm with rfl | ⟨request, rfl, rfl, _⟩ | rfl | rfl
    · exact Nat.zero_le _
    · exact Nat.le_refl _
    · exact Nat.zero_le _
    · exact Nat.zero_le _
  | registerEndpoint request =>
    simp only [Router.next] at h
    split at h
    · simp only [Option.some.injEq, Prod.mk.injEq] at h
      rw [← h.1]
      exact Nat.le_refl (0 + [request].countP q)
    · simp only [Option.some.injEq, Prod.mk.injEq] at h
      rw [← h.1]
      exact Nat.zero_le _
  | routeChange notify =>
    simp only [Router.next, Option.map_eq_some_iff, Prod.mk.injEq] at h
    obtain ⟨_, _, hst, _⟩ := h
    rw [← hst]
    cases notify with
    | none => exact Nat.le_refl 0
    | some request => exact Nat.le_refl _
  | tick =>
    simp only [Router.next, Option.map_eq_some_iff, Prod.mk.injEq] at h
    obtain ⟨⟨_, _, rebuild⟩, _, hst, _⟩ := h
    rw [← hst]
    cases rebuild with
    | false => exact Nat.le_refl 0
    | true => exact Nat.le_refl 0

theorem RouterState.of_mem_accepted {st : Option RouterState} {request : RegistrationRequest}
    (h : request ∈ st.elim [] RouterState.accepted) : st = some (.routeChange (some request)) := by
  cases st with
  | none => cases h
  | some st =>
    cases st with
    | routeChange notify =>
      cases notify with
      | none => cases h
      | some request' => rw [List.mem_singleton.mp h]
    | start | listen | handleBrokerMsg | registerEndpoint | tick | shutdown => cases h

/-- A turn tells of what was handled or confirmed. -/
theorem RouterState.mem_notes {st : RouterState} {n : BusNote} (h : n ∈ st.notes) :
    (∃ msg, n = .handled msg) ∨ ∃ request, n = .confirmed request := by
  cases st with
  | handleBrokerMsg msg => exact Or.inl ⟨msg, List.mem_singleton.mp h⟩
  | routeChange notify =>
    cases notify with
    | none => cases h
    | some request => exact Or.inr ⟨request, List.mem_singleton.mp h⟩
  | start | listen | registerEndpoint | tick | shutdown => cases h

/-- Only an accepted registration is about to be confirmed. -/
theorem Router.next_accepted {router router' : Router} {w w' : Wires} {now : Instant} {wake : Wake}
    {st : RouterState} {request : RegistrationRequest}
    (h : router.next w now wake st = some (some (.routeChange (some request)), router', w')) :
    st = .registerEndpoint request := by
  cases st with
  | start | shutdown => simp [Router.next] at h
  | listen => cases wake <;> simp [Router.next] at h
  | handleBrokerMsg msg =>
    simp only [Router.next, Option.map_eq_some_iff, Prod.mk.injEq, Option.some.injEq] at h
    obtain ⟨⟨_, _, _⟩, hm, rfl, _⟩ := h
    rcases Router.handleBrokerMsg_state hm with hst | ⟨_, _, hst, _⟩ | hst | hst <;> cases hst
  | registerEndpoint request' =>
    simp only [Router.next] at h
    split at h
    · simp only [Option.some.injEq, Prod.mk.injEq, RouterState.routeChange.injEq] at h
      rw [h.1]
    · simp at h
  | routeChange notify =>
    simp only [Router.next, Option.map_eq_some_iff, Prod.mk.injEq, Option.some.injEq] at h
    obtain ⟨_, _, hst, _⟩ := h
    cases hst
  | tick =>
    simp only [Router.next, Option.map_eq_some_iff, Prod.mk.injEq, Option.some.injEq] at h
    obtain ⟨⟨_, _, rebuild⟩, _, hst, _⟩ := h
    cases rebuild <;> cases hst

namespace Bus

/-- The registrations of a kind that the router has accepted. -/
def accepted (bus : Bus) (q : RegistrationRequest → Bool) : Nat :=
  (bus.state.elim [] RouterState.accepted).countP q + bus.log.countP (BusNote.confirms q)

/-- The registrations of a kind that the router has not decided on. -/
def requested (bus : Bus) (q : RegistrationRequest → Bool) : Nat :=
  bus.pending (RouterMsg.asks q) + (bus.state.elim [] RouterState.requested).countP q

/-- A registration that is on its way or accepted was called. -/
theorem Stepped.requested_le {bus bus' : Bus} {event : BusEvent} (h : Stepped bus event bus')
    (q : RegistrationRequest → Bool)
    (hle : bus.requested q + bus.accepted q ≤
      bus.log.countP (BusNote.calls (RouterMsg.asks q))) :
    bus'.requested q + bus'.accepted q ≤ bus'.log.countP (BusNote.calls (RouterMsg.asks q)) := by
  unfold requested accepted pending at hle ⊢
  cases h with
  | call msg =>
    have hcalls : [BusNote.called msg].countP (BusNote.calls (RouterMsg.asks q)) =
        [msg].countP (RouterMsg.asks q) := rfl
    have hconfirms : [BusNote.called msg].countP (BusNote.confirms q) = 0 := rfl
    simp only [line, List.countP_append] at hle ⊢
    omega
  | @send task msg hmsg =>
    have htasks := countP_eraseIdx (RouterMsg.asks q) hmsg
    simp only [line] at hle ⊢
    split
    · omega
    · simp only [List.countP_append] at hle htasks ⊢
      omega
  | close sender =>
    have hcalls : [BusNote.closed sender].countP (BusNote.calls (RouterMsg.asks q)) = 0 := rfl
    have hconfirms : [BusNote.closed sender].countP (BusNote.confirms q) = 0 := rfl
    simp only [line, List.countP_append] at hle ⊢
    omega
  | @turn _ _ _ _ st queue st' router' w' hst hq hn =>
    have hmoves := Router.next_requests hn q
    have hcalled := (st.countP_notes (RouterMsg.asks q)).2
    rw [line_turn hst hq hn, hst] at hle
    simp only [line, List.countP_append, Option.elim] at hle hmoves ⊢
    omega

theorem Reaches.requested_le {allowed : Bus → BusEvent → Prop} {nodeId : NodeId} {bus : Bus}
    (h : Reaches allowed nodeId bus) (q : RegistrationRequest → Bool) :
    bus.requested q + bus.accepted q ≤ bus.log.countP (BusNote.calls (RouterMsg.asks q)) := by
  induction h with
  | new now => exact Nat.le_refl 0
  | rehash _ _ ih => exact ih
  | step event _ _ hstep ih => exact (stepped hstep).requested_le q ih

/-- The request comes with the channel of a listener. -/
def ofSender (s : Sender) (request : RegistrationRequest) : Bool := decide (request.sender = s)

/-- How a listener uses the bus: it registers its channel once, under one endpoint and as
one of the kinds that clients can ask for. Once the registration is confirmed it may be
dropped, and closes its channel after the router was told. -/
def Listens (s : Sender) (e : EndpointId) (bus : Bus) : BusEvent → Prop
  | .call (.registerEndpoint request) => request.sender = s →
      request.endpointId = e ∧ request.endpointInfo.kind ≠ .node ∧
        bus.log.countP (BusNote.calls (RouterMsg.asks (ofSender s))) = 0
  | .close s' => s' = s →
      0 < bus.log.countP (BusNote.confirms (ofSender s)) ∧ .called (.deadLink e) ∈ bus.log
  | _ => True

/-- The router was told of a listener's end after the channel was closed. -/
def ToldAfterClose (bus : Bus) (s : Sender) (e : EndpointId) : Prop :=
  Precedes (fun n => n = .closed s) (fun n => n = .handled (.deadLink e)) bus.log

/-- What holds in every state: a listener is served exactly from the acceptance of its
registration until the router is told of its end after the channel was closed. -/
structure ListenerInv (s : Sender) (e : EndpointId) (bus : Bus) : Prop where
  called : ∀ request, .called (.registerEndpoint request) ∈ bus.log → request.sender = s →
    request.endpointId = e ∧ request.endpointInfo.kind ≠ .node
  once : bus.log.countP (BusNote.calls (RouterMsg.asks (ofSender s))) ≤ 1
  confirmed : .closed s ∈ bus.log → 0 < bus.log.countP (BusNote.confirms (ofSender s))
  served : ∀ e', bus.router.lsdb.routes.Serves e' s → e' = e ∧ 0 < bus.accepted (ofSender s)
  kept : bus.state ≠ none → 0 < bus.accepted (ofSender s) →
    bus.router.lsdb.routes.Serves e s ∨ bus.ToldAfterClose s e
  told : bus.ToldAfterClose s e → ∀ e', ¬ bus.router.lsdb.routes.Serves e' s

section Listener

variable {bus bus' : Bus} {s : Sender} {e : EndpointId}

/-- A turn moves an accepted registration on and forgets none. -/
theorem accepted_turn {st : RouterState} (st' : Option RouterState) (queue : List RouterMsg)
    (router' : Router) (hst : bus.state = some st) (q : RegistrationRequest → Bool) :
    ({ bus with log := bus.log ++ st.notes, queue := queue, state := st', router := router' } :
      Bus).accepted q = (st'.elim [] RouterState.accepted).countP q + bus.accepted q := by
  have hmoved : st.notes.countP (BusNote.confirms q) = st.accepted.countP q := by
    cases st with
    | routeChange notify => cases notify <;> rfl
    | start | listen | handleBrokerMsg | registerEndpoint | tick | shutdown => rfl
  unfold accepted
  rw [hst, List.countP_append, hmoved]
  simp only [Option.elim]
  omega

/-- A registration that is about to be performed was called. -/
theorem called_of_requested {request : RegistrationRequest}
    (hle : bus.requested (fun r => decide (r = request)) + bus.accepted (fun r => decide (r = request)) ≤
      bus.log.countP (BusNote.calls (RouterMsg.asks fun r => decide (r = request))))
    (hst : bus.state = some (.registerEndpoint request)) :
    .called (.registerEndpoint request) ∈ bus.log := by
  have hpos : 0 < bus.requested fun r => decide (r = request) := by
    unfold requested
    rw [hst]
    simp [RouterState.requested]
  have hcalled : 0 < bus.log.countP
      (BusNote.calls (RouterMsg.asks fun r => decide (r = request))) := by omega
  obtain ⟨n, hn, hcalls⟩ := List.countP_pos_iff.mp hcalled
  cases n with
  | called msg =>
    cases msg with
    | registerEndpoint r =>
      obtain rfl := of_decide_eq_true hcalls
      exact hn
    | deadLink | registerPeer | unRegisterPeer | lsaInbound | lsaAckInbound | setAnycastCost
    | shutdown => cases hcalls
  | handled | confirmed | closed => cases hcalls

/-- While a registration is about to be performed, none of its listener was accepted. -/
theorem ListenerInv.not_accepted (h : bus.ListenerInv s e)
    (hle : bus.requested (ofSender s) + bus.accepted (ofSender s) ≤
      bus.log.countP (BusNote.calls (RouterMsg.asks (ofSender s))))
    {request : RegistrationRequest} (hst : bus.state = some (.registerEndpoint request))
    (hs : request.sender = s) : bus.accepted (ofSender s) = 0 := by
  have honce := h.once
  have hpos : 0 < bus.requested (ofSender s) := by
    unfold requested
    rw [hst]
    simp [RouterState.requested, ofSender, hs]
  omega

/-- A note from outside the router keeps the invariant, if it registers the listener at
most once and closes its channel only after the confirmation. -/
theorem ListenerInv.note (h : bus.ListenerInv s e) {n : BusNote} (tasks : List RouterMsg)
    (hhandled : n ≠ .handled (.deadLink e)) (hconfirms : n.confirms (ofSender s) = false)
    (hcalled : ∀ request, n = .called (.registerEndpoint request) → request.sender = s →
      request.endpointId = e ∧ request.endpointInfo.kind ≠ .node)
    (honce : n.calls (RouterMsg.asks (ofSender s)) = true →
      bus.log.countP (BusNote.calls (RouterMsg.asks (ofSender s))) = 0)
    (hclosed : n = .closed s → 0 < bus.log.countP (BusNote.confirms (ofSender s))) :
    ({ bus with log := bus.log ++ [n], tasks := tasks } : Bus).ListenerInv s e := by
  have hcount : (bus.log ++ [n]).countP (BusNote.confirms (ofSender s)) =
      bus.log.countP (BusNote.confirms (ofSender s)) := by
    rw [List.countP_append, List.countP_singleton, hconfirms]
    simp
  have haccepted : ({ bus with log := bus.log ++ [n], tasks := tasks } : Bus).accepted (ofSender s) =
      bus.accepted (ofSender s) := by
    unfold accepted
    rw [hcount]
  refine ⟨fun request hmem hs => ?_, ?_, fun hmem => ?_, fun e' hserve => ?_, fun hrun hpos => ?_,
    fun htold => h.told ?_⟩
  · rcases List.mem_append.mp hmem with hmem | hmem
    · exact h.called request hmem hs
    · exact hcalled request (List.mem_singleton.mp hmem).symm hs
  · rw [List.countP_append, List.countP_singleton]
    split
    · next hcalls =>
      have hzero := honce hcalls
      omega
    · exact h.once
  · rw [hcount]
    rcases List.mem_append.mp hmem with hmem | hmem
    · exact h.confirmed hmem
    · exact hclosed (List.mem_singleton.mp hmem).symm
  · rw [haccepted]
    exact h.served e' hserve
  · rw [haccepted] at hpos
    exact (h.kept hrun hpos).imp id fun htold => Precedes.append htold _
  · exact ((precedes_concat _ _ _ _).mp htold).resolve_right fun hr => hhandled hr.2

/-- The part of the invariant that depends on what the router did. -/
theorem ListenerInv.turn {st : RouterState} {st' : Option RouterState} {queue : List RouterMsg}
    {router' : Router} {w' : Wires} {node : Tx → Chan NodeMessage}
    {client : Sender → Chan ClientMessage} {now : Instant} {wake : Wake} (h : bus.ListenerInv s e)
    (hle : ∀ q, bus.requested q + bus.accepted q ≤ bus.log.countP (BusNote.calls (RouterMsg.asks q)))
    (hst : bus.state = some st)
    (hn : bus.router.next (bus.wires node client) now wake st = some (st', router', w')) :
    ({ bus with log := bus.log ++ st.notes, queue := queue, state := st', router := router' } :
      Bus).ListenerInv s e := by
  have hserves := fun e' => Router.next_serves hn e' s
  have haccepted := accepted_turn st' queue router' hst (ofSender s)
  -- What a registration of the listener that is performed now says.
  have hnew : ∀ request, st = .registerEndpoint request → request.sender = s →
      (request.endpointId = e ∧ request.endpointInfo.kind ≠ .node) ∧ bus.accepted (ofSender s) = 0 := by
    rintro request rfl hs
    exact ⟨h.called request (called_of_requested (hle _) hst) hs, h.not_accepted (hle _) hst hs⟩
  have hclosed : ((bus.wires node client).client s).closed = true ↔ .closed s ∈ bus.log :=
    decide_eq_true_iff
  refine ⟨fun request hmem hs => ?_, ?_, fun hmem => ?_, fun e' hserve => ?_, fun hrun hpos => ?_,
    fun htold e' hserve => ?_⟩
  · rcases List.mem_append.mp hmem with hmem | hmem
    · exact h.called request hmem hs
    · rcases RouterState.mem_notes hmem with ⟨_, hn⟩ | ⟨_, hn⟩ <;> cases hn
  · rw [List.countP_append, (st.countP_notes _).2]
    exact h.once
  · rcases List.mem_append.mp hmem with hmem | hmem
    · have hpos := h.confirmed hmem
      rw [List.countP_append]
      omega
    · rcases RouterState.mem_notes hmem with ⟨_, hn⟩ | ⟨_, hn⟩ <;> cases hn
  · rw [haccepted]
    rcases ((hserves e').mp hserve).cases with hold | ⟨request, hreq, rfl, rfl, hs⟩
    · obtain ⟨he, hpos⟩ := h.served e' hold
      exact ⟨he, by omega⟩
    · refine ⟨(hnew request hreq hs).1.1, ?_⟩
      simp [RouterState.accepted, ofSender, hs]
  · rw [haccepted] at hpos
    by_cases hold : 0 < bus.accepted (ofSender s)
    · rcases h.kept (by simp [hst]) hold with hserve | htold
      · by_cases hnow : st = .handleBrokerMsg (.deadLink e) ∧ .closed s ∈ bus.log
        · right
          obtain ⟨rfl, hmem⟩ := hnow
          exact (precedes_concat _ _ _ _).mpr (Or.inr ⟨⟨_, hmem, rfl⟩, rfl⟩)
        · left
          refine (hserves e).mpr (Router.ServesAfter.of_serves hserve ?_ fun hst' => ?_)
          · rintro rfl
            simp only [Router.next, Option.some.injEq, Prod.mk.injEq] at hn
            exact hrun hn.1.symm
          · refine Bool.eq_false_of_not_eq_true fun hc => hnow ⟨hst', hclosed.mp hc⟩
      · exact Or.inr (Precedes.append htold _)
    · -- The registration is accepted by this very turn.
      have hlate : 0 < (st'.elim [] RouterState.accepted).countP (ofSender s) := by omega
      obtain ⟨request, hmem, hs⟩ := List.countP_pos_iff.mp hlate
      have hsender : request.sender = s := of_decide_eq_true hs
      obtain rfl := RouterState.of_mem_accepted hmem
      obtain rfl := Router.next_accepted hn
      obtain ⟨⟨he, hkind⟩, _⟩ := hnew request rfl hsender
      exact Or.inl ((hserves e).mpr (Or.inr ⟨rfl, hkind, he, hsender⟩))
  · rcases precedes_notes htold with hlog | ⟨rfl, n, hmem, rfl⟩
    · rcases ((hserves e').mp hserve).cases with hold | ⟨request, hreq, _, _, hs⟩
      · exact h.told hlog e' hold
      · obtain ⟨n, hmem, rfl⟩ := Precedes.exists_first hlog
        have hconfirmed := h.confirmed hmem
        have hzero := (hnew request hreq hs).2
        unfold accepted at hzero
        omega
    · obtain ⟨hold, hopen⟩ := (hserves e').mp hserve
      exact hopen ⟨(h.served e' hold).1, hclosed.mpr hmem⟩

theorem ListenerInv.step {event : BusEvent} (h : bus.ListenerInv s e)
    (hrule : bus.Listens s e event)
    (hle : ∀ q, bus.requested q + bus.accepted q ≤ bus.log.countP (BusNote.calls (RouterMsg.asks q)))
    (hs : Stepped bus event bus') : bus'.ListenerInv s e := by
  cases hs with
  | turn hst _ hn => exact h.turn hle hst hn
  | send => exact ⟨h.called, h.once, h.confirmed, h.served, h.kept, h.told⟩
  | call msg =>
    refine h.note _ (by simp) rfl (fun request heq hsender => ?_) (fun hcalls => ?_) (by simp)
    · cases heq
      obtain ⟨he, hkind, _⟩ := hrule hsender
      exact ⟨he, hkind⟩
    · cases msg with
      | registerEndpoint request => exact (hrule (of_decide_eq_true hcalls)).2.2
      | deadLink | registerPeer | unRegisterPeer | lsaInbound | lsaAckInbound | setAnycastCost
      | shutdown => cases hcalls
  | close s' =>
    refine h.note bus.tasks (by simp) rfl (by simp) (fun hcalls => nomatch hcalls) (fun heq => ?_)
    exact (hrule (BusNote.closed.inj heq)).1

theorem ListenerInv.of_reaches {nodeId : NodeId} (h : Reaches (fun b => b.Listens s e) nodeId bus) :
    bus.ListenerInv s e := by
  induction h with
  | new now =>
    refine ⟨?_, Nat.zero_le 1, ?_, ?_, ?_, ?_⟩
    · intro request hmem
      cases hmem
    · intro hmem
      cases hmem
    · intro e' hserve
      cases hserve
    · intro _ hpos
      cases hpos
    · intro htold
      cases htold
  | @rehash bus lsdb _ hre ih =>
    have hserves : ∀ e', lsdb.routes.Serves e' s ↔ bus.router.lsdb.routes.Serves e' s := by
      intro e'
      unfold RouteTable.Serves RouteTable.routesOf
      rw [hre.get_route]
    refine ⟨ih.called, ih.once, ih.confirmed, fun e' hserve => ?_, fun hrun hpos => ?_,
      fun htold e' hserve => ?_⟩
    · exact ih.served e' ((hserves e').mp hserve)
    · exact (ih.kept hrun hpos).imp (hserves e).mpr id
    · exact ih.told htold e' ((hserves e').mp hserve)
  | step event hreach hrule hstep ih => exact ih.step hrule hreach.requested_le (stepped hstep)

end Listener

/-- In every run, a listener that has closed its channel has no route any more exactly if
the router was told of its end after that. -/
theorem dropped_listener_unrouted_iff (nodeId : NodeId) (s : Sender) (e : EndpointId) (bus : Bus)
    (h : Reaches (fun b => b.Listens s e) nodeId bus) (hrun : bus.state ≠ none)
    (hclosed : .closed s ∈ bus.log) :
    (∀ e', ¬ bus.router.lsdb.routes.Serves e' s) ↔ bus.ToldAfterClose s e := by
  have hinv := ListenerInv.of_reaches h
  constructor
  · intro hnone
    have haccepted : 0 < bus.accepted (ofSender s) := by
      have hconfirmed := hinv.confirmed hclosed
      unfold accepted
      omega
    exact (hinv.kept hrun haccepted).resolve_left (hnone e)
  · exact hinv.told

end Bus

/-- A client asks for a unicast endpoint. -/
def unicastRequest : RegistrationRequest := ⟨5, ⟨.unicast, .global, 0⟩, 7⟩

/-- The request is on its way. -/
def unicastCalled : Bus :=
  ⟨[.called (.registerEndpoint unicastRequest)], [.registerEndpoint unicastRequest], [], some .start,
    .new 1 0⟩

/-- The router takes the request, accepts and confirms it, and the listener is dropped. -/
def registerAndDrop : List BusEvent :=
  [.quietTurn .timer, .send 0, .quietTurn (.message (.registerEndpoint unicastRequest)),
    .quietTurn .timer, .quietTurn .timer, .quietTurn .timer, .call (.deadLink 5)]

/-- The router is told of the end. -/
def toldOfEnd : List BusEvent :=
  [.send 0, .quietTurn (.message (.deadLink 5)), .quietTurn .timer, .quietTurn .timer]

theorem unicastCalled_reached : Bus.Reaches (fun b => b.Listens 7 5) 1 unicastCalled := by
  have hnew : Bus.Reaches (fun b => b.Listens 7 5) 1 (.new 1 0) := .new 0
  exact hnew.step (.call (.registerEndpoint unicastRequest)) (fun _ => ⟨rfl, by decide, rfl⟩) rfl

theorem listens_quiet {events : List BusEvent}
    (h : ∀ e ∈ events, (∃ msg, e = .call (.deadLink msg)) ∨ (∃ task, e = .send task) ∨
      ∃ wake, e = .quietTurn wake) : ∀ e ∈ events, ∀ b : Bus, b.Listens 7 5 e := by
  intro e he b
  rcases h e he with ⟨_, rfl⟩ | ⟨_, rfl⟩ | ⟨_, rfl⟩ <;> trivial

/-- A listener of which the router is told before the channel is closed keeps its route,
although nothing is left to do. -/
theorem dropped_listener_stays :
    ¬ ∀ (nodeId : NodeId) (s : Sender) (e : EndpointId) (bus : Bus),
      Bus.Reaches (fun b => b.Listens s e) nodeId bus → bus.tasks = [] → bus.queue = [] →
      bus.state = some .listen → .closed s ∈ bus.log →
      ∀ e', ¬ bus.router.lsdb.routes.Serves e' s := by
  intro h
  have hrun : (unicastCalled.run (registerAndDrop ++ toldOfEnd)).map (fun b => (b.state, b.log)) =
      some (some .listen, [.called (.registerEndpoint unicastRequest),
        .handled (.registerEndpoint unicastRequest), .confirmed unicastRequest, .called (.deadLink 5),
        .handled (.deadLink 5)]) := by
    decide +kernel
  have hrest : (unicastCalled.run (registerAndDrop ++ toldOfEnd)).map (fun b =>
      (b.tasks, b.queue, (b.router.lsdb.routes.routesOf 5).map LsRoute.via)) =
        some ([], [], [.loc 7]) := by
    decide +kernel
  obtain ⟨bus, hbus, heq⟩ := Option.map_eq_some_iff.mp hrun
  rw [hbus] at hrest
  obtain ⟨hstate, hlog⟩ := Prod.mk.inj heq
  simp only [Option.map_some, Option.some.injEq, Prod.mk.injEq] at hrest
  obtain ⟨htasks, hqueue, hroutes⟩ := hrest
  have hreach := unicastCalled_reached.run (listens_quiet (by simp [registerAndDrop, toldOfEnd])) hbus
  have hclose := hreach.step (.close 7) (fun _ => by rw [hlog]; decide) rfl
  refine h 1 7 5 _ hclose htasks hqueue hstate (by simp) 5 ?_
  unfold RouteTable.Serves
  rw [hroutes]
  exact List.mem_singleton_self _

/-- The bus after the listener was dropped and its channel closed. -/
def closedInTime : Bus :=
  let bus := (unicastCalled.run registerAndDrop).getD unicastCalled
  { bus with log := bus.log ++ [.closed 7] }

/-- A listener of which the router is told after the channel is closed loses its route. -/
theorem dropped_listener_unrouted :
    ∃ bus, closedInTime.run toldOfEnd = some bus ∧ bus.state = some .listen ∧ .closed 7 ∈ bus.log ∧
      ∀ e', ¬ bus.router.lsdb.routes.Serves e' 7 := by
  have hfirst : ((unicastCalled.run registerAndDrop).map fun b => b.log) =
      some [.called (.registerEndpoint unicastRequest), .handled (.registerEndpoint unicastRequest),
        .confirmed unicastRequest, .called (.deadLink 5)] := by
    decide +kernel
  have hsecond : ((closedInTime.run toldOfEnd).map fun b => (b.state, b.log)) =
      some (some .listen, [.called (.registerEndpoint unicastRequest),
        .handled (.registerEndpoint unicastRequest), .confirmed unicastRequest, .called (.deadLink 5),
        .closed 7, .handled (.deadLink 5)]) := by
    decide +kernel
  obtain ⟨dropped, hdropped, hlog⟩ := Option.map_eq_some_iff.mp hfirst
  have hclosed : closedInTime = { dropped with log := dropped.log ++ [.closed 7] } := by
    unfold closedInTime
    rw [hdropped]
    rfl
  have hreach := unicastCalled_reached.run (listens_quiet (by simp [registerAndDrop])) hdropped
  have hclose := hreach.step (.close 7) (fun _ => by rw [hlog]; decide) rfl
  rw [← hclosed] at hclose
  obtain ⟨bus, hbus, heq⟩ := Option.map_eq_some_iff.mp hsecond
  obtain ⟨hstate, hlog'⟩ := Prod.mk.inj heq
  have hend := hclose.run (listens_quiet (by simp [toldOfEnd])) hbus
  have hmem : .closed 7 ∈ bus.log := by simp [hlog']
  refine ⟨bus, hbus, hstate, hmem, ?_⟩
  refine (Bus.dropped_listener_unrouted_iff 1 7 5 bus hend (by simp [hstate]) hmem).mpr ?_
  unfold Bus.ToldAfterClose
  rw [hlog']
  decide

end Anybus
