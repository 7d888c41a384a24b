import Anybus.Core.Machine
import Anybus.Routing.Basic
import Mathlib.Logic.Function.Basic

/-!
# Calls between tasks

A task that serves requests has one bounded channel for them. Every call brings a sender of
its own for the reply, and waits for it up to a limit. The server may be late, drop the sender
without a reply, or end with requests in its channel, and the caller may give up at any time.
-/

namespace Anybus

/-- Why a call has no reply. -/
inductive RpcError where
  | serverDropped
  | serverClosed
  | timeout (limit : Duration)
  deriving DecidableEq, Repr

/-- The channel of one reply. -/
inductive ReplySlot (ρ : Type*) where
  | empty
  | answered (reply : ρ)
  /-- The sender is gone. -/
  | dropped
  deriving DecidableEq, Repr

/-- How far a call has come. -/
inductive CallStage (ρ : Type*) where
  /-- There was no room in the server's channel yet. -/
  | sending
  | waiting
  | returned (result : Except RpcError ρ)
  /-- The caller has given up. -/
  | abandoned
  deriving DecidableEq

structure LocalCall (κ ρ : Type*) where
  request : κ
  limit : Duration
  stage : CallStage ρ
  slot : ReplySlot ρ
  deriving DecidableEq

/-- A server: what it makes of a request in a state, and with what it finds around it. It
replies, or drops the sender. -/
abbrev LocalServer (τ σ κ ρ : Type*) := τ → κ → σ → Option ρ × σ

/-- What the server has handled: the call, its own state before, and what it has found. -/
structure HandledCall (τ σ : Type*) where
  id : Nat
  before : σ
  found : τ
  deriving DecidableEq

/-- Callers and their server. Calls are numbered in the order in which they were made. -/
structure LocalRpc (τ σ κ ρ : Type*) where
  server : σ
  /-- Whether the server still has its end of the channel. -/
  up : Bool
  queue : List Nat
  calls : Nat → Option (LocalCall κ ρ)
  size : Nat
  /-- The calls whose requests have got into the channel, oldest first. -/
  entered : List Nat
  handled : List (HandledCall τ σ)

inductive LocalRpcEvent (τ σ κ : Type*) where
  | call (request : κ) (limit : Duration)
  /-- The request goes into the channel, or finds it closed. -/
  | enqueue (id : Nat)
  | serve (found : τ)
  /-- The server goes on with something else. -/
  | other (server : σ)
  | stop
  /-- The caller finds a reply, or no sender. -/
  | finish (id : Nat)
  | expire (id : Nat)
  | abandon (id : Nat)

namespace LocalRpc

variable {τ σ κ ρ : Type*}

/-- The room in the server's channel. -/
def capacity : Nat := 32

def new (server : σ) : LocalRpc τ σ κ ρ := ⟨server, true, [], fun _ => none, 0, [], []⟩

/-- A call has come to another stage, or its slot has changed. -/
def setCall (s : LocalRpc τ σ κ ρ) (id : Nat) (call : LocalCall κ ρ) : LocalRpc τ σ κ ρ :=
  { s with calls := Function.update s.calls id (some call) }

/-- The slot of a request that the server has handled. -/
def slotOf : Option ρ → ReplySlot ρ
  | some reply => .answered reply
  | none => .dropped

/-- The senders of the requests in the channel go with it. -/
def dropSlots (calls : Nat → Option (LocalCall κ ρ)) (queue : List Nat) :
    Nat → Option (LocalCall κ ρ) :=
  fun id => (calls id).map fun call => if id ∈ queue then { call with slot := .dropped } else call

/-- One step; `none` if the event cannot happen now. -/
def step (server : LocalServer τ σ κ ρ) (s : LocalRpc τ σ κ ρ) :
    LocalRpcEvent τ σ κ → Option (LocalRpc τ σ κ ρ)
  | .call request limit =>
    some { s.setCall s.size ⟨request, limit, .sending, .empty⟩ with size := s.size + 1 }
  | .enqueue id =>
    match s.calls id with
    | some ⟨request, limit, .sending, slot⟩ =>
      if s.up then
        if s.queue.length < capacity then
          some { s.setCall id ⟨request, limit, .waiting, slot⟩ with
            queue := s.queue ++ [id], entered := s.entered ++ [id] }
        else none
      else some (s.setCall id ⟨request, limit, .returned (.error .serverClosed), slot⟩)
    | _ => none
  | .serve found =>
    match s.queue with
    | [] => none
    | id :: rest =>
      match s.calls id with
      | some call =>
        let r := server found call.request s.server
        some { s.setCall id { call with slot := slotOf r.1 } with
          server := r.2, queue := rest, handled := s.handled ++ [⟨id, s.server, found⟩] }
      | none => none
  | .other server => some { s with server := server }
  | .stop =>
    if s.up then some { s with up := false, queue := [], calls := dropSlots s.calls s.queue } else none
  | .finish id =>
    match s.calls id with
    | some ⟨request, limit, .waiting, .answered reply⟩ =>
      some (s.setCall id ⟨request, limit, .returned (.ok reply), .answered reply⟩)
    | some ⟨request, limit, .waiting, .dropped⟩ =>
      some (s.setCall id ⟨request, limit, .returned (.error .serverDropped), .dropped⟩)
    | _ => none
  -- A reply that is there is taken before the time is looked at.
  | .expire id =>
    match s.calls id with
    | some ⟨request, limit, .waiting, .empty⟩ =>
      some (s.setCall id ⟨request, limit, .returned (.error (.timeout limit)), .empty⟩)
    | _ => none
  | .abandon id =>
    match s.calls id with
    | some ⟨request, limit, .sending, slot⟩ => some (s.setCall id ⟨request, limit, .abandoned, slot⟩)
    | some ⟨request, limit, .waiting, slot⟩ => some (s.setCall id ⟨request, limit, .abandoned, slot⟩)
    | _ => none

def machine (server : LocalServer τ σ κ ρ) :
    Machine (LocalRpc τ σ κ ρ) (LocalRpcEvent τ σ κ) where
  init s := ∃ state, s = .new state
  step s event s' := s.step server event = some s'

/-- The calls that the server has handled, in its order. -/
def handledIds (s : LocalRpc τ σ κ ρ) : List Nat := s.handled.map HandledCall.id

/-- What holds of a call: its slot says what the server has made of it, and its result what
the slot says. -/
structure CallInv (server : LocalServer τ σ κ ρ) (s : LocalRpc τ σ κ ρ) (id : Nat)
    (call : LocalCall κ ρ) : Prop where
  empty : call.slot = .empty → id ∉ s.handledIds
  queued : call.slot = .empty → call.stage = .waiting → id ∈ s.queue
  filled : call.slot ≠ .empty → id ∉ s.queue
  answered : ∀ reply, call.slot = .answered reply →
    ∃ h ∈ s.handled, h.id = id ∧ (server h.found call.request h.before).1 = some reply
  dropped : call.slot = .dropped →
    ∀ h ∈ s.handled, h.id = id → (server h.found call.request h.before).1 = none
  ok : ∀ reply, call.stage = .returned (.ok reply) → call.slot = .answered reply
  serverDropped : call.stage = .returned (.error .serverDropped) → call.slot = .dropped
  outside : call.stage = .sending ∨ call.stage = .returned (.error .serverClosed) →
    call.slot = .empty ∧ id ∉ s.entered

structure Inv (server : LocalServer τ σ κ ρ) (s : LocalRpc τ σ κ ρ) : Prop where
  calls : ∀ id call, s.calls id = some call → s.CallInv server id call
  bound : ∀ id, s.size ≤ id → s.calls id = none
  known : ∀ id ∈ s.entered, s.calls id ≠ none
  nodup : s.entered.Nodup
  /-- Requests are handled in the order in which they have got into the channel. -/
  order : ∃ lost, s.handledIds ++ s.queue ++ lost = s.entered ∧ (s.up → lost = [])
  down : s.up = false → s.queue = []

variable {server : LocalServer τ σ κ ρ} {s s' : LocalRpc τ σ κ ρ} {id id' : Nat}
  {call : LocalCall κ ρ}

@[simp] theorem setCall_self : (s.setCall id call).calls id = some call := Function.update_self ..

theorem setCall_of_ne (h : id' ≠ id) : (s.setCall id call).calls id' = s.calls id' :=
  Function.update_of_ne h ..

/-- What holds of a call depends on where its own request is. -/
theorem CallInv.congr (h : s.CallInv server id call) (hqueue : id ∈ s'.queue ↔ id ∈ s.queue)
    (hhandled : ∀ x : HandledCall τ σ, x.id = id → (x ∈ s'.handled ↔ x ∈ s.handled))
    (hentered : id ∈ s'.entered ↔ id ∈ s.entered) : s'.CallInv server id call := by
  have hids : id ∈ s'.handledIds ↔ id ∈ s.handledIds := by
    simp only [handledIds, List.mem_map]
    constructor
    · rintro ⟨x, hx, hid⟩
      exact ⟨x, (hhandled x hid).mp hx, hid⟩
    · rintro ⟨x, hx, hid⟩
      exact ⟨x, (hhandled x hid).mpr hx, hid⟩
  refine ⟨?_, ?_, ?_, ?_, ?_, h.ok, h.serverDropped, ?_⟩
  · rw [hids]
    exact h.empty
  · rw [hqueue]
    exact h.queued
  · rw [hqueue]
    exact h.filled
  · intro reply hslot
    obtain ⟨x, hx, hid, hreply⟩ := h.answered reply hslot
    exact ⟨x, (hhandled x hid).mpr hx, hid, hreply⟩
  · intro hslot x hx hid
    exact h.dropped hslot x ((hhandled x hid).mp hx) hid
  · rw [hentered]
    exact h.outside

namespace Inv

theorem queue_subset (h : s.Inv server) (hid : id ∈ s.queue) : id ∈ s.entered := by
  obtain ⟨lost, horder, -⟩ := h.order
  rw [← horder]
  exact List.mem_append_left _ (List.mem_append_right _ hid)

theorem handled_subset (h : s.Inv server) (hid : id ∈ s.handledIds) : id ∈ s.entered := by
  obtain ⟨lost, horder, -⟩ := h.order
  rw [← horder]
  exact List.mem_append_left _ (List.mem_append_left _ hid)

/-- No request is both in the channel and handled. -/
theorem disjoint (h : s.Inv server) (hid : id ∈ s.queue) : id ∉ s.handledIds := by
  obtain ⟨lost, horder, -⟩ := h.order
  have hnodup := h.nodup
  rw [← horder] at hnodup
  intro hhandled
  exact List.disjoint_of_nodup_append (List.nodup_append.mp hnodup).1 hhandled hid

/-- One call comes to another stage. -/
theorem setStage (h : s.Inv server) (hcall : s.calls id = some call) {stage : CallStage ρ}
    (hqueued : call.slot = .empty → stage = .waiting → id ∈ s.queue)
    (hok : ∀ reply, stage = .returned (.ok reply) → call.slot = .answered reply)
    (hdropped : stage = .returned (.error .serverDropped) → call.slot = .dropped)
    (houtside : stage = .sending ∨ stage = .returned (.error .serverClosed) →
      call.slot = .empty ∧ id ∉ s.entered) :
    (s.setCall id { call with stage := stage }).Inv server := by
  refine ⟨?_, ?_, ?_, h.nodup, h.order, h.down⟩
  · intro id' call' hcall'
    by_cases hid : id' = id
    · subst hid
      rw [setCall_self] at hcall'
      cases hcall'
      have hinv := h.calls id' call hcall
      exact ⟨hinv.empty, hqueued, hinv.filled, hinv.answered, hinv.dropped, hok, hdropped, houtside⟩
    · rw [setCall_of_ne hid] at hcall'
      exact (h.calls id' call' hcall').congr Iff.rfl (fun _ _ => Iff.rfl) Iff.rfl
  · intro id' hid'
    have hne : id' ≠ id := by
      rintro rfl
      rw [h.bound id' hid'] at hcall
      cases hcall
    rw [setCall_of_ne hne]
    exact h.bound id' hid'
  · intro id' hid'
    by_cases hid : id' = id
    · subst hid
      simp
    · rw [setCall_of_ne hid]
      exact h.known id' hid'

/-- A new call is made. -/
theorem makeCall (h : s.Inv server) (request : κ) (limit : Duration) :
    { s.setCall s.size ⟨request, limit, .sending, .empty⟩ with size := s.size + 1 }.Inv server := by
  have hnew : s.calls s.size = none := h.bound s.size (Nat.le_refl _)
  have hentered : s.size ∉ s.entered := fun hmem => h.known _ hmem hnew
  refine ⟨?_, ?_, ?_, h.nodup, h.order, h.down⟩
  · intro id call hcall
    by_cases hid : id = s.size
    · subst hid
      have hcall : (s.setCall s.size ⟨request, limit, .sending, .empty⟩).calls s.size = some call := hcall
      rw [setCall_self] at hcall
      cases hcall
      refine ⟨?_, by simp, by simp, by simp, by simp, by simp, by simp, ?_⟩
      · intro _ hhandled
        exact hentered (h.handled_subset hhandled)
      · intro _
        exact ⟨rfl, hentered⟩
    · have hcall : (s.setCall s.size ⟨request, limit, .sending, .empty⟩).calls id = some call := hcall
      rw [setCall_of_ne hid] at hcall
      exact (h.calls id call hcall).congr Iff.rfl (fun _ _ => Iff.rfl) Iff.rfl
  · intro id hid
    have hne : id ≠ s.size := Nat.ne_of_gt hid
    exact (setCall_of_ne hne).trans (h.bound id (Nat.le_of_succ_le hid))
  · intro id hid
    have hne : id ≠ s.size := by
      rintro rfl
      exact hentered hid
    rw [setCall_of_ne hne]
    exact h.known id hid

/-- A request gets into the channel. -/
theorem enqueue (h : s.Inv server) (hcall : s.calls id = some call) (hup : s.up)
    (hsending : call.stage = .sending) :
    { s.setCall id { call with stage := .waiting } with
      queue := s.queue ++ [id], entered := s.entered ++ [id] }.Inv server := by
  have hinv := h.calls id call hcall
  obtain ⟨hslot, hentered⟩ := hinv.outside (.inl hsending)
  refine ⟨?_, ?_, ?_, ?_, ?_, ?_⟩
  · intro id' call' hcall'
    by_cases hid : id' = id
    · subst hid
      have hcall' : (s.setCall id' { call with stage := .waiting }).calls id' = some call' := hcall'
      rw [setCall_self] at hcall'
      cases hcall'
      refine ⟨hinv.empty, ?_, ?_, hinv.answered, hinv.dropped, by simp, by simp, by simp⟩
      · intro _ _
        exact List.mem_append_right _ (List.mem_singleton_self id')
      · intro hfilled
        exact absurd hslot hfilled
    · have hcall' : (s.setCall id { call with stage := .waiting }).calls id' = some call' := hcall'
      rw [setCall_of_ne hid] at hcall'
      refine (h.calls id' call' hcall').congr ?_ (fun _ _ => Iff.rfl) ?_
      · simp [hid]
      · simp [hid]
  · intro id' hid'
    have hne : id' ≠ id := by
      rintro rfl
      rw [h.bound id' hid'] at hcall
      cases hcall
    exact (setCall_of_ne hne).trans (h.bound id' hid')
  · intro id' hid'
    by_cases hid : id' = id
    · subst hid
      simp
    · rw [show _ = s.calls id' from setCall_of_ne hid]
      exact h.known id' ((List.mem_append.mp hid').resolve_right (by simpa using hid))
  · refine List.nodup_append.mpr ⟨h.nodup, List.nodup_singleton id, ?_⟩
    rintro a ha b hb rfl
    rw [List.mem_singleton.mp hb] at ha
    exact hentered ha
  · obtain ⟨lost, horder, hlost⟩ := h.order
    rw [hlost hup, List.append_nil] at horder
    refine ⟨[], ?_, fun _ => rfl⟩
    change s.handledIds ++ (s.queue ++ [id]) ++ [] = s.entered ++ [id]
    rw [List.append_nil, ← List.append_assoc, horder]
  · intro hdown
    have hdown : s.up = false := hdown
    rw [hup] at hdown
    cases hdown

/-- The server handles the oldest request in its channel. -/
theorem serve (h : s.Inv server) {rest : List Nat} (hqueue : s.queue = id :: rest)
    (hcall : s.calls id = some call) (found : τ) :
    { s.setCall id { call with slot := slotOf (server found call.request s.server).1 } with
      server := (server found call.request s.server).2, queue := rest,
      handled := s.handled ++ [(⟨id, s.server, found⟩ : HandledCall τ σ)] }.Inv server := by
  have hmem : id ∈ s.queue := by
    rw [hqueue]
    exact List.mem_cons_self
  have hinv := h.calls id call hcall
  have hslot : call.slot = .empty := by
    by_contra hfilled
    exact hinv.filled hfilled hmem
  have hnew : id ∉ s.handledIds := h.disjoint hmem
  obtain ⟨lost, horder, hlost⟩ := h.order
  have hrest : id ∉ rest := by
    have hnodup := h.nodup
    rw [← horder, hqueue] at hnodup
    have hcons := (List.nodup_append.mp (List.nodup_append.mp hnodup).1).2.1
    exact (List.nodup_cons.mp hcons).1
  have hone : ∀ x, x ∈ s.handled ++ [(⟨id, s.server, found⟩ : HandledCall τ σ)] → x.id = id →
      x = ⟨id, s.server, found⟩ := by
    intro x hx hid
    obtain hx | hx := List.mem_append.mp hx
    · exact absurd (List.mem_map.mpr ⟨x, hx, hid⟩) hnew
    · exact List.mem_singleton.mp hx
  refine ⟨?_, ?_, ?_, h.nodup, ?_, ?_⟩
  · intro id' call' hcall'
    by_cases hid : id' = id
    · subst hid
      rw [show _ = some _ from setCall_self] at hcall'
      cases hcall'
      have hentered := h.queue_subset hmem
      refine ⟨?_, ?_, fun _ => hrest, ?_, ?_, ?_, ?_, ?_⟩
      · intro hempty
        cases hreply : (server found call.request s.server).1 <;> simp [hreply, slotOf] at hempty
      · intro hempty
        cases hreply : (server found call.request s.server).1 <;> simp [hreply, slotOf] at hempty
      · intro reply hanswered
        refine ⟨_, List.mem_append_right _ (List.mem_singleton_self _), rfl, ?_⟩
        cases hreply : (server found call.request s.server).1 <;>
          simp_all [slotOf]
      · intro hdropped x hx hxid
        rw [hone x hx hxid]
        cases hreply : (server found call.request s.server).1 <;> simp_all [slotOf]
      · intro reply hok
        rw [hinv.ok reply hok] at hslot
        cases hslot
      · intro hdropped
        rw [hinv.serverDropped hdropped] at hslot
        cases hslot
      · intro houtside
        exact absurd hentered (hinv.outside houtside).2
    · rw [show _ = s.calls id' from setCall_of_ne hid] at hcall'
      refine (h.calls id' call' hcall').congr ?_ ?_ Iff.rfl
      · rw [hqueue]
        simp [hid]
      · intro x hx
        have hne : x ≠ ⟨id, s.server, found⟩ := by
          rintro rfl
          exact hid hx.symm
        simp [hne]
  · intro id' hid'
    have hne : id' ≠ id := by
      rintro rfl
      rw [h.bound id' hid'] at hcall
      cases hcall
    exact (setCall_of_ne hne).trans (h.bound id' hid')
  · intro id' hid'
    by_cases hid : id' = id
    · subst hid
      simp
    · rw [show _ = s.calls id' from setCall_of_ne hid]
      exact h.known id' hid'
  · refine ⟨lost, Eq.trans ?_ horder, hlost⟩
    rw [hqueue]
    simp [handledIds]
  · intro hdown
    have hnil := h.down hdown
    rw [hqueue] at hnil
    cases hnil

/-- The server ends. -/
theorem stop (h : s.Inv server) :
    { s with up := false, queue := [], calls := dropSlots s.calls s.queue }.Inv server := by
  refine ⟨?_, ?_, ?_, h.nodup, ?_, fun _ => rfl⟩
  · intro id call' hcall'
    obtain ⟨call, hcall, rfl⟩ := Option.map_eq_some_iff.mp hcall'
    have hinv := h.calls id call hcall
    split
    next hid =>
      have hslot : call.slot = .empty := by
        by_contra hfilled
        exact hinv.filled hfilled hid
      have hnew := h.disjoint hid
      refine ⟨by simp, by simp, by simp, by simp, ?_, ?_, fun _ => rfl, ?_⟩
      · intro _ x hx hxid
        exact absurd (List.mem_map.mpr ⟨x, hx, hxid⟩) hnew
      · intro reply hok
        rw [hinv.ok reply hok] at hslot
        cases hslot
      · intro houtside
        exact absurd (h.queue_subset hid) (hinv.outside houtside).2
    next hid =>
      refine ⟨hinv.empty, ?_, by simp, hinv.answered, hinv.dropped, hinv.ok, hinv.serverDropped,
        hinv.outside⟩
      intro hempty hwaiting
      exact absurd (hinv.queued hempty hwaiting) hid
  · intro id hid
    change Option.map _ (s.calls id) = none
    rw [h.bound id hid]
    rfl
  · intro id hid hnone
    exact h.known id hid (Option.map_eq_none_iff.mp hnone)
  · obtain ⟨lost, horder, -⟩ := h.order
    refine ⟨s.queue ++ lost, ?_, by simp⟩
    rw [← horder]
    simp [handledIds]

theorem init (state : σ) : (new state : LocalRpc τ σ κ ρ).Inv server := by
  refine ⟨?_, fun _ _ => rfl, ?_, List.nodup_nil, ⟨[], rfl, fun _ => rfl⟩, fun _ => rfl⟩
  · intro id call hcall
    cases hcall
  · intro id hid
    cases hid

/-- Every step keeps the invariant. -/
theorem step (h : s.Inv server) {event : LocalRpcEvent τ σ κ}
    (hstep : s.step server event = some s') : s'.Inv server := by
  cases event with
  | call request limit =>
    cases hstep
    exact h.makeCall request limit
  | enqueue id =>
    simp only [LocalRpc.step] at hstep
    split at hstep
    next request limit slot hcall =>
      have hinv := h.calls id _ hcall
      split_ifs at hstep with hup hroom
      · cases hstep
        exact h.enqueue hcall hup rfl
      · cases hstep
        exact h.setStage hcall (by simp) (by simp) (by simp) (fun _ => hinv.outside (.inl rfl))
    next => cases hstep
  | serve found =>
    simp only [LocalRpc.step] at hstep
    split at hstep
    next => cases hstep
    next id rest hqueue =>
      split at hstep
      next call hcall =>
        cases hstep
        exact h.serve hqueue hcall found
      next => cases hstep
  | other server' =>
    cases hstep
    exact ⟨fun id call hcall => (h.calls id call hcall).congr Iff.rfl (fun _ _ => Iff.rfl) Iff.rfl,
      h.bound, h.known, h.nodup, h.order, h.down⟩
  | stop =>
    simp only [LocalRpc.step] at hstep
    split_ifs at hstep
    cases hstep
    exact h.stop
  | finish id =>
    simp only [LocalRpc.step] at hstep
    split at hstep
    next request limit reply hcall =>
      cases hstep
      exact h.setStage hcall (by simp) (by simp) (by simp) (by simp)
    next request limit hcall =>
      cases hstep
      exact h.setStage hcall (by simp) (by simp) (by simp) (by simp)
    next => cases hstep
  | expire id =>
    simp only [LocalRpc.step] at hstep
    split at hstep
    next request limit hcall =>
      cases hstep
      exact h.setStage hcall (by simp) (by simp) (by simp) (by simp)
    next => cases hstep
  | abandon id =>
    simp only [LocalRpc.step] at hstep
    split at hstep
    next request limit slot hcall =>
      cases hstep
      exact h.setStage hcall (by simp) (by simp) (by simp) (by simp)
    next request limit slot hcall =>
      cases hstep
      exact h.setStage hcall (by simp) (by simp) (by simp) (by simp)
    next => cases hstep

end Inv

/-- The runs of callers and a server. -/
def Reachable (server : LocalServer τ σ κ ρ) (s : LocalRpc τ σ κ ρ) : Prop :=
  (machine server).Reaches (fun _ _ => True) s

theorem Reachable.inv (h : Reachable server s) : s.Inv server := by
  refine Machine.Reaches.invariant h ?_ ?_
  · rintro _ ⟨state, rfl⟩
    exact Inv.init state
  · intro s event s' hs _ hstep
    exact hs.step hstep

/-- The step that a call can make by itself, if there is one. -/
theorem waiting_can_end (hcall : s.calls id = some call) (hwaiting : call.stage = .waiting) :
    (∃ s', s.step server (.finish id) = some s') ∨ (∃ s', s.step server (.expire id) = some s') := by
  obtain ⟨request, limit, stage, slot⟩ := call
  cases hwaiting
  cases slot with
  | empty => exact .inr ⟨_, by simp only [LocalRpc.step, hcall]; rfl⟩
  | answered reply => exact .inl ⟨_, by simp only [LocalRpc.step, hcall]; rfl⟩
  | dropped => exact .inl ⟨_, by simp only [LocalRpc.step, hcall]; rfl⟩

/-- In every reachable state of a server and its callers, whatever the order of their steps:
the server has handled requests in the order in which they have got into its channel, none
twice and, as long as it is up, none but those in the channel is missing; a call that has
returned a reply has the reply that the server has given to its own request; a call that has
failed because the server has dropped it was never replied to; one that has failed because
the channel was closed was never handled; and a call that waits can end in the next step. -/
theorem calls_answered (h : Reachable server s) :
    s.handledIds.Nodup ∧ s.handledIds <+: s.entered ∧
      (s.up → s.handledIds ++ s.queue = s.entered) ∧
      ∀ id call, s.calls id = some call →
        (∀ reply, call.stage = .returned (.ok reply) →
          ∃ x ∈ s.handled, x.id = id ∧ (server x.found call.request x.before).1 = some reply) ∧
        (call.stage = .returned (.error .serverDropped) →
          ∀ x ∈ s.handled, x.id = id → (server x.found call.request x.before).1 = none) ∧
        (call.stage = .returned (.error .serverClosed) → id ∉ s.handledIds) ∧
        (call.stage = .waiting →
          (∃ s', s.step server (.finish id) = some s') ∨
            ∃ s', s.step server (.expire id) = some s') := by
  have hinv := h.inv
  obtain ⟨lost, horder, hlost⟩ := hinv.order
  have hprefix : s.handledIds <+: s.entered :=
    ⟨s.queue ++ lost, by rw [← horder, List.append_assoc]⟩
  refine ⟨hinv.nodup.sublist hprefix.sublist, hprefix, ?_, ?_⟩
  · intro hup
    rw [← horder, hlost hup, List.append_nil]
  · intro id call hcall
    have hc := hinv.calls id call hcall
    refine ⟨?_, ?_, ?_, waiting_can_end hcall⟩
    · intro reply hok
      exact hc.answered reply (hc.ok reply hok)
    · intro hdropped
      exact hc.dropped (hc.serverDropped hdropped)
    · intro hclosed hhandled
      exact (hc.outside (.inr hclosed)).2 (hinv.handled_subset hhandled)

/-- A server that halves what it is sent, and drops odd requests. -/
def halving : LocalServer Unit Nat Nat Nat := fun _ request served =>
  (if request % 2 = 0 then some (request / 2) else none, served + 1)

theorem half_answered :
    ∃ s, Reachable halving s ∧ s.calls 0 = some ⟨8, 1000, .returned (.ok 4), .answered 4⟩ ∧
      s.calls 1 = some ⟨7, 1000, .returned (.error .serverDropped), .dropped⟩ ∧
      s.calls 2 = some ⟨6, 1000, .returned (.error .serverClosed), .empty⟩ ∧
      (∃ x ∈ s.handled, x.id = 0 ∧ (halving x.found 8 x.before).1 = some 4) ∧
      2 ∉ s.handledIds := by
  have hend : (Machine.run (step halving) (fun _ _ => True) (new 0)
      [.call 8 1000, .call 7 1000, .enqueue 0, .enqueue 1, .serve (), .finish 0, .serve (), .finish 1,
        .call 6 1000, .stop, .enqueue 2]).map (fun s => (s.calls 0, s.calls 1, s.calls 2)) =
      some (some ⟨8, 1000, .returned (.ok 4), .answered 4⟩,
        some ⟨7, 1000, .returned (.error .serverDropped), .dropped⟩,
        some ⟨6, 1000, .returned (.error .serverClosed), .empty⟩) := by
    decide +kernel
  obtain ⟨s, hrun, hs⟩ := Option.map_eq_some_iff.mp hend
  obtain ⟨h0, h1, h2⟩ : _ ∧ _ ∧ _ := by simpa only [Prod.mk.injEq] using hs
  have hreach : Reachable halving s :=
    Machine.Reaches.run (fun _ _ _ h => h) (.init ⟨0, rfl⟩) hrun
  have hcalls := (calls_answered hreach).2.2.2
  exact ⟨s, hreach, h0, h1, h2, (hcalls 0 _ h0).1 4 rfl, (hcalls 2 _ h2).2.2.1 rfl⟩

end LocalRpc

end Anybus
