import Anybus.Peers.WsPeer

/-!
# How a WebSocket session ends

A session is open, applies at most one effect between two events, and closes for one of
three reasons. Closing queues a fixed list of effects. If one of them fails, the rest is
forgotten, and with it the message that unregisters the session. Only a session that did
not hang up itself tells the manager.
-/

namespace Anybus

/-- An effect of an open session. -/
def WsEffect.Routine : WsEffect → Prop
  | .send _ => True
  | .handleNodeMessage _ => True
  | _ => False

namespace WsPeer

/-- Why an event closes an open session, if it does. -/
def closesBy (peer : WsPeer) : WsEvent → Option CloseReason
  | .control .shutdown => some .loc
  | .fromWire (.hello _) => some .loc
  | .fromWire .closeConnection => some .remote
  | .transportDead => some .transport
  | .tick now => if peer.hb.timedOut now then some .loc else none
  | _ => none

/-- A session hangs up by itself: on a heartbeat timeout or an unexpected greeting. -/
def HangsUp (peer : WsPeer) : WsEvent → Prop
  | .fromWire (.hello _) => peer.phase = .opened
  | .tick now => peer.phase = .opened ∧ peer.hb.timedOut now = true
  | _ => False

theorem HangsUp.closesBy {peer : WsPeer} {event : WsEvent} (h : peer.HangsUp event) :
    peer.phase = .opened ∧ peer.closesBy event = some .loc := by
  cases event with
  | fromWire message =>
    cases message with
    | hello id => exact ⟨h, rfl⟩
    | _ => cases h
  | tick now => exact ⟨h.1, if_pos h.2⟩
  | _ => cases h

theorem hangsUp_of_closesBy {peer : WsPeer} {event : WsEvent} (hphase : peer.phase = .opened)
    (h : peer.closesBy event = some .loc) (hne : event ≠ .control .shutdown) :
    peer.HangsUp event := by
  cases event with
  | control control =>
    cases control with
    | shutdown => exact absurd rfl hne
    | resume => cases h
  | fromWire message =>
    cases message with
    | hello id => exact hphase
    | _ => cases h
  | tick now =>
    cases hout : peer.hb.timedOut now with
    | true => exact ⟨hphase, hout⟩
    | false =>
      have hnone : peer.closesBy (.tick now) = none := if_neg (by simp [hout])
      rw [hnone] at h
      cases h
  | _ => cases h

/-- An open session has at most one effect to apply. -/
structure Opened (peer : WsPeer) : Prop where
  phase : peer.phase = .opened
  single : peer.effects.length ≤ 1
  routine : ∀ effect ∈ peer.effects, effect.Routine

theorem Opened.of_nil (peer : WsPeer) (hphase : peer.phase = .opened) (hnil : peer.effects = []) :
    peer.Opened :=
  ⟨hphase, by simp [hnil], by simp [hnil]⟩

theorem Opened.emit (peer : WsPeer) {effect : WsEffect} (hr : effect.Routine)
    (hphase : peer.phase = .opened) (hnil : peer.effects = []) : (peer.emit effect).Opened := by
  refine ⟨hphase, by simp [WsPeer.emit, hnil], fun e he => ?_⟩
  simp only [WsPeer.emit, hnil, List.nil_append, List.mem_singleton] at he
  rw [he]
  exact hr

theorem Opened.emitPing (peer : WsPeer) (now : Instant) (hphase : peer.phase = .opened)
    (hnil : peer.effects = []) : (peer.emitPing now).Opened := by
  have hr : (WsEffect.send (.ping (peer.hb.takePingToken now).2)).Routine := trivial
  exact Opened.emit { peer with hb := (peer.hb.takePingToken now).1 } hr hphase hnil

/-- A session begins to close, with what closing asks for. -/
def ClosesFor (peer : WsPeer) (reason : CloseReason) : Prop :=
  peer.phase = .closing ∧ peer.effects = reason.effects

theorem closesFor_close (peer : WsPeer) (reason : CloseReason) (hphase : peer.phase = .opened)
    (hnil : peer.effects = []) : (peer.close reason).ClosesFor reason := by
  simp [ClosesFor, close, hphase, hnil]

/-- The three outcomes of an event in an open session, as the source has them. -/
theorem step_opened_eq {peer : WsPeer} (hphase : peer.phase = .opened) (now : Instant)
    (event : WsEvent) :
    peer.step now event = match event with
      | .control .shutdown => peer.close .loc
      | .control .resume => { peer with hb := peer.hb.noteResume now }.emitPing now
      | .fromWire message => peer.onWire now message
      | .transportDead => peer.close .transport
      | .unknownWire => peer
      | .tick now => peer.onTick now
      | .fromNode message => peer.emit (.send (.nodeMsg message)) := by
  obtain ⟨phase, effects, peerId, hb⟩ := peer
  cases hphase
  rfl

/-- One event in an open session: it closes for its reason, or stays open. -/
theorem step_opened {peer : WsPeer} (hphase : peer.phase = .opened) (hnil : peer.effects = [])
    (now : Instant) (event : WsEvent) :
    match peer.closesBy event with
    | some reason => (peer.step now event).ClosesFor reason
    | none => (peer.step now event).Opened := by
  rw [step_opened_eq hphase]
  cases event with
  | control control =>
    cases control with
    | shutdown => exact closesFor_close peer .loc hphase hnil
    | resume => exact Opened.emitPing { peer with hb := peer.hb.noteResume now } now hphase hnil
  | fromWire message =>
    cases message with
    | hello id => exact closesFor_close { peer with hb := peer.hb.onRx now } .loc hphase hnil
    | closeConnection =>
      exact closesFor_close { peer with hb := peer.hb.onRx now } .remote hphase hnil
    | ping token =>
      have hr : (WsEffect.send (.pong token)).Routine := trivial
      exact Opened.emit { peer with hb := peer.hb.onRx now } hr hphase hnil
    | pong token => exact Opened.of_nil { peer with hb := peer.hb.onRx now } hphase hnil
    | nodeMsg m =>
      have hr : (WsEffect.handleNodeMessage m).Routine := trivial
      exact Opened.emit { peer with hb := peer.hb.onRx now } hr hphase hnil
  | fromNode m =>
    have hr : (WsEffect.send (.nodeMsg m)).Routine := trivial
    exact Opened.emit peer hr hphase hnil
  | transportDead => exact closesFor_close peer .transport hphase hnil
  | unknownWire => exact Opened.of_nil peer hphase hnil
  | tick t =>
    cases hout : peer.hb.timedOut t with
    | true =>
      have hby : peer.closesBy (.tick t) = some .loc := if_pos hout
      have hstep : peer.onTick t = peer.close .loc := if_pos hout
      rw [hby]
      simp only
      rw [hstep]
      exact closesFor_close peer .loc hphase hnil
    | false =>
      have hby : peer.closesBy (.tick t) = none := if_neg (by simp [hout])
      have hstep : peer.onTick t = if peer.hb.pingDue t then peer.emitPing t else peer :=
        if_neg (by simp [hout])
      rw [hby]
      simp only
      rw [hstep]
      split
      · exact Opened.emitPing peer t hphase hnil
      · exact Opened.of_nil peer hphase hnil

end WsPeer

/-- The session a turn leads to. -/
def Turn.session : Turn → WsSession
  | .ended s => s
  | .failed s => s
  | .waits s => s

namespace WsSession

/-- The record of effects that all succeed. -/
def allApplied (phase : Phase) (effects : List WsEffect) : List Applied :=
  effects.map fun effect => ⟨phase, effect, true⟩

/-- Applying effects goes to the end of the queue, or to the first that fails. -/
theorem drain_cases (outcomes : Outcomes) (phase : Phase) (effects : List WsEffect)
    (applied : List Applied) :
    drain outcomes phase effects applied = ([], applied ++ allApplied phase effects, true) ∨
      ∃ done effect rest n, effects = done ++ effect :: rest ∧ outcomes.of n effect = false ∧
        drain outcomes phase effects applied =
          (rest, applied ++ (allApplied phase done ++ [⟨phase, effect, false⟩]), false) := by
  induction effects generalizing applied with
  | nil => simp [drain, allApplied]
  | cons effect rest ih =>
    rw [drain]
    cases hok : outcomes.of applied.length effect with
    | false => exact Or.inr ⟨[], effect, rest, applied.length, rfl, hok, by simp [allApplied]⟩
    | true =>
      rw [if_pos rfl]
      rcases ih (applied ++ [⟨phase, effect, true⟩]) with h | ⟨done, e, rest', n, hrest, hfail, h⟩
      · refine Or.inl (h.trans ?_)
        simp [allApplied]
      · refine Or.inr ⟨effect :: done, e, rest', n, by rw [hrest]; rfl, hfail, h.trans ?_⟩
        simp [allApplied]

/-- What was applied while closing: everything, or everything up to a failure. -/
inductive Finished (outcomes : Outcomes) (reason : CloseReason) : List Applied → Prop where
  | all : Finished outcomes reason (allApplied .closing reason.effects)
  | cut {done rest : List WsEffect} {effect : WsEffect} {n : Nat}
      (h : reason.effects = done ++ effect :: rest) (hfail : outcomes.of n effect = false) :
      Finished outcomes reason (allApplied .closing done ++ [⟨.closing, effect, false⟩])

/-- How an open session ends: for a while it stays open, then an event closes it, and
nothing but the failure of an effect is fed after that. -/
inductive Ending (outcomes : Outcomes) (s s' : WsSession) : Prop where
  | intro (before out : List Applied) (earlier later : List (WsPeer × WsEvent)) (peer : WsPeer)
      (event : WsEvent) (reason : CloseReason)
      (happlied : s'.applied = s.applied ++ (before ++ out))
      (hbefore : ∀ a ∈ before, a.phase = .opened ∧ a.effect.Routine)
      (hfed : s'.fed = s.fed ++ (earlier ++ (peer, event) :: later))
      (hearlier : ∀ x ∈ earlier, x.1.closesBy x.2 = none) (hphase : peer.phase = .opened)
      (hreason : peer.closesBy event = some reason)
      (hlater : ∀ x ∈ later, x.1.phase = .closing) (hout : Finished outcomes reason out)

section Ends

variable {outcomes : Outcomes} {s s' : WsSession} {l : List (Instant × WsEvent)}

/-- A closed session ends at once. -/
theorem Ends.of_closed (h : Ends outcomes s l s') (hphase : s.fsm.phase = .closed)
    (hnil : s.fsm.effects = []) : s'.applied = s.applied ∧ s'.fed = s.fed := by
  have hturn : s.turn outcomes = .ended s := by
    obtain ⟨fsm, applied, fed⟩ := s
    obtain ⟨phase, effects, peerId, hb⟩ := fsm
    simp only at hphase hnil
    subst hphase hnil
    rfl
  cases h with
  | ended h =>
    rw [hturn] at h
    cases h
    exact ⟨rfl, rfl⟩
  | failed now h =>
    rw [hturn] at h
    cases h
  | event now e h =>
    rw [hturn] at h
    cases h

/-- A closing session applies what it can and ends. -/
theorem Ends.of_closing {reason : CloseReason} (h : Ends outcomes s l s')
    (hclose : s.fsm.ClosesFor reason) :
    ∃ out later, s'.applied = s.applied ++ out ∧ s'.fed = s.fed ++ later ∧
      (∀ x ∈ later, x.1.phase = .closing) ∧ Finished outcomes reason out := by
  obtain ⟨hphase, heffects⟩ := hclose
  rcases drain_cases outcomes s.fsm.phase s.fsm.effects s.applied with
    hd | ⟨done, effect, rest, n, hsplit, hfail, hd⟩
  · -- Everything succeeds, so the session is closed before the next event.
    have hturn : s.turn outcomes = .ended { s with
        fsm := { s.fsm with effects := [], phase := .closed }
        applied := s.applied ++ allApplied .closing reason.effects } := by
      simp only [turn, hd]
      simp [WsPeer.effectsFlushed, hphase, WsPeer.isDone, heffects]
    cases h with
    | ended h =>
      rw [hturn] at h
      cases h
      exact ⟨_, [], rfl, (List.append_nil _).symm, by simp, .all⟩
    | failed now h =>
      rw [hturn] at h
      cases h
    | event now e h =>
      rw [hturn] at h
      cases h
  · have hturn : s.turn outcomes = .failed { s with
        fsm := { s.fsm with effects := rest }
        applied := s.applied ++ (allApplied .closing done ++ [⟨.closing, effect, false⟩]) } := by
      simp only [turn, hd]
      simp [WsPeer.isDone, hphase]
    cases h with
    | ended h =>
      rw [hturn] at h
      cases h
    | event now e h =>
      rw [hturn] at h
      cases h
    | failed now h hrest =>
      rw [hturn] at h
      cases h
      have hstep : ({ s.fsm with effects := rest } : WsPeer).step now .transportDead =
          { s.fsm with effects := [], phase := .closed } := by simp [WsPeer.step, hphase]
      obtain ⟨happlied, hfed⟩ := hrest.of_closed (by simp [feed, hstep]) (by simp [feed, hstep])
      refine ⟨_, [({ s.fsm with effects := rest }, .transportDead)], happlied, hfed, ?_, ?_⟩
      · intro x hx
        rw [List.mem_singleton.mp hx]
        exact hphase
      · exact .cut (heffects ▸ hsplit) hfail

/-- An open session that has applied its one effect waits for an event, or has noticed
that its transport is dead. -/
theorem turn_opened (outcomes : Outcomes) (hopen : s.fsm.Opened) :
    ∃ (out : List Applied) (ok : Bool), (∀ a ∈ out, a.phase = .opened ∧ a.effect.Routine) ∧
      s.turn outcomes = (if ok then Turn.waits else Turn.failed)
        { s with fsm := { s.fsm with effects := [] }, applied := s.applied ++ out } := by
  obtain ⟨hphase, hsingle, hroutine⟩ := hopen
  rcases drain_cases outcomes s.fsm.phase s.fsm.effects s.applied with
    hd | ⟨done, effect, rest, n, hsplit, hfail, hd⟩
  · refine ⟨allApplied s.fsm.phase s.fsm.effects, true, fun a ha => ?_, ?_⟩
    · obtain ⟨e, he, rfl⟩ := List.mem_map.mp ha
      exact ⟨hphase, hroutine e he⟩
    · simp only [turn, hd]
      simp [WsPeer.effectsFlushed, hphase, WsPeer.isDone]
  · -- There was only one effect, so nothing is left behind it.
    rw [hsplit, List.length_append, List.length_cons] at hsingle
    have hdone : done = [] := List.eq_nil_of_length_eq_zero (by omega)
    have hrest : rest = [] := List.eq_nil_of_length_eq_zero (by omega)
    subst hdone hrest
    refine ⟨[⟨.opened, effect, false⟩], false, fun a ha => ?_, ?_⟩
    · rw [List.mem_singleton.mp ha]
      exact ⟨rfl, hroutine effect (by simp [hsplit])⟩
    · simp only [turn, hd]
      simp [WsPeer.isDone, hphase, allApplied]

/-- What comes before the rest of a run is part of its ending. -/
theorem Ending.prepend {s₁ : WsSession} {out : List Applied} {earlier : List (WsPeer × WsEvent)}
    (h : Ending outcomes s₁ s') (happlied : s₁.applied = s.applied ++ out)
    (hout : ∀ a ∈ out, a.phase = .opened ∧ a.effect.Routine) (hfed : s₁.fed = s.fed ++ earlier)
    (hearlier : ∀ x ∈ earlier, x.1.closesBy x.2 = none) : Ending outcomes s s' := by
  obtain ⟨before, out', earlier', later, peer, event, reason, ha, hb, hf, he, hp, hr, hl, ho⟩ := h
  refine .intro (out ++ before) out' (earlier ++ earlier') later peer event reason ?_ ?_ ?_ ?_ hp hr hl ho
  · rw [ha, happlied]
    simp
  · intro a hmem
    exact (List.mem_append.mp hmem).elim (hout a) (hb a)
  · rw [hf, hfed]
    simp
  · intro x hmem
    exact (List.mem_append.mp hmem).elim (hearlier x) (he x)

/-- The first event that closes a session decides how it ends. -/
theorem Ending.of_feed (fsm : WsPeer) {out : List Applied} {now : Instant} {event : WsEvent}
    (hphase : fsm.phase = .opened) (hnil : fsm.effects = [])
    (hout : ∀ a ∈ out, a.phase = .opened ∧ a.effect.Routine)
    (hrest : Ends outcomes (feed { s with fsm := fsm, applied := s.applied ++ out } now event) l s')
    (ih : (fsm.step now event).Opened →
      Ending outcomes (feed { s with fsm := fsm, applied := s.applied ++ out } now event) s') :
    Ending outcomes s s' := by
  have hstep := WsPeer.step_opened hphase hnil now event
  cases hby : fsm.closesBy event with
  | none =>
    rw [hby] at hstep
    refine (ih hstep).prepend rfl hout rfl fun x hx => ?_
    rw [List.mem_singleton.mp hx]
    exact hby
  | some reason =>
    rw [hby] at hstep
    obtain ⟨out', later, ha, hf, hl, ho⟩ := hrest.of_closing hstep
    refine .intro out out' [] later fsm event reason ?_ hout ?_ (by simp) hphase hby hl ho
    · rw [ha]
      exact List.append_assoc _ _ _
    · rw [hf]
      exact List.append_assoc _ _ _

/-- An open session ends as described. -/
theorem Ends.of_opened (h : Ends outcomes s l s') (hopen : s.fsm.Opened) : Ending outcomes s s' := by
  induction h with
  | @ended s s' h =>
    obtain ⟨out, ok, _, hturn⟩ := turn_opened outcomes hopen
    rw [hturn] at h
    cases ok <;> cases h
  | @failed s s' s'' l now h hrest ih =>
    obtain ⟨out, ok, hout, hturn⟩ := turn_opened outcomes hopen
    rw [hturn] at h
    cases ok with
    | true => cases h
    | false =>
      cases h
      exact Ending.of_feed { s.fsm with effects := [] } hopen.phase rfl hout hrest ih
  | @event s s' s'' l now e h hrest ih =>
    obtain ⟨out, ok, hout, hturn⟩ := turn_opened outcomes hopen
    rw [hturn] at h
    cases ok with
    | false => cases h
    | true =>
      cases h
      exact Ending.of_feed { s.fsm with effects := [] } hopen.phase rfl hout hrest ih

/-- Applying effects feeds nothing. -/
theorem turn_fed (s : WsSession) (outcomes : Outcomes) : (s.turn outcomes).session.fed = s.fed := by
  unfold turn
  simp only
  split
  · split <;> rfl
  · split <;> rfl

/-- Every event that was fed was taken, or stands for a failed effect. -/
theorem Ends.mem_fed (h : Ends outcomes s l s') {x : WsPeer × WsEvent} (hx : x ∈ s'.fed) :
    x ∈ s.fed ∨ x.2 = .transportDead ∨ ∃ now, (now, x.2) ∈ l := by
  induction h with
  | @ended s s' h =>
    have hsame := s.turn_fed outcomes
    rw [h] at hsame
    exact Or.inl (hsame ▸ hx)
  | @failed s s' s'' l now h _ ih =>
    have hsame : s'.fed = s.fed := by
      have hfed := s.turn_fed outcomes
      rwa [h] at hfed
    rcases ih hx with hfed | hrest
    · rw [feed, List.mem_append, hsame, List.mem_singleton] at hfed
      rcases hfed with hold | rfl
      · exact Or.inl hold
      · exact Or.inr (Or.inl rfl)
    · exact Or.inr hrest
  | @event s s' s'' l now e h _ ih =>
    have hsame : s'.fed = s.fed := by
      have hfed := s.turn_fed outcomes
      rwa [h] at hfed
    rcases ih hx with hfed | hdead | ⟨t, ht⟩
    · rw [feed, List.mem_append, hsame, List.mem_singleton] at hfed
      rcases hfed with hold | rfl
      · exact Or.inl hold
      · exact Or.inr (Or.inr ⟨now, List.mem_cons_self⟩)
    · exact Or.inr (Or.inl hdead)
    · exact Or.inr (Or.inr ⟨t, List.mem_cons_of_mem _ ht⟩)

end Ends

/-- How often an effect was applied with success. -/
def times (s : WsSession) (effect : WsEffect) : Nat :=
  s.applied.countP fun a => decide (a.effect = effect) && a.succeeded

section Counts

variable {outcomes : Outcomes} {reason : CloseReason} {out before : List Applied}

theorem countP_eq_zero_of_routine {effect : WsEffect} (hr : ¬ effect.Routine)
    (hbefore : ∀ a ∈ before, a.phase = .opened ∧ a.effect.Routine) :
    before.countP (fun a => decide (a.effect = effect) && a.succeeded) = 0 := by
  rw [List.countP_eq_zero]
  intro a ha hcount
  simp only [Bool.and_eq_true, decide_eq_true_eq] at hcount
  exact hr (hcount.1 ▸ (hbefore a ha).2)

theorem countP_allApplied (phase : Phase) (effects : List WsEffect) (effect : WsEffect) :
    (allApplied phase effects).countP (fun a => decide (a.effect = effect) && a.succeeded) =
      effects.count effect := by
  rw [allApplied, List.countP_map, List.count]
  refine List.countP_congr fun e _ => ?_
  simp

/-- Unregistering comes last, so it does not come before a failed effect. -/
theorem not_mem_of_effects_eq {done rest : List WsEffect} {effect : WsEffect}
    (h : reason.effects = done ++ effect :: rest) (hne : effect ≠ .unregister) :
    .unregister ∉ done := by
  have hinit : ∃ init, reason.effects = init ++ [.unregister] ∧ .unregister ∉ init := by
    cases reason with
    | loc => exact ⟨[.send .closeConnection, .closeSocket], rfl, by simp⟩
    | remote => exact ⟨[.closeSocket, .notifyPeerClosed], rfl, by simp⟩
    | transport => exact ⟨[.notifyPeerClosed], rfl, by simp⟩
  obtain ⟨init, hinit, hnot⟩ := hinit
  rw [hinit] at h
  intro hmem
  rcases List.append_eq_append_iff.mp h with ⟨m, hdone, hm⟩ | ⟨m, hinit', _⟩
  · -- The failed effect would be the last one.
    rcases List.cons_eq_append_iff.mp hm with ⟨rfl, hlast⟩ | ⟨m', rfl, hnil⟩
    · exact hne (List.cons.inj hlast).1
    · simp at hnil
  · rw [hinit'] at hnot
    exact hnot (List.mem_append_left _ hmem)

/-- A session is unregistered when nothing fails while it closes, and only then. -/
theorem Finished.unregister (h : Finished outcomes reason out) :
    out.countP (fun a => decide (a.effect = .unregister) && a.succeeded) = 1 ↔
      ∀ a ∈ out, a.succeeded = true := by
  cases h with
  | all =>
    rw [countP_allApplied]
    refine iff_of_true (by cases reason <;> rfl) fun a ha => ?_
    obtain ⟨e, _, rfl⟩ := List.mem_map.mp ha
    rfl
  | @cut done rest effect n h hfail =>
    refine iff_of_false ?_ fun hall => ?_
    · have hne : effect ≠ .unregister := by
        rintro rfl
        cases hfail
      rw [List.countP_append, countP_allApplied, List.count_eq_zero_of_not_mem
        (not_mem_of_effects_eq h hne)]
      simp
    · have hlast := hall ⟨.closing, effect, false⟩ (by simp)
      cases hlast

/-- With the manager listening, only a session that hangs up does not tell it. -/
theorem Finished.notify (hcommand : ∀ n, outcomes.command n = true)
    (h : Finished outcomes reason out) :
    out.countP (fun a => decide (a.effect = .notifyPeerClosed) && a.succeeded) = 1 ↔
      reason ≠ .loc := by
  cases h with
  | all =>
    rw [countP_allApplied]
    cases reason <;> simp [CloseReason.effects]
  | @cut done rest effect n h hfail =>
    -- Only the goodbye of a session that hangs up can fail.
    have hsend : ∃ message, effect = .send message := by
      cases effect with
      | send message => exact ⟨message, rfl⟩
      | notifyPeerClosed =>
        rw [Outcomes.of, hcommand] at hfail
        cases hfail
      | closeSocket => cases hfail
      | handleNodeMessage message => cases hfail
      | unregister => cases hfail
    obtain ⟨message, rfl⟩ := hsend
    have hmem : WsEffect.send message ∈ reason.effects := by simp [h]
    have hloc : reason = .loc := by
      cases reason with
      | loc => rfl
      | remote => simp [CloseReason.effects] at hmem
      | transport => simp [CloseReason.effects] at hmem
    have hnot : .notifyPeerClosed ∉ done := by
      intro hin
      have hall : .notifyPeerClosed ∈ reason.effects := by simp [h, hin]
      simp [hloc, CloseReason.effects] at hall
    rw [List.countP_append, countP_allApplied, List.count_eq_zero_of_not_mem hnot]
    exact iff_of_false (by simp) (not_not.mpr hloc)

end Counts

/-- A session that ends has been unregistered exactly once if and only if no effect failed
after it began to close. -/
theorem unregistered_iff (outcomes : Outcomes) (peerId : NodeId) (now : Instant)
    (events : List (Instant × WsEvent)) (s : WsSession)
    (h : Ends outcomes (start peerId now) events s) :
    s.times .unregister = 1 ↔ ∀ a ∈ s.applied, a.phase = .closing → a.succeeded = true := by
  obtain ⟨before, out, _, _, _, _, reason, happlied, hbefore, _, _, _, _, _, hout⟩ :=
    h.of_opened (.of_nil _ rfl rfl)
  have hclosing : ∀ a ∈ out, a.phase = .closing := by
    intro a ha
    cases hout with
    | all =>
      obtain ⟨e, _, rfl⟩ := List.mem_map.mp ha
      rfl
    | cut =>
      rcases List.mem_append.mp ha with hdone | hlast
      · obtain ⟨e, _, rfl⟩ := List.mem_map.mp hdone
        rfl
      · rw [List.mem_singleton.mp hlast]
  have happlied' : s.applied = before ++ out := happlied
  rw [times, happlied', List.countP_append, countP_eq_zero_of_routine id hbefore, Nat.zero_add,
    hout.unregister]
  constructor
  · intro hall a ha hphase
    rcases List.mem_append.mp ha with hb | ho
    · rw [(hbefore a hb).1] at hphase
      cases hphase
    · exact hall a ho
  · intro hall a ha
    exact hall a (List.mem_append_right _ ha) (hclosing a ha)

/-- The peer says goodbye. -/
def goodbye : List (Instant × WsEvent) := [(0, .fromWire .closeConnection)]

/-- A session to which the peer says goodbye is unregistered. -/
theorem unregistered_after_goodbye :
    ∃ s, Ends ⟨fun _ => true, fun _ => true⟩ (start 2 0) goodbye s ∧ s.times .unregister = 1 := by
  have hend : Ends ⟨fun _ => true, fun _ => true⟩ (start 2 0) goodbye _ :=
    .event 0 (.fromWire .closeConnection) rfl (.ended rfl)
  refine ⟨_, hend, (unregistered_iff _ 2 0 goodbye _ hend).mpr ?_⟩
  decide

/-- The manager shuts a session down. -/
def shutDown : List (Instant × WsEvent) := [(0, .control .shutdown)]

/-- A session whose goodbye cannot be sent is never unregistered. -/
theorem never_unregistered :
    ¬ ∀ (outcomes : Outcomes) (peerId : NodeId) (now : Instant) (events : List (Instant × WsEvent))
      (s : WsSession), Ends outcomes (start peerId now) events s → s.times .unregister = 1 := by
  intro h
  have hend : Ends ⟨fun _ => false, fun _ => true⟩ (start 2 0) shutDown _ :=
    .event 0 (.control .shutdown) rfl (.failed 0 rfl (.ended rfl))
  have hone := h _ 2 0 shutDown _ hend
  revert hone
  decide

/-- With the manager listening and no order to shut down, a session that ends has told the
manager exactly once if and only if it did not hang up by itself. -/
theorem peer_closed_sent_iff (outcomes : Outcomes) (peerId : NodeId) (now : Instant)
    (events : List (Instant × WsEvent)) (s : WsSession)
    (h : Ends outcomes (start peerId now) events s) (hcommand : ∀ n, outcomes.command n = true)
    (hshut : ∀ x ∈ events, x.2 ≠ .control .shutdown) :
    s.times .notifyPeerClosed = 1 ↔ ∀ x ∈ s.fed, ¬ x.1.HangsUp x.2 := by
  obtain ⟨before, out, earlier, later, peer, event, reason, happlied, hbefore, hfed, hearlier, hphase,
    hreason, hlater, hout⟩ := h.of_opened (.of_nil _ rfl rfl)
  have happlied' : s.applied = before ++ out := happlied
  have hfed' : s.fed = earlier ++ (peer, event) :: later := hfed
  rw [times, happlied', List.countP_append, countP_eq_zero_of_routine id hbefore, Nat.zero_add,
    hout.notify hcommand, hfed']
  have hevent : event ≠ .control .shutdown := by
    rintro rfl
    have hmem : (peer, .control .shutdown) ∈ s.fed := by simp [hfed']
    rcases h.mem_fed hmem with hnil | hdead | ⟨t, ht⟩
    · cases hnil
    · cases hdead
    · exact hshut _ ht rfl
  constructor
  · intro hne x hx hhang
    obtain ⟨hopened, hloc⟩ := hhang.closesBy
    rcases List.mem_append.mp hx with he | hrest
    · rw [hearlier x he] at hloc
      cases hloc
    · rcases List.mem_cons.mp hrest with rfl | hl
      · rw [hreason] at hloc
        exact hne (Option.some.inj hloc)
      · rw [hlater x hl] at hopened
        cases hopened
  · intro hall hloc
    rw [hloc] at hreason
    exact hall (peer, event) (by simp) (WsPeer.hangsUp_of_closesBy hphase hreason hevent)

/-- A session to which the peer says goodbye tells the manager. -/
theorem peer_closed_sent_after_goodbye :
    ∃ s, Ends ⟨fun _ => true, fun _ => true⟩ (start 2 0) goodbye s ∧ s.times .notifyPeerClosed = 1 := by
  have hend : Ends ⟨fun _ => true, fun _ => true⟩ (start 2 0) goodbye _ :=
    .event 0 (.fromWire .closeConnection) rfl (.ended rfl)
  refine ⟨_, hend, (peer_closed_sent_iff _ 2 0 goodbye _ hend (fun _ => rfl) (by decide)).mpr ?_⟩
  intro x hx
  rw [List.mem_singleton.mp hx]
  exact id

/-- The peer is silent for a minute. -/
def silence : List (Instant × WsEvent) := [(60000, .tick 60000)]

/-- A session that times out does not tell the manager. -/
theorem timeout_never_reported :
    ¬ ∀ (outcomes : Outcomes) (peerId : NodeId) (now : Instant) (events : List (Instant × WsEvent))
      (s : WsSession), Ends outcomes (start peerId now) events s →
        (∀ n, outcomes.command n = true) → (∀ x ∈ events, x.2 ≠ .control .shutdown) →
        s.times .notifyPeerClosed = 1 := by
  intro h
  have hend : Ends ⟨fun _ => true, fun _ => true⟩ (start 2 0) silence _ :=
    .event 60000 (.tick 60000) rfl (.ended rfl)
  have hone := h _ 2 0 silence _ hend (fun _ => rfl) (by decide)
  revert hone
  decide

end WsSession

end Anybus
