import Anybus.Ipc.Moves

/-!
# The sessions keep everything in order

Every part of what holds in a run survives the steps of the sessions: one lemma for each
part says what a step must do, and the moves do it.
-/

namespace Anybus

namespace Dials

variable {σ : Type} {s s' : Dials σ} {e : End}

section moved

variable {peer : IpcPeer (Control σ)} {wire out : List IpcMessage} {control : List IpcControl}
  {commands : List (IpcCommand (Control σ))} {close : Bool} {drawn : Nat}

@[simp] theorem moved_id (x : Bool) :
    (s.moved e peer wire control out commands close drawn).id x = s.id x := rfl

@[simp] theorem moved_listing (x : Bool) :
    (s.moved e peer wire control out commands close drawn).listing x = s.listing x := rfl

@[simp] theorem moved_readied (x : Bool) :
    (s.moved e peer wire control out commands close drawn).readied x = s.readied x := rfl

@[simp] theorem moved_session_self :
    (s.moved e peer wire control out commands close drawn).session e = peer := by
  simp [moved]

theorem moved_session_of_ne {f : End} (h : f ≠ e) :
    (s.moved e peer wire control out commands close drawn).session f = s.session f := by
  simp [moved, h]

@[simp] theorem moved_stage_self :
    (s.moved e peer wire control out commands close drawn).stage e = peer.state.stage := by
  simp [stage]

theorem moved_stage_of_ne {f : End} (h : f ≠ e) :
    (s.moved e peer wire control out commands close drawn).stage f = s.stage f := by
  simp [stage, moved_session_of_ne h]

theorem le_moved_counter (x : Bool) :
    s.counter x ≤ (s.moved e peer wire control out commands close drawn).counter x := by
  by_cases hx : x = e.1
  · subst hx
    simp [moved]
  · simp [moved, hx]

/-- A session stays itself if its new state fits what it knows. -/
theorem Identified.moved (hs : Identified s) (hours : peer.ourNodeid = (s.session e).ourNodeid)
    (hown : peer.control = (s.session e).control)
    (hexpected : peer.expected = (s.session e).expected) (htrack : peer.state.stage ≠ .stray)
    (hest : peer.state.stage ≠ .greeting → peer.state.stage ≠ .awaiting → peer.established = true)
    (hreg : peer.state ≠ .hello → peer.state ≠ .helloSent → ∃ c, peer.peer = some ⟨s.id !e.1, c⟩)
    (hrec : ∀ p c, peer.state = .helloReceived p c → peer.peer = some ⟨p, c⟩)
    (hpeer : peer.peer = (s.session e).peer ∨
      drawn = 1 ∧ peer.peer = some ⟨s.id !e.1, s.counter e.1⟩) :
    Identified (s.moved e peer wire control out commands close drawn) where
  ours f := by
    by_cases hf : f = e
    · subst hf
      rw [moved_session_self, hours]
      exact hs.ours f
    · rw [moved_session_of_ne hf]
      exact hs.ours f
  own f := by
    by_cases hf : f = e
    · subst hf
      rw [moved_session_self, hown]
      exact hs.own f
    · rw [moved_session_of_ne hf]
      exact hs.own f
  expected f := by
    by_cases hf : f = e
    · subst hf
      rw [moved_session_self, hexpected]
      exact hs.expected f
    · rw [moved_session_of_ne hf]
      exact hs.expected f
  onTrack f := by
    by_cases hf : f = e
    · subst hf
      rwa [moved_stage_self]
    · rw [moved_stage_of_ne hf]
      exact hs.onTrack f
  established f := by
    by_cases hf : f = e
    · subst hf
      rwa [moved_stage_self, moved_session_self]
    · rw [moved_stage_of_ne hf, moved_session_of_ne hf]
      exact hs.established f
  registered f := by
    by_cases hf : f = e
    · subst hf
      rwa [moved_session_self]
    · rw [moved_session_of_ne hf]
      exact hs.registered f
  received f p c := by
    by_cases hf : f = e
    · subst hf
      rw [moved_session_self]
      exact hrec p c
    · rw [moved_session_of_ne hf]
      exact hs.received f p c
  counted f r hr := by
    by_cases hf : f = e
    · subst hf
      rw [moved_session_self] at hr
      rcases hpeer with hold | ⟨rfl, hnew⟩
      · rw [hold] at hr
        exact (hs.counted f r hr).trans_le (le_moved_counter f.1)
      · rw [hnew] at hr
        obtain rfl := Option.some.inj hr
        simp [Dials.moved]
    · rw [moved_session_of_ne hf] at hr
      exact (hs.counted f r hr).trans_le (le_moved_counter f.1)
  distinct f r r' hr hr' := by
    by_cases hf : f = e
    · subst hf
      have hother : (f.1, !f.2) ≠ f := by simp [Prod.ext_iff]
      rw [moved_session_self] at hr
      rw [moved_session_of_ne hother] at hr'
      rcases hpeer with hold | ⟨rfl, hnew⟩
      · rw [hold] at hr
        exact hs.distinct f r r' hr hr'
      · rw [hnew] at hr
        obtain rfl := Option.some.inj hr
        exact (hs.counted _ r' hr').ne'
    · rw [moved_session_of_ne hf] at hr
      by_cases hg : (f.1, !f.2) = e
      · obtain rfl := hg
        rw [moved_session_self] at hr'
        rcases hpeer with hold | ⟨rfl, hnew⟩
        · rw [hold] at hr'
          exact hs.distinct f r r' hr hr'
        · rw [hnew] at hr'
          obtain rfl := Option.some.inj hr'
          exact (hs.counted f r hr).ne
      · rw [moved_session_of_ne hg] at hr'
        exact hs.distinct f r r' hr hr'

theorem moved_wire_self :
    (s.moved e peer wire control out commands close drawn).wire e = wire := by
  simp [moved]

theorem moved_wire_far :
    (s.moved e peer wire control out commands close drawn).wire e.far = s.wire e.far ++ out := by
  simp [moved]

theorem moved_wire_of_ne {f : End} (h : f ≠ e) (h' : f ≠ e.far) :
    (s.moved e peer wire control out commands close drawn).wire f = s.wire f := by
  simp [moved, h, h']

theorem moved_commands_self :
    (s.moved e peer wire control out commands close drawn).commands e.1 =
      s.commands e.1 ++ commands := by
  simp [moved]

theorem moved_commands_of_ne {x : Bool} (h : x ≠ e.1) :
    (s.moved e peer wire control out commands close drawn).commands x = s.commands x := by
  simp [moved, h]

theorem moved_announced_self :
    (s.moved e peer wire control out commands close drawn).announced e.1 =
      s.announced e.1 ++ commands.filterMap readyOf := by
  simp [announced, moved_commands_self]

theorem moved_announced_of_ne {x : Bool} (h : x ≠ e.1) :
    (s.moved e peer wire control out commands close drawn).announced x = s.announced x := by
  simp [announced, moved_commands_of_ne h]

/-- A session whose report is still in the queue is announced. -/
theorem Announced.mem_of_ready (hs : Announced s) {x k : Bool} {p : NodeId} {c : ConnectionId}
    (h : .sessionReady p (.inl k) c ∈ s.commands x) : s.stage (x, k) ≠ .greeting := by
  refine (hs.mem_announced (x, k)).mp (List.mem_append_right _ ?_)
  exact List.mem_filterMap.mpr ⟨_, h, rfl⟩

/-- The queue stays as it should if a session reports once that it is ready, and once that
it is over. -/
theorem Announced.moved (hs : Announced s) (hover : s.stage e ≠ .over)
    (hkeep : s.stage e ≠ .greeting → peer.peer = (s.session e).peer)
    (hann : (commands.filterMap readyOf = [] ∧
        (peer.state.stage = .greeting ↔ s.stage e = .greeting)) ∨
      (commands.filterMap readyOf = [e.2] ∧ s.stage e = .greeting ∧ peer.state.stage ≠ .greeting))
    (hready : ∀ p t c, .sessionReady p t c ∈ commands → t = .inl e.2 ∧ peer.peer = some ⟨p, c⟩)
    (hreport : ∀ p c, .peerClosed p c ∈ commands →
      peer.peer = some ⟨p, c⟩ ∧ peer.state.stage = .over) :
    Announced (s.moved e peer wire control out commands close drawn) where
  nodup x := by
    by_cases hx : x = e.1
    · subst hx
      rw [moved_announced_self]
      rcases hann with ⟨hnil, -⟩ | ⟨hone, hst, -⟩
      · rw [hnil, List.append_nil]
        exact hs.nodup e.1
      · have hfresh : e.2 ∉ s.announced e.1 := fun hm => (hs.mem_announced e).mp hm hst
        rw [hone]
        simpa using List.Nodup.concat hfresh (hs.nodup e.1)
    · rw [moved_announced_of_ne hx]
      exact hs.nodup x
  mem_announced f := by
    by_cases hf : f = e
    · subst hf
      rw [moved_announced_self, moved_stage_self, List.mem_append, hs.mem_announced]
      rcases hann with ⟨hnil, hiff⟩ | ⟨hone, -, hnew⟩
      · simp [hnil, hiff]
      · simp [hone, hnew]
    rw [moved_stage_of_ne hf, ← hs.mem_announced]
    by_cases hx : f.1 = e.1
    · have hk : f.2 ≠ e.2 := fun hk => hf (Prod.ext hx hk)
      rw [hx, moved_announced_self]
      rcases hann with ⟨hnil, -⟩ | ⟨hone, -⟩
      · simp [hnil]
      · simp [hone, hk]
    · rw [moved_announced_of_ne hx]
  ready x p t c h := by
    have hold : .sessionReady p t c ∈ s.commands x → ∃ k, t = .inl k ∧
        ((s.moved e peer wire control out commands close drawn).session (x, k)).peer =
          some ⟨p, c⟩ := by
      intro hc
      obtain ⟨k, rfl, hk⟩ := hs.ready x p t c hc
      refine ⟨k, rfl, ?_⟩
      by_cases hf : (x, k) = e
      · subst hf
        rw [moved_session_self, hkeep (hs.mem_of_ready hc), hk]
      · rw [moved_session_of_ne hf, hk]
    by_cases hx : x = e.1
    · subst hx
      rw [moved_commands_self, List.mem_append] at h
      rcases h with h | h
      · exact hold h
      · obtain ⟨rfl, hp⟩ := hready p t c h
        exact ⟨e.2, rfl, by rw [Prod.mk.eta, moved_session_self, hp]⟩
    · rw [moved_commands_of_ne hx] at h
      exact hold h
  reported x p c h := by
    have hold : .peerClosed p c ∈ s.commands x → ∃ k,
        ((s.moved e peer wire control out commands close drawn).session (x, k)).peer =
            some ⟨p, c⟩ ∧
          (s.moved e peer wire control out commands close drawn).stage (x, k) = .over := by
      intro h
      obtain ⟨k, hk, hst⟩ := hs.reported x p c h
      have hf : (x, k) ≠ e := by
        rintro rfl
        exact hover hst
      exact ⟨k, by rw [moved_session_of_ne hf, hk], by rw [moved_stage_of_ne hf, hst]⟩
    by_cases hx : x = e.1
    · subst hx
      rw [moved_commands_self, List.mem_append] at h
      rcases h with h | h
      · exact hold h
      · obtain ⟨hp, hst⟩ := hreport p c h
        exact ⟨e.2, by rw [Prod.mk.eta, moved_session_self, hp],
          by rw [Prod.mk.eta, moved_stage_self, hst]⟩
    · rw [moved_commands_of_ne hx] at h
      exact hold h

theorem moved_control_self :
    (s.moved e peer wire control out commands close drawn).control e = control := by
  simp [moved]

theorem moved_control_of_ne {f : End} (h : f ≠ e) :
    (s.moved e peer wire control out commands close drawn).control f = s.control f := by
  simp [moved, h]

/-- How a step changes the stage of a session and what it is still to be told. -/
inductive Shift (old new : Stage) (before rest : List IpcControl) : Prop where
  | greet (hold : old = .greeting) (hnew : new = .greeting ∨ new = .awaiting) (h : before = rest)
  | accept (hold : old = .awaiting) (hnew : new = .live) (h : before = .accepted :: rest)
  | talk (hold : old = .live) (hnew : new = .live) (h : before = rest)
  | leave (hold : old ≠ .greeting ∧ old ≠ .awaiting ∧ old ≠ .over)
      (hnew : new ≠ .greeting ∧ new ≠ .awaiting ∧ new ≠ .live)
      (h : before = rest ∨ before = .shutdown :: rest)

/-- A manager's view of its sessions survives their steps. -/
theorem Managed.moved (hs : Managed s) (ha : Announced s)
    (hkeep : s.stage e ≠ .greeting → peer.peer = (s.session e).peer)
    (hshift : Shift (s.stage e) peer.state.stage (s.control e) control)
    (hreport : peer.state.stage = .over →
      ∀ c, peer.peer = some ⟨s.id !e.1, c⟩ → .peerClosed (s.id !e.1) c ∈ commands) :
    Managed (s.moved e peer wire control out commands close drawn) := by
  have hmem : e.2 ∈ s.readied e.1 → s.stage e ≠ .greeting := fun h =>
    (ha.mem_announced e).mp (List.mem_append_left _ h)
  have hover : s.stage e ≠ .over := by
    cases hshift with
    | leave hold hnew h => exact hold.2.2
    | greet hold | accept hold | talk hold => simp [hold]
  refine ⟨fun f hf => ?_, hs.unlisted, fun x k l hl => ?_, fun x k l hl => ?_, fun f hf => ?_⟩
  · by_cases hfe : f = e
    · subst hfe
      obtain ⟨hcontrol, hstage⟩ := hs.unheard f hf
      rw [moved_control_self, moved_stage_self]
      cases hshift with
      | greet hold hnew h => exact ⟨h.symm.trans hcontrol, hnew⟩
      | accept hold hnew h => simp [hcontrol] at h
      | talk hold hnew h => simp [hold] at hstage
      | leave hold hnew h => simp [hold] at hstage
    · rw [moved_control_of_ne hfe, moved_stage_of_ne hfe]
      exact hs.unheard f hf
  · have hcontrol := hs.accepted x k l hl
    by_cases hfe : (x, k) = e
    · subst hfe
      have hgreet := hmem (by rw [show s.readied x = l ++ [k] from hl]; simp)
      rw [moved_control_self, moved_stage_self]
      cases hshift with
      | greet hold hnew h => exact absurd hold hgreet
      | accept hold hnew h => simpa [h, hold, hnew] using hcontrol
      | talk hold hnew h => simpa [h, hold, hnew] using hcontrol
      | leave hold hnew h =>
        rw [if_neg hold.2.1] at hcontrol
        rw [if_neg hnew.2.1]
        rcases h with h | h
        · exact h.symm.trans hcontrol
        · simp [hcontrol] at h
    · rw [moved_control_of_ne hfe, moved_stage_of_ne hfe]
      exact hcontrol
  · have hmono : ∀ c, c ∈ s.commands x →
        c ∈ (s.moved e peer wire control out commands close drawn).commands x := by
      intro c hc
      by_cases hx : x = e.1
      · subst hx
        rw [moved_commands_self]
        exact List.mem_append_left _ hc
      · rwa [moved_commands_of_ne hx]
    by_cases hfe : (x, k) = e
    · subst hfe
      have hgreet := hmem (by rw [show s.readied x = l ++ [k] from hl]; simp)
      rcases hs.listed x k l hl with ⟨-, hst⟩ | ⟨c, hlist, hpeer, -⟩
      · exact absurd hst hover
      · refine .inr ⟨c, hlist, ?_, fun hst => ?_⟩
        · rw [moved_session_self, hkeep hgreet, hpeer]
          rfl
        · rw [moved_stage_self] at hst
          rw [moved_id, show x = (x, k).1 from rfl, moved_commands_self]
          exact List.mem_append_right _ (hreport hst c (by rw [hkeep hgreet, hpeer]))
    · rw [moved_stage_of_ne hfe, moved_session_of_ne hfe]
      rcases hs.listed x k l hl with h | ⟨c, hlist, hpeer, hst⟩
      · exact .inl h
      · exact .inr ⟨c, hlist, hpeer, fun h => hmono _ (hst h)⟩
  · have hold' := hs.shutDown f hf
    by_cases hfe : f = e
    · subst hfe
      have hgreet := hmem (by rw [show s.readied f.1 = _ from hf]; simp)
      rw [moved_control_self, moved_stage_self]
      cases hshift with
      | greet hold hnew h => exact absurd hold hgreet
      | accept hold hnew h => simpa [h, hold, hnew] using hold'
      | talk hold hnew h => simpa [h, hold, hnew] using hold'
      | leave hold hnew h =>
        exact ⟨fun h => absurd h hnew.2.1, fun h => absurd h hnew.2.2⟩
    · rw [moved_control_of_ne hfe, moved_stage_of_ne hfe]
      exact hold'

/-- The wires stay as they should while sessions greet: the one that greets does only that,
and the others have greeted before. -/
theorem Greeting.moved (hs : Greeting s) (hp : peer.state ≠ .hello)
    (h : ((s.session e).state = .hello ∧ peer.state = .helloSent ∧ wire = s.wire e ∧
        out = [.hello (s.id e.1)]) ∨
      ((s.session e).state ≠ .hello ∧ peer.state ≠ .helloSent ∧
        ((s.session e).state = .helloSent → s.wire e ≠ []))) :
    Greeting (s.moved e peer wire control out commands close drawn) where
  silent f hf := by
    by_cases hfe : f = e
    · subst hfe
      rw [moved_session_self] at hf
      exact absurd hf hp
    rw [moved_session_of_ne hfe] at hf
    obtain ⟨hwire, hfar⟩ := hs.silent f hf
    by_cases hfar' : f.far = e
    · obtain rfl : f = e.far := by rw [← hfar', End.far_far]
      rw [End.far_far] at hwire hfar ⊢
      rw [moved_wire_self, moved_session_self]
      rcases h with ⟨_, hsent, rfl, _⟩ | ⟨hne, _, hwire'⟩
      · exact ⟨hwire, .inr hsent⟩
      · rcases hfar with hfar | hfar
        · exact absurd hfar hne
        · exact absurd hwire (hwire' hfar)
    · have hfe' : f.far ≠ e.far := fun hc => hfe (by rw [← f.far_far, hc, End.far_far])
      rw [moved_wire_of_ne hfar' hfe', moved_session_of_ne hfar']
      exact ⟨hwire, hfar⟩
  greeted f hf hfar := by
    by_cases hfe : f = e
    · subst hfe
      rw [moved_session_self] at hf
      rw [moved_session_of_ne f.far_ne] at hfar
      rw [moved_wire_self]
      rcases h with ⟨hhello, _, rfl, _⟩ | ⟨_, hsent, _⟩
      · exact hs.greeted f (.inl hhello) hfar
      · rcases hf with hf | hf
        · exact absurd hf hp
        · exact absurd hf hsent
    rw [moved_session_of_ne hfe] at hf
    by_cases hfar' : f = e.far
    · subst hfar'
      rw [moved_wire_far]
      rcases h with ⟨hhello, _, _, rfl⟩ | ⟨hne, _, _⟩
      · rw [(hs.silent e hhello).1]
        exact ⟨[], by simp⟩
      · obtain ⟨rest, hrest⟩ := hs.greeted e.far hf (by rwa [End.far_far])
        exact ⟨rest ++ out, by rw [hrest]; rfl⟩
    · have hfe' : f.far ≠ e := fun hc => hfar' (by rw [← hc, End.far_far])
      rw [moved_session_of_ne hfe'] at hfar
      rw [moved_wire_of_ne hfe hfar']
      exact hs.greeted f hf hfar

theorem moved_replaced {f : End} :
    (s.moved e peer wire control out commands close drawn).Replaced f ↔ s.Replaced f := Iff.rfl

/-- Sessions still end only when one of the two has been replaced. -/
theorem Ending.moved (hs : Ending s)
    (hclosed : (close = true ∧ peer.state.stage = .closed) ∨
      (close = false ∧ ((peer.state.stage = .closed ∨ peer.state.stage = .over) ↔
        (s.stage e = .closed ∨ s.stage e = .over))))
    (hleave : peer.state.stage = .leaving ∨ peer.state.stage = .closed ∨ peer.state.stage = .over →
      s.Closing e ∨ s.Closing e.far)
    (hcontrol : ∀ c ∈ control, c ∈ s.control e) (hwire : ∀ m ∈ wire, m ∈ s.wire e)
    (hout : .closeConnection ∈ out → s.Closing e) :
    Ending (s.moved e peer wire control out commands close drawn) := by
  have hboth : ∀ f, s.Closing f ∨ s.Closing f.far → s.Replaced f ∨ s.Replaced f.far := by
    rintro f (h | h)
    · exact hs.closing f h
    · have hfar := hs.closing f.far h
      rw [End.far_far] at hfar
      exact hfar.symm
  refine ⟨fun f => ?_, fun f hf => ?_⟩
  · by_cases hfe : f = e
    · subst hfe
      have hiff := hs.closed_iff f
      rw [moved_stage_self]
      rcases hclosed with ⟨rfl, hst⟩ | ⟨rfl, hst⟩
      · simp [Dials.moved, hst]
      · simp [Dials.moved, hst, hiff]
    · rw [moved_stage_of_ne hfe, ← hs.closed_iff f]
      simp [Dials.moved, hfe]
  · rw [moved_replaced, moved_replaced]
    apply hboth
    by_cases hfe : f = e
    · subst hfe
      rw [Closing, moved_stage_self, moved_control_self, moved_wire_far, List.mem_append] at hf
      rcases hf with h | h | h | h | h | h
      · exact hleave (.inl h)
      · exact hleave (.inr (.inl h))
      · exact hleave (.inr (.inr h))
      · exact .inl (.inr (.inr (.inr (.inl (hcontrol _ h)))))
      · exact .inl (.inr (.inr (.inr (.inr h))))
      · exact .inl (hout h)
    · rw [Closing, moved_stage_of_ne hfe, moved_control_of_ne hfe] at hf
      have hf' : s.Closing f := by
        rcases hf with h | h | h | h | h
        · exact .inl h
        · exact .inr (.inl h)
        · exact .inr (.inr (.inl h))
        · exact .inr (.inr (.inr (.inl h)))
        · refine .inr (.inr (.inr (.inr ?_)))
          by_cases hfar : f.far = e
          · rw [hfar] at h ⊢
            rw [moved_wire_self] at h
            exact hwire _ h
          · have hne : f.far ≠ e.far := fun hc => hfe (by rw [← f.far_far, hc, End.far_far])
            rwa [moved_wire_of_ne hfar hne] at h
      exact .inl hf'

end moved

/-- A session never forgets who it talks to. -/
theorem Move.identified (hinv : Inv s) (h : Move s e s') : Identified s' := by
  have hs := hinv.toIdentified
  have hreg : s.stage e ≠ .greeting → ∃ c, (s.session e).peer = some ⟨s.id !e.1, c⟩ := by
    intro hst
    refine hs.registered e (fun h => hst ?_) (fun h => hst ?_) <;> simp [stage, h, IpcState.stage]
  have hest := hs.established e
  cases h with
  | greet h =>
    exact hs.moved rfl rfl rfl (by simp [IpcPeer.goto, IpcState.stage]) (by simp [IpcPeer.goto, IpcState.stage])
      (by simp [IpcPeer.goto]) (by simp [IpcPeer.goto]) (.inl rfl)
  | greeted h hwire =>
    exact hs.moved rfl rfl rfl (by simp [IpcState.stage]) (by simp [IpcState.stage]) (by simp)
      (by simp) (.inr ⟨rfl, rfl⟩)
  | announce h hpeer =>
    exact hs.moved rfl rfl rfl (by simp [IpcPeer.goto, IpcState.stage]) (by simp [IpcPeer.goto, IpcState.stage])
      (fun _ _ => ⟨_, hpeer⟩) (by simp [IpcPeer.goto]) (.inl rfl)
  | accept h hcontrol =>
    exact hs.moved rfl rfl rfl (by simp [IpcState.stage]) (by simp)
      (fun _ _ => hreg (by simp [stage, h, IpcState.stage])) (by simp) (.inl rfl)
  | talk state hb wire out commands h h' hwire hout hcommands =>
    refine hs.moved rfl rfl rfl (by simp [h']) (fun _ _ => hest (by simp [h]) (by simp [h]))
      (fun _ _ => hreg (by simp [h])) (fun p c hst => ?_) (.inl rfl)
    obtain rfl : state = _ := hst
    cases h'
  | hangUp state hb wire control h h' hwire hcontrol hwhy =>
    refine hs.moved rfl rfl rfl (by simp [h']) (fun _ _ => hest (by simp [h]) (by simp [h]))
      (fun _ _ => hreg (by simp [h])) (fun p c hst => ?_) (.inl rfl)
    obtain rfl : state = _ := hst
    cases h'
  | leave state out h h' =>
    refine hs.moved rfl rfl rfl (by simp [h', IpcPeer.goto])
      (fun _ _ => hest (by simp [h]) (by simp [h])) (fun _ _ => hreg (by simp [h]))
      (fun p c hst => ?_) (.inl rfl)
    obtain rfl : state = _ := hst
    cases h'
  | close h =>
    exact hs.moved rfl rfl rfl (by simp [IpcPeer.goto, IpcState.stage]) (fun _ _ => hest (by simp [h]) (by simp [h]))
      (fun _ _ => hreg (by simp [h])) (by simp [IpcPeer.goto]) (.inl rfl)
  | report h hpeer =>
    have hst : s.stage e = .closed := by simp [stage, h, IpcState.stage]
    exact hs.moved rfl rfl rfl (by simp [IpcPeer.goto, IpcState.stage]) (fun _ _ => hest (by simp [hst]) (by simp [hst]))
      (fun _ _ => ⟨_, hpeer⟩) (by simp [IpcPeer.goto]) (.inl rfl)

/-- A session past its greeting is in no state of the greeting. -/
theorem not_greeting {state : IpcState} (h : state.stage ≠ .greeting) :
    state ≠ .hello ∧ state ≠ .helloSent := by
  constructor <;> intro hst <;> exact h (by rw [hst]; rfl)

theorem Move.greeting (hinv : Inv s) (h : Move s e s') : Greeting s' := by
  have hs := hinv.toGreeting
  -- a move of a session that has been announced
  have late : ∀ {peer : IpcPeer (Control σ)} {wire out : List IpcMessage} {control : List IpcControl}
      {commands : List (IpcCommand (Control σ))} {close : Bool}, s.stage e ≠ .greeting →
      peer.state.stage ≠ .greeting →
      Greeting (s.moved e peer wire control out commands close 0) := by
    intro peer wire out control commands close hold hnew
    refine hs.moved (not_greeting hnew).1 (.inr ⟨(not_greeting hold).1, (not_greeting hnew).2, ?_⟩)
    intro hst
    exact absurd hst (not_greeting hold).2
  cases h with
  | greet h => exact hs.moved (by simp [IpcPeer.goto]) (.inl ⟨h, rfl, rfl, rfl⟩)
  | greeted h hwire =>
    exact hs.moved (by simp) (.inr ⟨by simp [h], by simp, fun _ => by simp [hwire]⟩)
  | announce h hpeer =>
    exact hs.moved (by simp [IpcPeer.goto])
      (.inr ⟨by simp [h], by simp [IpcPeer.goto], by simp [h]⟩)
  | accept h hcontrol => exact late (by simp [stage, h, IpcState.stage]) (by simp [IpcState.stage])
  | talk state hb wire out commands h h' hwire hout hcommands =>
    exact late (by simp [h]) (by simp [h'])
  | hangUp state hb wire control h h' hwire hcontrol hwhy =>
    exact late (by simp [h]) (by simp [h'])
  | leave state out h h' => exact late (by simp [h]) (by simp [h', IpcPeer.goto])
  | close h => exact late (by simp [h]) (by simp [IpcPeer.goto, IpcState.stage])
  | report h hpeer =>
    exact late (by simp [stage, h, IpcState.stage]) (by simp [IpcPeer.goto, IpcState.stage])

theorem Move.announced (hinv : Inv s) (h : Move s e s') : Announced s' := by
  have hs := hinv.toAnnounced
  cases h with
  | greet h =>
    have hst : s.stage e = .greeting := by simp [stage, h, IpcState.stage]
    exact hs.moved (by simp [hst]) (fun _ => rfl) (.inl ⟨rfl, by simp [IpcPeer.goto, IpcState.stage, hst]⟩)
      (by simp) (by simp)
  | greeted h hwire =>
    have hst : s.stage e = .greeting := by simp [stage, h, IpcState.stage]
    exact hs.moved (by simp [hst]) (fun hne => absurd hst hne)
      (.inl ⟨rfl, by simp [IpcState.stage, hst]⟩) (by simp) (by simp)
  | announce h hpeer =>
    have hst : s.stage e = .greeting := by simp [stage, h, IpcState.stage]
    refine hs.moved (by simp [hst]) (fun _ => rfl)
      (.inr ⟨rfl, hst, by simp [IpcPeer.goto, IpcState.stage]⟩) (fun p t c hc => ?_) (by simp)
    obtain ⟨rfl, rfl, rfl⟩ : p = _ ∧ t = _ ∧ c = _ := by simpa using hc
    exact ⟨rfl, hpeer⟩
  | accept h hcontrol =>
    have hst : s.stage e = .awaiting := by simp [stage, h, IpcState.stage]
    exact hs.moved (by simp [hst]) (fun _ => rfl) (.inl ⟨rfl, by simp [IpcState.stage, hst]⟩) (by simp)
      (by simp)
  | talk state hb wire out commands h h' hwire hout hcommands =>
    refine hs.moved (by simp [h]) (fun _ => rfl) (.inl ⟨?_, by simp [h, h']⟩) (fun p t c hc => ?_)
      (fun p c hc => ?_)
    · rw [List.filterMap_eq_nil_iff]
      intro c hc
      obtain ⟨ids, rfl⟩ := hcommands c hc
      rfl
    · obtain ⟨ids, hids⟩ := hcommands _ hc
      cases hids
    · obtain ⟨ids, hids⟩ := hcommands _ hc
      cases hids
  | hangUp state hb wire control h h' hwire hcontrol hwhy =>
    exact hs.moved (by simp [h]) (fun _ => rfl) (.inl ⟨rfl, by simp [h, h']⟩) (by simp) (by simp)
  | leave state out h h' =>
    exact hs.moved (by simp [h]) (fun _ => rfl) (.inl ⟨rfl, by simp [h, h', IpcPeer.goto]⟩) (by simp)
      (by simp)
  | close h =>
    exact hs.moved (by simp [h]) (fun _ => rfl) (.inl ⟨rfl, by simp [h, IpcPeer.goto, IpcState.stage]⟩)
      (by simp) (by simp)
  | report h hpeer =>
    have hst : s.stage e = .closed := by simp [stage, h, IpcState.stage]
    refine hs.moved (by simp [hst]) (fun _ => rfl)
      (.inl ⟨rfl, by simp [hst, IpcPeer.goto, IpcState.stage]⟩) (by simp) (fun p c hc => ?_)
    obtain ⟨rfl, rfl⟩ : p = _ ∧ c = _ := by simpa using hc
    exact ⟨hpeer, rfl⟩

theorem Move.managed (hinv : Inv s) (h : Move s e s') : Managed s' := by
  have hs := hinv.toManaged
  have ha := hinv.toAnnounced
  cases h with
  | greet h =>
    exact hs.moved ha (fun _ => rfl)
      (.greet (by simp [stage, h, IpcState.stage]) (.inl rfl) rfl) (fun hst => by cases hst)
  | greeted h hwire =>
    have hst : s.stage e = .greeting := by simp [stage, h, IpcState.stage]
    exact hs.moved ha (fun hne => absurd hst hne) (.greet hst (.inl rfl) rfl)
      (fun hst => by cases hst)
  | announce h hpeer =>
    exact hs.moved ha (fun _ => rfl)
      (.greet (by simp [stage, h, IpcState.stage]) (.inr rfl) rfl) (fun hst => by cases hst)
  | accept h hcontrol =>
    exact hs.moved ha (fun _ => rfl)
      (.accept (by simp [stage, h, IpcState.stage]) rfl hcontrol) (fun hst => by cases hst)
  | talk state hb wire out commands h h' hwire hout hcommands =>
    exact hs.moved ha (fun _ => rfl) (.talk h h' rfl) (fun hst => by simp [h'] at hst)
  | hangUp state hb wire control h h' hwire hcontrol hwhy =>
    exact hs.moved ha (fun _ => rfl) (.leave (by simp [h]) (by simp [h']) hcontrol)
      (fun hst => by simp [h'] at hst)
  | leave state out h h' =>
    exact hs.moved ha (fun _ => rfl) (.leave (by simp [h]) (by simp [h', IpcPeer.goto]) (.inl rfl))
      (fun hst => by simp [h', IpcPeer.goto] at hst)
  | close h =>
    exact hs.moved ha (fun _ => rfl)
      (.leave (by simp [h]) (by simp [IpcPeer.goto, IpcState.stage]) (.inl rfl))
      (fun hst => by cases hst)
  | report h hpeer =>
    have hst : s.stage e = .closed := by simp [stage, h, IpcState.stage]
    refine hs.moved ha (fun _ => rfl)
      (.leave (by simp [hst]) (by simp [IpcPeer.goto, IpcState.stage]) (.inl rfl)) (fun _ c hc => ?_)
    obtain rfl : _ = c := by simpa [hpeer, IpcPeer.goto] using hc
    simp

theorem Move.ending (hinv : Inv s) (h : Move s e s') : Ending s' := by
  have hs := hinv.toEnding
  cases h with
  | greet h =>
    exact hs.moved (.inr ⟨rfl, by simp [stage, h, IpcPeer.goto, IpcState.stage]⟩)
      (by simp [IpcPeer.goto, IpcState.stage]) (by simp) (by simp) (by simp)
  | greeted h hwire =>
    exact hs.moved (.inr ⟨rfl, by simp [stage, h, IpcState.stage]⟩)
      (by simp [IpcState.stage]) (by simp) (fun m hm => by simp [hwire, hm]) (by simp)
  | announce h hpeer =>
    exact hs.moved (.inr ⟨rfl, by simp [stage, h, IpcPeer.goto, IpcState.stage]⟩)
      (by simp [IpcPeer.goto, IpcState.stage]) (by simp) (by simp) (by simp)
  | accept h hcontrol =>
    exact hs.moved (.inr ⟨rfl, by simp [stage, h, IpcState.stage]⟩)
      (by simp [IpcState.stage]) (fun c hc => by simp [hcontrol, hc]) (by simp) (by simp)
  | talk state hb wire out commands h h' hwire hout hcommands =>
    exact hs.moved (.inr ⟨rfl, by simp [h, h']⟩) (by simp [h']) (by simp) hwire
      (fun hm => absurd hm hout)
  | hangUp state hb wire control h h' hwire hcontrol hwhy =>
    refine hs.moved (.inr ⟨rfl, by simp [h, h']⟩) (fun _ => ?_) (fun c hc => ?_) hwire (by simp)
    · rcases hwhy with hw | hw | hw
      · exact .inl (.inr (.inr (.inr (.inl hw))))
      · exact .inr (.inr (.inr (.inr (.inr (by rwa [End.far_far])))))
      · rcases (hs.closed_iff e.far).mp hw with hw | hw
        · exact .inr (.inr (.inl hw))
        · exact .inr (.inr (.inr (.inl hw)))
    · rcases hcontrol with hcontrol | hcontrol <;> simp [hcontrol, hc]
  | leave state out h h' =>
    exact hs.moved (.inr ⟨rfl, by simp [h, h', IpcPeer.goto]⟩) (fun _ => .inl (.inl h)) (by simp)
      (by simp) (fun _ => .inl h)
  | close h =>
    exact hs.moved (.inl ⟨rfl, rfl⟩) (fun _ => .inl (.inl h)) (by simp) (by simp) (by simp)
  | report h hpeer =>
    have hst : s.stage e = .closed := by simp [stage, h, IpcState.stage]
    exact hs.moved (.inr ⟨rfl, by simp [hst, IpcPeer.goto, IpcState.stage]⟩)
      (fun _ => .inl (.inr (.inl hst))) (by simp) (by simp) (by simp)

/-- A step of a session keeps everything in order. -/
theorem Move.inv (hinv : Inv s) (h : Move s e s') : Inv s' where
  toIdentified := h.identified hinv
  toGreeting := h.greeting hinv
  toAnnounced := h.announced hinv
  toManaged := h.managed hinv
  toEnding := h.ending hinv

end Dials

end Anybus
