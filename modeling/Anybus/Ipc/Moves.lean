import Anybus.Ipc.TwoDials
import Mathlib.Data.List.Nodup
import Mathlib.Tactic.SplitIfs

/-!
# The steps of the four sessions

What holds in every run of the two nodes, and which steps a session can take as long as it
holds: it greets, is announced and accepted, talks, leaves, closes its end and reports.
-/

namespace Anybus

/-- The parts of a session's life. -/
inductive Stage where
  /-- The manager has not been told of the session. -/
  | greeting
  /-- The answer of the manager is awaited. -/
  | awaiting
  | live
  /-- The session is about to close its end. -/
  | leaving
  /-- The end is closed, the manager is not told yet. -/
  | closed
  | over
  /-- States that need a clock, a failure or a router that is gone. -/
  | stray
  deriving DecidableEq

def IpcState.stage : IpcState → Stage
  | .hello | .helloSent | .helloReceived _ _ => .greeting
  | .awaitAccepted => .awaiting
  | .sendPeers | .waitForMessages | .sendPing | .nodeMessageReceived _ => .live
  | .ipcControlReceived message => if message = .shutdown then .leaving else .live
  | .ipcMessageReceived message => if message = .closeConnection then .leaving else .live
  | .shutdown | .closePeer | .handleError => .leaving
  | .streamClosed => .closed
  | .ended => .over
  | .abortHandshake | .handshakeAborted | .heartbeatTick | .panicked => .stray

@[simp] theorem End.far_far (e : End) : e.far.far = e := by simp [End.far]

@[simp] theorem End.far_ne (e : End) : e.far ≠ e := by simp [End.far, Prod.ext_iff]

@[simp] theorem End.ne_far (e : End) : e ≠ e.far := e.far_ne.symm

@[simp] theorem End.far_fst (e : End) : e.far.1 = !e.1 := rfl

@[simp] theorem End.far_snd (e : End) : e.far.2 = e.2 := rfl

namespace Dials

variable {σ : Type} {s s' : Dials σ} {e : End}

/-- The life of the session at an end. -/
def stage (s : Dials σ) (e : End) : Stage := (s.session e).state.stage

/-- The entries a manager has for the other node. -/
def listing (s : Dials σ) (x : Bool) : List (IpcEntry (Control σ)) :=
  (s.manager x).sessions (s.id !x)

/-- The sessions a manager was told of, answered or not. -/
def announced (s : Dials σ) (x : Bool) : List Bool :=
  s.readied x ++ (s.commands x).filterMap readyOf

/-- The session at an end has given way to the other one of its side. -/
def Replaced (s : Dials σ) (e : End) : Prop := s.readied e.1 = [e.2, !e.2]

/-- The session at an end is on its way out. -/
def Closing (s : Dials σ) (e : End) : Prop :=
  s.stage e = .leaving ∨ s.stage e = .closed ∨ s.stage e = .over ∨
    .shutdown ∈ s.control e ∨ .closeConnection ∈ s.wire e.far

/-- What a session knows of itself. -/
structure Identified (s : Dials σ) : Prop where
  ours (e : End) : (s.session e).ourNodeid = s.id e.1
  own (e : End) : (s.session e).control = .inl e.2
  expected (e : End) : (s.session e).expected = none ∨ (s.session e).expected = some (s.id !e.1)
  onTrack (e : End) : s.stage e ≠ .stray
  established (e : End) : s.stage e ≠ .greeting → s.stage e ≠ .awaiting →
    (s.session e).established = true
  registered (e : End) : (s.session e).state ≠ .hello → (s.session e).state ≠ .helloSent →
    ∃ c, (s.session e).peer = some ⟨s.id !e.1, c⟩
  received (e : End) (p : NodeId) (c : ConnectionId) :
    (s.session e).state = .helloReceived p c → (s.session e).peer = some ⟨p, c⟩
  counted (e : End) (r : RegisteredPeer) : (s.session e).peer = some r → r.connectionId < s.counter e.1
  distinct (e : End) (r r' : RegisteredPeer) : (s.session e).peer = some r →
    (s.session (e.1, !e.2)).peer = some r' → r.connectionId ≠ r'.connectionId

/-- What is on the wire while a session waits for the greeting of its peer. -/
structure Greeting (s : Dials σ) : Prop where
  silent (e : End) : (s.session e).state = .hello → s.wire e.far = [] ∧
    ((s.session e.far).state = .hello ∨ (s.session e.far).state = .helloSent)
  greeted (e : End) : (s.session e).state = .hello ∨ (s.session e).state = .helloSent →
    (s.session e.far).state ≠ .hello → ∃ rest, s.wire e = .hello (s.id !e.1) :: rest

/-- What is in the queue of a manager. -/
structure Announced (s : Dials σ) : Prop where
  nodup (x : Bool) : (s.announced x).Nodup
  mem_announced (e : End) : e.2 ∈ s.announced e.1 ↔ s.stage e ≠ .greeting
  ready (x : Bool) (p : NodeId) (t : Control σ) (c : ConnectionId) :
    .sessionReady p t c ∈ s.commands x →
      ∃ k, t = .inl k ∧ (s.session (x, k)).peer = some ⟨p, c⟩
  reported (x : Bool) (p : NodeId) (c : ConnectionId) : .peerClosed p c ∈ s.commands x →
    ∃ k, (s.session (x, k)).peer = some ⟨p, c⟩ ∧ s.stage (x, k) = .over

/-- What a manager has told the sessions of its side, and which one it lists. -/
structure Managed (s : Dials σ) : Prop where
  unheard (e : End) : e.2 ∉ s.readied e.1 →
    s.control e = [] ∧ (s.stage e = .greeting ∨ s.stage e = .awaiting)
  unlisted (x : Bool) : s.readied x = [] → s.listing x = []
  accepted (x k : Bool) (l : List Bool) : s.readied x = l ++ [k] →
    s.control (x, k) = if s.stage (x, k) = .awaiting then [.accepted] else []
  listed (x k : Bool) (l : List Bool) : s.readied x = l ++ [k] →
    (s.listing x = [] ∧ s.stage (x, k) = .over) ∨
      ∃ c, s.listing x = [⟨s.id !x, .inl k, c⟩] ∧ (s.session (x, k)).peer = some ⟨s.id !x, c⟩ ∧
        (s.stage (x, k) = .over → .peerClosed (s.id !x) c ∈ s.commands x)
  shutDown (e : End) : s.Replaced e →
    (s.stage e = .awaiting → s.control e = [.accepted, .shutdown]) ∧
      (s.stage e = .live → s.control e = [.shutdown])

/-- Why a session ends. -/
structure Ending (s : Dials σ) : Prop where
  closed_iff (e : End) : s.closed e = true ↔ s.stage e = .closed ∨ s.stage e = .over
  closing (e : End) : s.Closing e → s.Replaced e ∨ s.Replaced e.far

/-- What holds in every run. -/
structure Inv (s : Dials σ) : Prop extends
  Identified s, Greeting s, Announced s, Managed s, Ending s

/-- Both nodes after a step of the session at `e`: what it has become, what is left for it
to read, what it has sent and reported, whether it has closed its end and how many numbers
it has drawn. -/
def moved (s : Dials σ) (e : End) (peer : IpcPeer (Control σ)) (wire : List IpcMessage)
    (control : List IpcControl) (out : List IpcMessage) (commands : List (IpcCommand (Control σ)))
    (close : Bool) (drawn : Nat) : Dials σ :=
  { s with
    session := Function.update s.session e peer
    wire := Function.update (Function.update s.wire e wire) e.far (s.wire e.far ++ out)
    control := Function.update s.control e control
    commands := Function.update s.commands e.1 (s.commands e.1 ++ commands)
    closed := Function.update s.closed e (s.closed e || close)
    counter := Function.update s.counter e.1 (s.counter e.1 + drawn) }

/-- The steps of the session at `e`, by what it reads and what it leaves behind. -/
inductive Move (s : Dials σ) (e : End) : Dials σ → Prop where
  | greet (h : (s.session e).state = .hello) :
      Move s e (s.moved e ((s.session e).goto .helloSent) (s.wire e) (s.control e)
        [.hello (s.id e.1)] [] false 0)
  | greeted {rest : List IpcMessage} (h : (s.session e).state = .helloSent)
      (hwire : s.wire e = .hello (s.id !e.1) :: rest) :
      Move s e (s.moved e
        { s.session e with
          state := .helloReceived (s.id !e.1) (s.counter e.1)
          peer := some ⟨s.id !e.1, s.counter e.1⟩ } rest (s.control e) [] [] false 1)
  | announce {c : ConnectionId} (h : (s.session e).state = .helloReceived (s.id !e.1) c)
      (hpeer : (s.session e).peer = some ⟨s.id !e.1, c⟩) :
      Move s e (s.moved e ((s.session e).goto .awaitAccepted) (s.wire e) (s.control e) []
        [.sessionReady (s.id !e.1) (.inl e.2) c] false 0)
  | accept {rest : List IpcControl} (h : (s.session e).state = .awaitAccepted)
      (hcontrol : s.control e = .accepted :: rest) :
      Move s e (s.moved e { s.session e with state := .sendPeers, established := true } (s.wire e)
        rest [] [] false 0)
  | talk (state : IpcState) (hb : Heartbeat) (wire out : List IpcMessage)
      (commands : List (IpcCommand (Control σ))) (h : s.stage e = .live) (h' : state.stage = .live)
      (hwire : ∀ m ∈ wire, m ∈ s.wire e) (hout : .closeConnection ∉ out)
      (hcommands : ∀ c ∈ commands, ∃ ids, c = .learnedPeers ids) :
      Move s e (s.moved e { s.session e with state := state, hb := hb } wire (s.control e) out
        commands false 0)
  | hangUp (state : IpcState) (hb : Heartbeat) (wire : List IpcMessage) (control : List IpcControl)
      (h : s.stage e = .live) (h' : state.stage = .leaving) (hwire : ∀ m ∈ wire, m ∈ s.wire e)
      (hcontrol : s.control e = control ∨ s.control e = .shutdown :: control)
      (hwhy : .shutdown ∈ s.control e ∨ .closeConnection ∈ s.wire e ∨ s.closed e.far = true) :
      Move s e (s.moved e { s.session e with state := state, hb := hb } wire control [] [] false 0)
  | leave (state : IpcState) (out : List IpcMessage) (h : s.stage e = .leaving)
      (h' : state.stage = .leaving) :
      Move s e (s.moved e ((s.session e).goto state) (s.wire e) (s.control e) out [] false 0)
  | close (h : s.stage e = .leaving) :
      Move s e (s.moved e ((s.session e).goto .streamClosed) (s.wire e) (s.control e) [] [] true 0)
  | report {c : ConnectionId} (h : (s.session e).state = .streamClosed)
      (hpeer : (s.session e).peer = some ⟨s.id !e.1, c⟩) :
      Move s e (s.moved e ((s.session e).goto .ended) (s.wire e) (s.control e) []
        [.peerClosed (s.id !e.1) c] false 0)

theorem Move.of_eq {t : Dials σ} (h : Move s e t) (heq : s' = t) : Move s e s' := heq ▸ h

/-- Both nodes after the session at `e` has become `r.1` and done `r.2`. -/
def after (s : Dials σ) (e : End) (r : IpcPeer (Control σ) × List (IpcEffect (Control σ))) : Dials σ :=
  r.2.foldl (perform e) { s with session := Function.update s.session e r.1 }

theorem stepSession_eq_some {now : Instant} {input : IpcInput}
    (h : s.stepSession e now input = some s') :
    ∃ s₁ r, s.take e input = some s₁ ∧ (s.session e).next (s.context e now) input = some r ∧
      s' = s₁.after e r := by
  unfold stepSession at h
  obtain ⟨s₁, hs₁, h⟩ := Option.bind_eq_some_iff.mp h
  obtain ⟨r, hr, rfl⟩ := Option.map_eq_some_iff.mp h
  exact ⟨s₁, r, hs₁, hr, rfl⟩

theorem take_wrote {ok : Bool} {s₁ : Dials σ} (h : s.take e (.wrote ok) = some s₁) :
    s₁ = s ∧ (ok = false → s.closed e.far = true) := by
  simp only [take] at h
  split at h
  · rename_i hok
    refine ⟨(Option.some.inj h).symm, fun hf => ?_⟩
    simpa [hf] using hok
  · cases h

theorem take_told {ok : Bool} {s₁ : Dials σ} (h : s.take e (.told ok) = some s₁) :
    s₁ = s ∧ ok = true := by
  simp only [take] at h
  split at h
  · exact ⟨(Option.some.inj h).symm, ‹_›⟩
  · cases h

theorem take_read {m : Option (Option IpcMessage)} {s₁ : Dials σ}
    (h : s.take e (.read m) = some s₁) :
    (∃ message rest, m = some (some message) ∧ s.wire e = message :: rest ∧
        s₁ = { s with wire := Function.update s.wire e rest }) ∨
      ((m = none ∨ m = some none) ∧ s.wire e = [] ∧ s.closed e.far = true ∧ s₁ = s) := by
  rcases m with _ | _ | message
  · simp only [take, Bool.and_eq_true, List.isEmpty_iff] at h
    split at h
    · rename_i hc
      exact .inr ⟨.inl rfl, hc.1, hc.2, (Option.some.inj h).symm⟩
    · cases h
  · simp only [take, Bool.and_eq_true, List.isEmpty_iff] at h
    split at h
    · rename_i hc
      exact .inr ⟨.inr rfl, hc.1, hc.2, (Option.some.inj h).symm⟩
    · cases h
  · simp only [take] at h
    split at h
    · rename_i m rest hwire
      split at h
      · rename_i hm
        exact .inl ⟨message, rest, rfl, by rw [hwire, hm], (Option.some.inj h).symm⟩
      · cases h
    · cases h

theorem take_control {m : Option IpcControl} {s₁ : Dials σ}
    (h : s.take e (.control m) = some s₁) :
    ∃ message rest, m = some message ∧ s.control e = message :: rest ∧
      s₁ = { s with control := Function.update s.control e rest } := by
  rcases m with _ | message
  · cases h
  · simp only [take] at h
    split at h
    · rename_i m rest hcontrol
      split at h
      · rename_i hm
        exact ⟨message, rest, rfl, by rw [hcontrol, hm], (Option.some.inj h).symm⟩
      · cases h
    · cases h

/-- In a list of streams without repetitions a stream is the last one or the first of two. -/
theorem mem_nodup_cases {l : List Bool} (hl : l.Nodup) {k : Bool} (hk : k ∈ l) :
    (∃ l', l = l' ++ [k]) ∨ l = [k, !k] := by
  match l, hl, hk with
  | [a], _, hk =>
    obtain rfl : k = a := by simpa using hk
    exact .inl ⟨[], rfl⟩
  | [a, b], hl, hk =>
    have hab : b = !a := by
      have hne : a ≠ b := by simpa using hl
      cases a <;> cases b <;> simp_all
    rcases List.mem_cons.mp hk with rfl | hk
    · exact .inr (by rw [hab])
    · obtain rfl : k = b := by simpa using hk
      exact .inl ⟨[a], rfl⟩
  | a :: b :: c :: l, hl, _ => cases a <;> cases b <;> cases c <;> simp at hl

theorem Inv.nodup_readied (hinv : Inv s) (x : Bool) : (s.readied x).Nodup :=
  (List.nodup_append.mp (hinv.nodup x)).1

/-- An answered session is the current one of its side or has been replaced. -/
theorem Inv.mem_readied_cases (hinv : Inv s) (h : e.2 ∈ s.readied e.1) :
    (∃ l, s.readied e.1 = l ++ [e.2]) ∨ s.Replaced e :=
  mem_nodup_cases (hinv.nodup_readied e.1) h

/-- An answered session that still waits finds the answer first. -/
theorem Inv.control_answered (hinv : Inv s) (hk : e.2 ∈ s.readied e.1)
    (hst : s.stage e = .awaiting) : ∃ rest, s.control e = .accepted :: rest := by
  rcases hinv.mem_readied_cases hk with ⟨l, hl⟩ | hr
  · have h := hinv.accepted e.1 e.2 l hl
    rw [if_pos hst] at h
    exact ⟨[], h⟩
  · exact ⟨_, (hinv.shutDown e hr).1 hst⟩

/-- The answer is the first thing a waiting session hears. -/
theorem Inv.control_awaiting (hinv : Inv s) (hst : s.stage e = .awaiting) :
    s.control e = [] ∨ ∃ rest, s.control e = .accepted :: rest := by
  by_cases hk : e.2 ∈ s.readied e.1
  · exact .inr (hinv.control_answered hk hst)
  · exact .inl (hinv.unheard e hk).1

/-- A live session is told nothing but to shut down. -/
theorem Inv.control_live (hinv : Inv s) (hst : s.stage e = .live) :
    s.control e = [] ∨ s.control e = [.shutdown] := by
  by_cases hk : e.2 ∈ s.readied e.1
  · rcases hinv.mem_readied_cases hk with ⟨l, hl⟩ | hr
    · have h := hinv.accepted e.1 e.2 l hl
      rw [if_neg (by rw [hst]; decide)] at h
      exact .inl h
    · exact .inr ((hinv.shutDown e hr).2 hst)
  · exact .inl (hinv.unheard e hk).1

section moves

variable {ctx : IpcContext} {input : IpcInput} {s₁ : Dials σ}
  {r : IpcPeer (Control σ) × List (IpcEffect (Control σ))}

theorem move_hello (hinv : Inv s) (hst : (s.session e).state = .hello)
    (h₁ : s.take e input = some s₁) (h₂ : (s.session e).next ctx input = some r) :
    Move s e (s₁.after e r) := by
  have hopen : s.closed e.far = false := by
    by_contra hc
    have hstage := (hinv.closed_iff e.far).mp (by simpa using hc)
    rcases (hinv.silent e hst).2 with h | h <;> simp [stage, h, IpcState.stage] at hstage
  rw [IpcPeer.next.eq_def, hst] at h₂
  cases input with
  | wrote ok =>
    obtain ⟨rfl, hok⟩ := take_wrote h₁
    obtain rfl := Option.some.inj h₂
    cases ok with
    | false => simp [hopen] at hok
    | true => exact (Move.greet hst).of_eq (by simp [after, moved, perform, hinv.ours])
  | elapsed => cases h₁
  | told ok => cases h₂
  | read m => cases h₂
  | control m => cases h₂
  | node m => cases h₂
  | proceed => cases h₂


/-- A session that waits for a greeting finds it on the wire. -/
theorem move_helloSent (hinv : Inv s) (hst : (s.session e).state = .helloSent)
    (hctx : ctx.connectionId = s.counter e.1)
    (h₁ : s.take e input = some s₁) (h₂ : (s.session e).next ctx input = some r) :
    Move s e (s₁.after e r) := by
  rw [IpcPeer.next.eq_def, hst] at h₂
  cases input with
  | read m =>
    -- the far session has greeted, for it cannot have closed its end before
    have hfar : (s.session e.far).state ≠ .hello := by
      intro hfar
      have hopen : ¬ s.closed e.far = true := by
        rw [hinv.closed_iff, stage, hfar]
        simp [IpcState.stage]
      have hwire := (hinv.silent e.far hfar).1
      rw [End.far_far] at hwire
      rcases take_read h₁ with ⟨message, rest, -, hw, -⟩ | ⟨-, -, hc, -⟩
      · rw [hw] at hwire
        cases hwire
      · exact hopen hc
    obtain ⟨rest, hwire⟩ := hinv.greeted e (.inr hst) hfar
    rcases take_read h₁ with ⟨message, rest', rfl, hw, rfl⟩ | ⟨-, hw, -⟩
    · rw [hwire] at hw
      obtain ⟨rfl, rfl⟩ := List.cons.inj hw
      have hexpected : ¬ ((s.session e).expected.isSome = true ∧
          (s.session e).expected ≠ some (s.id !e.1)) := by
        rcases hinv.expected e with h | h <;> simp [h]
      have hr : (s.session e).onHello ctx (s.id !e.1) = r := Option.some.inj h₂
      rw [IpcPeer.onHello, if_neg hexpected, hctx] at hr
      subst hr
      exact (Move.greeted hst hwire).of_eq (by simp [after, moved, perform])
    · rw [hwire] at hw
      cases hw
  | elapsed => cases h₁
  | wrote ok => cases h₂
  | told ok => cases h₂
  | control m => cases h₂
  | node m => cases h₂
  | proceed => cases h₂

theorem move_helloReceived (hinv : Inv s) {p : NodeId} {c : ConnectionId}
    (hst : (s.session e).state = .helloReceived p c)
    (h₁ : s.take e input = some s₁) (h₂ : (s.session e).next ctx input = some r) :
    Move s e (s₁.after e r) := by
  rw [IpcPeer.next.eq_def, hst] at h₂
  cases input with
  | told ok =>
    obtain ⟨rfl, rfl⟩ := take_told h₁
    obtain rfl := Option.some.inj h₂
    have hpeer := hinv.received e p c hst
    obtain ⟨c', hc'⟩ := hinv.registered e (by simp [hst]) (by simp [hst])
    obtain ⟨rfl, rfl⟩ : p = s₁.id (!e.1) ∧ c = c' := by
      rw [hpeer] at hc'
      simpa using hc'
    exact (Move.announce hst hpeer).of_eq (by simp [after, moved, perform, hinv.own])
  | elapsed => cases h₁
  | wrote ok => cases h₂
  | read m => cases h₂
  | control m => cases h₂
  | node m => cases h₂
  | proceed => cases h₂

theorem move_awaitAccepted (hinv : Inv s) (hst : (s.session e).state = .awaitAccepted)
    (h₁ : s.take e input = some s₁) (h₂ : (s.session e).next ctx input = some r) :
    Move s e (s₁.after e r) := by
  rw [IpcPeer.next.eq_def, hst] at h₂
  cases input with
  | control m =>
    obtain ⟨message, rest, rfl, hc, rfl⟩ := take_control h₁
    obtain rfl : message = .accepted := by
      rcases hinv.control_awaiting (e := e) (by simp [stage, hst, IpcState.stage]) with h | ⟨_, h⟩
      · rw [h] at hc
        cases hc
      · rw [h] at hc
        exact (List.cons.inj hc).1.symm
    obtain rfl := Option.some.inj h₂
    exact (Move.accept hst hc).of_eq (by simp [after, moved])
  | elapsed => cases h₁
  | wrote ok => cases h₂
  | told ok => cases h₂
  | read m => cases h₂
  | node m => cases h₂
  | proceed => cases h₂

/-- A live session that has written goes on, or has found the far end closed. -/
theorem move_afterWrite (hb : Heartbeat) (message : IpcMessage) {ok : Bool}
    (hst : s.stage e = .live) (hm : message ≠ .closeConnection)
    (hok : ok = false → s.closed e.far = true) :
    Move s e (s.after e ({ s.session e with hb := hb }.afterWrite message ok)) := by
  cases ok with
  | true =>
    exact (Move.talk .waitForMessages hb (s.wire e) [message] [] hst rfl (by simp)
      (by simpa using hm.symm) (by simp)).of_eq
      (by simp [after, moved, perform, IpcPeer.afterWrite, IpcPeer.goto])
  | false =>
    exact (Move.hangUp .handleError hb (s.wire e) (s.control e) hst rfl (by simp) (.inl rfl)
      (.inr (.inr (hok rfl)))).of_eq
      (by simp [after, moved, perform, IpcPeer.afterWrite, IpcPeer.goto])

/-- A live session that goes on without a write. -/
theorem move_goesOn {state : IpcState} {effects : List (IpcEffect (Control σ))}
    (hst : s.stage e = .live) (hstate : state.stage = .live)
    (heffects : ∀ s : Dials σ, effects.foldl (perform e) s = s) :
    Move s e (s.after e ((s.session e).goto state, effects)) :=
  (Move.talk state (s.session e).hb (s.wire e) [] [] hst hstate (by simp) (by simp) (by simp)).of_eq
    (by simp [after, moved, heffects, IpcPeer.goto])

theorem move_sendPeers (hinv : Inv s) (hst : (s.session e).state = .sendPeers)
    (h₁ : s.take e input = some s₁) (h₂ : (s.session e).next ctx input = some r) :
    Move s e (s₁.after e r) := by
  obtain ⟨c, hc⟩ := hinv.registered e (by simp [hst]) (by simp [hst])
  have hpeer : (s.session e).peerId = some (s.id !e.1) := by simp [IpcPeer.peerId, hc]
  rw [IpcPeer.next.eq_def, hst, hpeer] at h₂
  cases input with
  | wrote ok =>
    obtain ⟨rfl, hok⟩ := take_wrote h₁
    obtain rfl := Option.some.inj h₂
    exact move_afterWrite _ _ (by simp [stage, hst, IpcState.stage]) (by simp) hok
  | elapsed => cases h₁
  | told ok => cases h₂
  | read m => cases h₂
  | control m => cases h₂
  | node m => cases h₂
  | proceed => cases h₂

theorem move_waitForMessages (hinv : Inv s) (hst : (s.session e).state = .waitForMessages)
    (h₁ : s.take e input = some s₁) (h₂ : (s.session e).next ctx input = some r) :
    Move s e (s₁.after e r) := by
  have hlive : s.stage e = .live := by simp [stage, hst, IpcState.stage]
  obtain ⟨c, hc⟩ := hinv.registered e (by simp [hst]) (by simp [hst])
  have hpeer : ¬ (s.session e).peer = none := by simp [hc]
  rw [IpcPeer.next.eq_def, hst, if_neg hpeer] at h₂
  cases input with
  | read m =>
    rcases take_read h₁ with ⟨message, rest, rfl, hw, rfl⟩ | ⟨hm, hw, hclosed, rfl⟩
    · obtain rfl := Option.some.inj h₂
      have hrest : ∀ m ∈ rest, m ∈ s.wire e := by
        intro m hm
        rw [hw]
        exact List.mem_cons_of_mem _ hm
      by_cases hclose : message = .closeConnection
      · exact (Move.hangUp (.ipcMessageReceived message) ((s.session e).hb.onRx ctx.now) rest (s.control e) hlive
          (if_pos hclose) hrest (.inl rfl) (.inr (.inl (by simp [hw, hclose])))).of_eq
          (by simp [after, moved])
      · exact (Move.talk (.ipcMessageReceived message) ((s.session e).hb.onRx ctx.now) rest [] [] hlive (if_neg hclose) hrest
          (by simp) (by simp)).of_eq (by simp [after, moved])
    · rcases hm with rfl | rfl
      · obtain rfl := Option.some.inj h₂
        exact (Move.hangUp .closePeer (s₁.session e).hb (s₁.wire e) (s₁.control e) hlive rfl (by simp) (.inl rfl)
          (.inr (.inr hclosed))).of_eq (by simp [after, moved, IpcPeer.goto])
      · obtain rfl := Option.some.inj h₂
        exact (Move.hangUp .handleError (s₁.session e).hb (s₁.wire e) (s₁.control e) hlive rfl (by simp) (.inl rfl)
          (.inr (.inr hclosed))).of_eq (by simp [after, moved, IpcPeer.goto])
  | control m =>
    obtain ⟨message, rest, rfl, hcontrol, rfl⟩ := take_control h₁
    obtain rfl : message = .shutdown := by
      rcases hinv.control_live hlive with h | h
      · rw [h] at hcontrol
        cases hcontrol
      · rw [h] at hcontrol
        exact (List.cons.inj hcontrol).1.symm
    obtain rfl := Option.some.inj h₂
    exact (Move.hangUp (.ipcControlReceived .shutdown) (s.session e).hb (s.wire e) rest hlive rfl (by simp)
      (.inr hcontrol) (.inl (by simp [hcontrol]))).of_eq (by simp [after, moved, IpcPeer.goto])
  | node m =>
    cases m with
    | none => cases h₁
    | some message =>
      obtain rfl := Option.some.inj h₁
      obtain rfl := Option.some.inj h₂
      exact move_goesOn hlive rfl fun _ => rfl
  | elapsed => cases h₁
  | wrote ok => cases h₂
  | told ok => cases h₂
  | proceed => cases h₂

theorem move_ipcMessageReceived {message : IpcMessage}
    (hst : (s.session e).state = .ipcMessageReceived message) (hm : message ≠ .closeConnection)
    (h₁ : s.take e input = some s₁) (h₂ : (s.session e).next ctx input = some r) :
    Move s e (s₁.after e r) := by
  have hlive : s.stage e = .live := by simp [stage, hst, IpcState.stage, hm]
  rw [IpcPeer.next.eq_def, hst] at h₂
  cases message with
  | knownPeers ids =>
    cases input with
    | told ok =>
      obtain ⟨rfl, rfl⟩ := take_told h₁
      obtain rfl := Option.some.inj h₂
      exact (Move.talk .waitForMessages (s₁.session e).hb (s₁.wire e) [] [.learnedPeers ids] hlive rfl (by simp)
        (by simp) (by simp)).of_eq (by simp [after, moved, perform, IpcPeer.goto])
    | _ => cases h₂
  | ping token =>
    cases input with
    | wrote ok =>
      obtain ⟨rfl, hok⟩ := take_wrote h₁
      obtain rfl := Option.some.inj h₂
      exact move_afterWrite _ _ hlive (by simp) hok
    | _ => cases h₂
  | closeConnection => exact absurd rfl hm
  | nodeMsg m =>
    cases input with
    | proceed =>
      obtain rfl := Option.some.inj h₁
      obtain rfl := Option.some.inj h₂
      refine move_goesOn hlive rfl fun t => ?_
      cases (s.session e).peer <;> rfl
    | _ => cases h₂
  | hello id | neighborRemoved id | pong token =>
    cases input with
    | proceed =>
      obtain rfl := Option.some.inj h₁
      obtain rfl := Option.some.inj h₂
      exact move_goesOn hlive rfl fun _ => rfl
    | _ => cases h₂

theorem move_ipcControlReceived {message : IpcControl}
    (hst : (s.session e).state = .ipcControlReceived message) (hm : message ≠ .shutdown)
    (h₁ : s.take e input = some s₁) (h₂ : (s.session e).next ctx input = some r) :
    Move s e (s₁.after e r) := by
  have hlive : s.stage e = .live := by simp [stage, hst, IpcState.stage, hm]
  rw [IpcPeer.next.eq_def, hst] at h₂
  cases input with
  | proceed =>
    obtain rfl := Option.some.inj h₁
    cases message with
    | shutdown => exact absurd rfl hm
    | accepted =>
      obtain rfl := Option.some.inj h₂
      exact move_goesOn hlive rfl fun _ => rfl
    | resume =>
      obtain rfl := Option.some.inj h₂
      exact (Move.talk .sendPing ((s.session e).hb.noteResume ctx.now) (s.wire e) [] [] hlive rfl
        (by simp) (by simp) (by simp)).of_eq (by simp [after, moved])
  | _ => cases h₂

/-- A live session in a state that only writes. -/
theorem move_writes {state : IpcState} (hst : (s.session e).state = state)
    (hstate : state = .sendPing ∨ ∃ m, state = .nodeMessageReceived m)
    (h₁ : s.take e input = some s₁) (h₂ : (s.session e).next ctx input = some r) :
    Move s e (s₁.after e r) := by
  have hlive : s.stage e = .live := by
    rcases hstate with rfl | ⟨m, rfl⟩ <;> simp [stage, hst, IpcState.stage]
  rw [IpcPeer.next.eq_def, hst] at h₂
  rcases hstate with rfl | ⟨m, rfl⟩
  · cases input with
    | wrote ok =>
      obtain ⟨rfl, hok⟩ := take_wrote h₁
      obtain rfl := Option.some.inj h₂
      exact move_afterWrite ((s₁.session e).hb.takePingToken ctx.now).1
        (.ping ((s₁.session e).hb.takePingToken ctx.now).2) hlive (by simp) hok
    | _ => cases h₂
  · cases input with
    | wrote ok =>
      obtain ⟨rfl, hok⟩ := take_wrote h₁
      obtain rfl := Option.some.inj h₂
      exact move_afterWrite _ _ hlive (by simp) hok
    | _ => cases h₂

/-- A session on its way out closes its end in the end. -/
theorem move_leaving (hinv : Inv s) (hst : s.stage e = .leaving)
    (h₁ : s.take e input = some s₁) (h₂ : (s.session e).next ctx input = some r) :
    Move s e (s₁.after e r) := by
  have hest := hinv.established e (by simp [hst]) (by simp [hst])
  have hstate : (s.session e).state.stage = .leaving := hst
  rw [IpcPeer.next.eq_def] at h₂
  cases hs : (s.session e).state with
  | shutdown =>
    rw [hs] at h₂
    cases input with
    | wrote ok =>
      obtain ⟨rfl, -⟩ := take_wrote h₁
      obtain rfl := Option.some.inj h₂
      cases ok with
      | true =>
        exact (Move.leave .closePeer [.closeConnection] hst rfl).of_eq
          (by simp [after, moved, perform])
      | false => exact (Move.leave .closePeer [] hst rfl).of_eq (by simp [after, moved, perform])
    | _ => cases h₂
  | closePeer =>
    rw [hs] at h₂
    cases input with
    | wrote ok =>
      obtain ⟨rfl, -⟩ := take_wrote h₁
      obtain rfl := Option.some.inj h₂
      exact (Move.close hst).of_eq (by simp [after, moved, perform])
    | _ => cases h₂
  | handleError =>
    rw [hs, hest] at h₂
    cases input with
    | proceed =>
      obtain rfl := Option.some.inj h₁
      obtain rfl := Option.some.inj h₂
      exact (Move.leave .closePeer [] hst rfl).of_eq (by simp [after, moved])
    | _ => cases h₂
  | ipcControlReceived message =>
    have hm : message = .shutdown := by
      rw [hs] at hstate
      by_contra hm
      simp [IpcState.stage, hm] at hstate
    rw [hs, hm] at h₂
    cases input with
    | proceed =>
      obtain rfl := Option.some.inj h₁
      obtain rfl := Option.some.inj h₂
      exact (Move.leave .shutdown [] hst rfl).of_eq (by simp [after, moved])
    | _ => cases h₂
  | ipcMessageReceived message =>
    have hm : message = .closeConnection := by
      rw [hs] at hstate
      by_contra hm
      simp [IpcState.stage, hm] at hstate
    rw [hs, hm] at h₂
    cases input with
    | proceed =>
      obtain rfl := Option.some.inj h₁
      obtain rfl := Option.some.inj h₂
      exact (Move.leave .closePeer [] hst rfl).of_eq (by simp [after, moved])
    | _ => cases h₂
  | _ => simp [hs, IpcState.stage] at hstate

theorem move_streamClosed (hinv : Inv s) (hst : (s.session e).state = .streamClosed)
    (h₁ : s.take e input = some s₁) (h₂ : (s.session e).next ctx input = some r) :
    Move s e (s₁.after e r) := by
  have hstage : s.stage e = .closed := by simp [stage, hst, IpcState.stage]
  have hest := hinv.established e (by simp [hstage]) (by simp [hstage])
  obtain ⟨c, hc⟩ := hinv.registered e (by simp [hst]) (by simp [hst])
  rw [IpcPeer.next.eq_def, hst, hest] at h₂
  cases input with
  | told ok =>
    obtain ⟨rfl, rfl⟩ := take_told h₁
    have hr : (s₁.session e).reportClosed true = r := Option.some.inj h₂
    have hpeer : (s₁.session e).peerId = some (s₁.id !e.1) := by simp [IpcPeer.peerId, hc]
    rw [IpcPeer.reportClosed, hpeer, hc] at hr
    subst hr
    exact (Move.report hst hc).of_eq (by simp [after, moved, perform])
  | _ => cases h₂

/-- Every step of a session is one of the moves. -/
theorem stepSession_move (hinv : Inv s) {now : Instant}
    (h : s.stepSession e now input = some s') : Move s e s' := by
  obtain ⟨s₁, r, h₁, h₂, rfl⟩ := stepSession_eq_some h
  have htrack := hinv.onTrack e
  cases hs : (s.session e).state with
  | hello => exact move_hello hinv hs h₁ h₂
  | helloSent => exact move_helloSent hinv hs rfl h₁ h₂
  | helloReceived p c => exact move_helloReceived hinv hs h₁ h₂
  | awaitAccepted => exact move_awaitAccepted hinv hs h₁ h₂
  | sendPeers => exact move_sendPeers hinv hs h₁ h₂
  | waitForMessages => exact move_waitForMessages hinv hs h₁ h₂
  | sendPing => exact move_writes hs (.inl rfl) h₁ h₂
  | nodeMessageReceived m => exact move_writes hs (.inr ⟨m, rfl⟩) h₁ h₂
  | ipcControlReceived m =>
    by_cases hm : m = .shutdown
    · exact move_leaving hinv (by simp [stage, hs, IpcState.stage, hm]) h₁ h₂
    · exact move_ipcControlReceived hs hm h₁ h₂
  | ipcMessageReceived m =>
    by_cases hm : m = .closeConnection
    · exact move_leaving hinv (by simp [stage, hs, IpcState.stage, hm]) h₁ h₂
    · exact move_ipcMessageReceived hs hm h₁ h₂
  | shutdown | closePeer | handleError =>
    exact move_leaving hinv (by simp [stage, hs, IpcState.stage]) h₁ h₂
  | streamClosed => exact move_streamClosed hinv hs h₁ h₂
  | ended =>
    rw [IpcPeer.next.eq_def, hs] at h₂
    cases h₂
  | abortHandshake | handshakeAborted | heartbeatTick | panicked =>
    simp [stage, hs, IpcState.stage] at htrack

end moves

end Dials

end Anybus
