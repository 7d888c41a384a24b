import Anybus.Core.Machine
import Anybus.Core.Trace
import Anybus.Routing.Basic

/-!
# Suspending and resuming

Several tasks notice that the process is about to sleep or has woken up: one by gaps in the
wall clock, one by the power events of the system, one by the visibility of the page. They
share a debouncer that lets a message pass unless it repeats the last one that has passed, and
too soon. Whatever they notice when, what has passed says the same as what they wanted to say.
-/

namespace Anybus

/-- What a bus says about itself. -/
inductive AnyBusStatusMsg where
  | shuttingDown
  | resuming
  | suspending
  | networkChanged
  deriving DecidableEq, Repr

/-- The last message that has passed, and when. -/
structure LifecycleDebounce where
  last : Option (AnyBusStatusMsg × Instant)
  deriving DecidableEq, Repr

namespace LifecycleDebounce

/-- 3 seconds, in milliseconds. -/
def debounce : Duration := 3000

/-- Whether the message may pass now. -/
def allow (d : LifecycleDebounce) (now : Instant) (msg : AnyBusStatusMsg) : LifecycleDebounce × Bool :=
  match d.last with
  | some (prev, since) => if prev = msg ∧ now - since < debounce then (d, false) else (⟨some (msg, now)⟩, true)
  | none => (⟨some (msg, now)⟩, true)

end LifecycleDebounce

/-- The tasks that share the debouncer. -/
inductive Emitter where
  | stallLoop
  | watcher
  | visibility
  deriving DecidableEq, Repr

inductive PowerEvent where
  | suspend
  | resume
  | shutdown
  | screenLocked
  | screenUnlocked
  deriving DecidableEq, Repr

/-- What a power event means for the bus. -/
def PowerEvent.msg : PowerEvent → Option AnyBusStatusMsg
  | .suspend => some .suspending
  | .resume => some .resuming
  | .shutdown | .screenLocked | .screenUnlocked => none

/-- What the page means for the bus. -/
def visibilityMsg (hidden : Bool) : AnyBusStatusMsg := if hidden then .suspending else .resuming

/-- The tasks, their debouncer, and what they have done. -/
structure Lifecycle where
  debounce : LifecycleDebounce
  /-- What the stall loop has last read off the wall clock, in milliseconds. -/
  wall : Nat
  watching : Bool
  /-- A message that has passed and that its task has not yet sent. -/
  pending : Emitter → Option AnyBusStatusMsg
  now : Instant
  /-- What the tasks wanted to send, oldest first. -/
  asked : List (AnyBusStatusMsg × Instant)
  /-- What has passed, oldest first. -/
  passed : List (AnyBusStatusMsg × Instant)
  /-- What was sent, oldest first. -/
  sent : List AnyBusStatusMsg

/-- What happens at a time. -/
inductive LifecycleEvent where
  /-- The stall loop has slept and reads the wall clock. -/
  | stallTick (wall : Nat)
  | power (event : PowerEvent)
  /-- The watcher hears of the status of the bus, or no more of it. -/
  | status (msg : Option AnyBusStatusMsg)
  | visibility (hidden : Bool)
  /-- A task sends what has passed. -/
  | send (emitter : Emitter)
  deriving DecidableEq, Repr

namespace Lifecycle

/-- A gap of 10 seconds, in milliseconds. -/
def stallGap : Duration := 10000

def new (wall : Nat) (watching : Bool) (now : Instant) : Lifecycle :=
  ⟨⟨none⟩, wall, watching, fun _ => none, now, [], [], []⟩

/-- A task wants to send a message; only two of them are for the debouncer. -/
def emit (s : Lifecycle) (emitter : Emitter) (msg : AnyBusStatusMsg) : Lifecycle :=
  match msg with
  | .shuttingDown | .networkChanged => s
  | .suspending | .resuming =>
    let r := s.debounce.allow s.now msg
    let s := { s with debounce := r.1, asked := s.asked ++ [(msg, s.now)] }
    if r.2 then
      { s with
        passed := s.passed ++ [(msg, s.now)]
        pending := Function.update s.pending emitter (some msg) }
    else s

/-- One step at a time; `none` if the event cannot happen now. A task that has a message to
send does nothing else before. -/
def step (s : Lifecycle) (event : LifecycleEvent × Instant) : Option Lifecycle :=
  let s := { s with now := event.2 }
  match event.1 with
  | .stallTick wall =>
    if (s.pending .stallLoop).isSome then none
    else
      let gap := (wall - s.wall) % 2 ^ 64
      let s := { s with wall := wall }
      some (if stallGap ≤ gap then s.emit .stallLoop .resuming else s)
  | .power event =>
    if (s.pending .watcher).isSome || !s.watching then none
    else
      match event.msg with
      | some msg => some (s.emit .watcher msg)
      | none => some s
  | .status msg =>
    if (s.pending .watcher).isSome || !s.watching then none
    else
      match msg with
      | some .shuttingDown | none => some { s with watching := false }
      | some .resuming | some .suspending | some .networkChanged => some s
  | .visibility hidden =>
    if (s.pending .visibility).isSome then none
    else some (s.emit .visibility (visibilityMsg hidden))
  | .send emitter =>
    match s.pending emitter with
    | some msg => some { s with
        pending := Function.update s.pending emitter none, sent := s.sent ++ [msg] }
    | none => none

def machine : Machine Lifecycle (LifecycleEvent × Instant) where
  init s := ∃ wall watching now, s = .new wall watching now
  step s event s' := s.step event = some s'

/-- The clock does not go back. -/
def InOrder (s : Lifecycle) (event : LifecycleEvent × Instant) : Prop := s.now ≤ event.2

instance decidableInOrder (s : Lifecycle) (event : LifecycleEvent × Instant) :
    Decidable (s.InOrder event) := inferInstanceAs (Decidable (_ ≤ _))

/-- What has passed and was not yet sent. -/
def pendings (s : Lifecycle) : List AnyBusStatusMsg :=
  (s.pending .stallLoop).toList ++ (s.pending .watcher).toList ++ (s.pending .visibility).toList

/-- What has passed is all that was asked for, but for repetitions that came too soon. -/
structure Inv (s : Lifecycle) : Prop where
  last : s.debounce.last = s.passed.getLast?
  times : ∀ x ∈ s.passed, x.2 ≤ s.now
  latest : (s.passed.map Prod.fst).getLast? = (s.asked.map Prod.fst).getLast?
  changes : (s.passed.map Prod.fst).destutter (· ≠ ·) = (s.asked.map Prod.fst).destutter (· ≠ ·)
  spaced : s.passed.IsChain fun a b => a.1 = b.1 → a.2 + LifecycleDebounce.debounce ≤ b.2
  covered : ∀ x ∈ s.asked, ∃ y ∈ s.passed, y.1 = x.1 ∧ y.2 ≤ x.2 ∧
    x.2 < y.2 + LifecycleDebounce.debounce
  owed : (s.sent ++ s.pendings).Perm (s.passed.map Prod.fst)

variable {s s' : Lifecycle} {emitter : Emitter} {msg : AnyBusStatusMsg}

/-- A message that has passed is to be sent by its task. -/
theorem pendings_update (s : Lifecycle) (hnone : s.pending emitter = none) (msg : AnyBusStatusMsg) :
    ({ s with pending := Function.update s.pending emitter (some msg) } : Lifecycle).pendings.Perm
      (msg :: s.pendings) := by
  rw [List.perm_iff_count]
  intro m
  cases emitter <;> simp [pendings, hnone, List.count_cons] <;> omega

/-- A message that is sent was to be sent. -/
theorem pendings_send (s : Lifecycle) (hsome : s.pending emitter = some msg) :
    s.pendings.Perm
      (msg :: ({ s with pending := Function.update s.pending emitter none } : Lifecycle).pendings) := by
  rw [List.perm_iff_count]
  intro m
  cases emitter <;> simp [pendings, hsome, List.count_cons] <;> omega

namespace Inv

/-- Time passes, and other parts of the tasks change. -/
theorem later (h : s.Inv) {now : Instant} (hnow : s.now ≤ now) (wall : Nat) (watching : Bool) :
    { s with now := now, wall := wall, watching := watching }.Inv :=
  ⟨h.last, fun x hx => (h.times x hx).trans hnow, h.latest, h.changes, h.spaced, h.covered, h.owed⟩

/-- A repetition is held back. -/
theorem holds (h : s.Inv) {since : Instant} (hlast : s.debounce.last = some (msg, since))
    (hsoon : s.now - since < LifecycleDebounce.debounce) :
    { s with asked := s.asked ++ [(msg, s.now)] }.Inv := by
  have hpassed : s.passed.getLast? = some (msg, since) := h.last.symm.trans hlast
  have hmem : (msg, since) ∈ s.passed := List.mem_of_getLast? hpassed
  have hle := h.times _ hmem
  have hasked : (s.asked.map Prod.fst).getLast? = some msg := by
    rw [← h.latest, List.getLast?_map, hpassed]
    rfl
  refine ⟨h.last, h.times, ?_, ?_, h.spaced, ?_, h.owed⟩
  · rw [h.latest, hasked, List.map_append, List.map_singleton, List.getLast?_concat]
  · rw [List.map_append, List.map_singleton, destutter_concat, if_pos hasked]
    exact h.changes
  · intro x hx
    rcases List.mem_append.mp hx with hold | hnew
    · exact h.covered x hold
    · obtain rfl := List.mem_singleton.mp hnew
      refine ⟨_, hmem, rfl, hle, ?_⟩
      grind

/-- Anything else passes. -/
theorem passes (h : s.Inv) (hnone : s.pending emitter = none)
    (hlate : ∀ since, s.debounce.last = some (msg, since) →
      LifecycleDebounce.debounce ≤ s.now - since) :
    { s with
      debounce := ⟨some (msg, s.now)⟩
      asked := s.asked ++ [(msg, s.now)]
      passed := s.passed ++ [(msg, s.now)]
      pending := Function.update s.pending emitter (some msg) }.Inv := by
  have hmem : (msg, s.now) ∈ s.passed ++ [(msg, s.now)] := List.mem_append_right _ List.mem_cons_self
  refine ⟨List.getLast?_concat.symm, ?_, ?_, ?_, ?_, ?_, ?_⟩
  · intro x hx
    rcases List.mem_append.mp hx with hold | hnew
    · exact h.times x hold
    · obtain rfl := List.mem_singleton.mp hnew
      exact Nat.le_refl _
  · rw [List.map_append, List.map_append, List.map_singleton, List.getLast?_concat, List.getLast?_concat]
  · rw [List.map_append, List.map_append, List.map_singleton, destutter_concat, destutter_concat,
      h.latest, h.changes]
  · refine h.spaced.append (List.isChain_singleton _) ?_
    intro x hx y hy hsame
    obtain rfl : (msg, s.now) = y := Option.some.inj hy
    have hsame : x.1 = msg := hsame
    have hlast : s.debounce.last = some (msg, x.2) := by
      rw [h.last, hx, ← hsame]
    have hle := h.times x (List.mem_of_getLast? hx)
    have hgap := hlate x.2 hlast
    grind
  · intro x hx
    rcases List.mem_append.mp hx with hold | hnew
    · obtain ⟨y, hy, hcover⟩ := h.covered x hold
      exact ⟨y, List.mem_append_left _ hy, hcover⟩
    · obtain rfl := List.mem_singleton.mp hnew
      refine ⟨_, hmem, rfl, Nat.le_refl _, ?_⟩
      exact Nat.lt_add_of_pos_right (by decide)
  · rw [List.map_append, List.map_singleton]
    have hpendings := s.pendings_update hnone msg
    refine (hpendings.append_left s.sent).trans ?_
    refine List.perm_middle.trans ?_
    exact (h.owed.cons msg).trans (List.perm_append_singleton _ _).symm

theorem emit (h : s.Inv) (hnone : s.pending emitter = none) (msg : AnyBusStatusMsg) :
    (s.emit emitter msg).Inv := by
  have hlifecycle : ∀ msg, (let r := s.debounce.allow s.now msg
      let s := { s with debounce := r.1, asked := s.asked ++ [(msg, s.now)] }
      if r.2 then
        { s with
          passed := s.passed ++ [(msg, s.now)]
          pending := Function.update s.pending emitter (some msg) }
      else s).Inv := by
    intro msg
    unfold LifecycleDebounce.allow
    cases hlast : s.debounce.last with
    | none => exact h.passes hnone (by simp [hlast])
    | some prev =>
      obtain ⟨prev, since⟩ := prev
      by_cases hsoon : prev = msg ∧ s.now - since < LifecycleDebounce.debounce
      · obtain ⟨rfl, hsoon⟩ := hsoon
        simp only [hsoon, and_self, if_true]
        exact h.holds hlast hsoon
      · simp only [hsoon, if_false]
        refine h.passes hnone ?_
        intro since' hsince
        rw [hlast] at hsince
        cases hsince
        exact Nat.le_of_not_lt fun hlt => hsoon ⟨rfl, hlt⟩
  cases msg with
  | shuttingDown | networkChanged => exact h
  | suspending | resuming => exact hlifecycle _

/-- A task sends what has passed. -/
theorem send (h : s.Inv) (hsome : s.pending emitter = some msg) :
    { s with pending := Function.update s.pending emitter none, sent := s.sent ++ [msg] }.Inv := by
  refine ⟨h.last, h.times, h.latest, h.changes, h.spaced, h.covered, ?_⟩
  refine List.Perm.trans ?_ h.owed
  have hpendings := s.pendings_send hsome
  rw [List.append_assoc, List.singleton_append]
  exact (hpendings.append_left s.sent).symm

theorem step {event : LifecycleEvent × Instant} (h : s.Inv) (hnow : s.InOrder event)
    (hstep : s.step event = some s') : s'.Inv := by
  obtain ⟨event, now⟩ := event
  have hlater := fun wall watching => h.later hnow wall watching
  cases event with
  | stallTick wall =>
    obtain ⟨hnone, hstep⟩ := Option.ite_none_left_eq_some.mp hstep
    rw [Option.not_isSome_iff_eq_none] at hnone
    cases hstep
    split
    · exact (hlater wall s.watching).emit hnone _
    · exact hlater wall s.watching
  | power event =>
    obtain ⟨hguard, hstep⟩ := Option.ite_none_left_eq_some.mp hstep
    have hnone : s.pending .watcher = none := by
      cases hpending : s.pending .watcher with
      | none => rfl
      | some msg => simp [hpending] at hguard
    split at hstep
    · cases hstep
      exact (hlater s.wall s.watching).emit hnone _
    · cases hstep
      exact hlater s.wall s.watching
  | status msg =>
    obtain ⟨hguard, hstep⟩ := Option.ite_none_left_eq_some.mp hstep
    split at hstep <;> cases hstep
    all_goals exact hlater s.wall _
  | visibility hidden =>
    obtain ⟨hnone, hstep⟩ := Option.ite_none_left_eq_some.mp hstep
    rw [Option.not_isSome_iff_eq_none] at hnone
    cases hstep
    exact (hlater s.wall s.watching).emit hnone _
  | send emitter =>
    simp only [Lifecycle.step] at hstep
    split at hstep
    · next hsome =>
      cases hstep
      exact (hlater s.wall s.watching).send hsome
    · cases hstep

end Inv

theorem inv (h : machine.Reaches InOrder s) : s.Inv := by
  refine h.invariant ?_ ?_
  · rintro s ⟨wall, watching, now, rfl⟩
    refine ⟨rfl, ?_, rfl, rfl, .nil, ?_, .refl _⟩
    · intro x hx
      cases hx
    · intro x hx
      cases hx
  · intro s event s' hinv hnow hstep
    exact hinv.step hnow hstep

/-- What has passed changes exactly as often, and between the same messages, as what the tasks
wanted to say; no message repeats the one before it within the time of the debouncer; a message
that was held back had its like pass within that time before; and the tasks send what has passed
and nothing else. -/
theorem passed_as_asked (h : machine.Reaches InOrder s) :
    (s.passed.map Prod.fst).destutter (· ≠ ·) = (s.asked.map Prod.fst).destutter (· ≠ ·) ∧
    (s.passed.IsChain fun a b => a.1 = b.1 → a.2 + LifecycleDebounce.debounce ≤ b.2) ∧
    (∀ x ∈ s.asked, ∃ y ∈ s.passed, y.1 = x.1 ∧ y.2 ≤ x.2 ∧
      x.2 < y.2 + LifecycleDebounce.debounce) ∧
    (s.sent ++ s.pendings).Perm (s.passed.map Prod.fst) :=
  ⟨(inv h).changes, (inv h).spaced, (inv h).covered, (inv h).owed⟩

/-- The system says that it goes to sleep, and on waking up first the stall loop sees a gap of
twenty seconds and then the system says so. -/
def sleepAndWake : List (LifecycleEvent × Instant) :=
  [(.stallTick 1000, 1000), (.power .suspend, 1500), (.send .watcher, 1500),
    (.stallTick 21500, 2600), (.power .resume, 2700), (.send .stallLoop, 2800)]

/-- The second word about the waking is held back. -/
theorem passed_once_awake : ∃ s : Lifecycle,
    s.asked = [(.suspending, 1500), (.resuming, 2600), (.resuming, 2700)] ∧
      s.passed = [(.suspending, 1500), (.resuming, 2600)] ∧
      (s.passed.map Prod.fst).destutter (· ≠ ·) = (s.asked.map Prod.fst).destutter (· ≠ ·) ∧
      (s.sent ++ s.pendings).Perm (s.passed.map Prod.fst) := by
  have hend : (Machine.run step InOrder (.new 0 true 0) sleepAndWake).map
      (fun s => (s.asked, s.passed)) =
      some ([(.suspending, 1500), (.resuming, 2600), (.resuming, 2700)],
        [(.suspending, 1500), (.resuming, 2600)]) := by
    decide +kernel
  obtain ⟨s, hrun, hend⟩ := Option.map_eq_some_iff.mp hend
  simp only [Prod.mk.injEq] at hend
  have hreaches : machine.Reaches InOrder s :=
    .run (fun _ _ _ hstep => hstep) (.init ⟨0, true, 0, rfl⟩) hrun
  have hpassed := passed_as_asked hreaches
  exact ⟨s, hend.1, hend.2, hpassed.1, hpassed.2.2.2⟩

end Lifecycle

end Anybus
