import Mathlib.Data.List.Basic
import Mathlib.Data.Option.Basic

/-!
# Runs of a machine

A machine starts in some states, and an event takes it from one state to another. Its
runs may be bound to a rule that allows an event in a state or not, and what holds at the
start and is kept by every allowed event holds in every state that such a run reaches.
-/

namespace Anybus

/-- States of which some are initial, and what an event can do. -/
structure Machine (σ ε : Type*) where
  init : σ → Prop
  step : σ → ε → σ → Prop

namespace Machine

variable {σ ε : Type*} {m : Machine σ ε} {allowed : σ → ε → Prop} {s s' : σ}

/-- The states of the runs whose events are all allowed. -/
inductive Reaches (m : Machine σ ε) (allowed : σ → ε → Prop) : σ → Prop where
  | init {s : σ} : m.init s → Reaches m allowed s
  | step {s s' : σ} (event : ε) : Reaches m allowed s → allowed s event → m.step s event s' →
      Reaches m allowed s'

/-- What holds at the start and is kept by every allowed event always holds. -/
theorem Reaches.invariant {P : σ → Prop} (h : m.Reaches allowed s) (hinit : ∀ s, m.init s → P s)
    (hstep : ∀ s event s', P s → allowed s event → m.step s event s' → P s') : P s := by
  induction h with
  | init hs => exact hinit _ hs
  | step event _ hallowed hs ih => exact hstep _ event _ ih hallowed hs

/-- A run under a stricter rule is a run under the other. -/
theorem Reaches.mono {allowed' : σ → ε → Prop} (h : m.Reaches allowed s)
    (himp : ∀ s event, allowed s event → allowed' s event) : m.Reaches allowed' s := by
  induction h with
  | init hs => exact .init hs
  | step event _ hallowed hs ih => exact ih.step event (himp _ event hallowed) hs

/-- Perform events in turn, as long as each is allowed and can happen. -/
def run (next : σ → ε → Option σ) (allowed : σ → ε → Prop) [∀ s event, Decidable (allowed s event)]
    (s : σ) (events : List ε) : Option σ :=
  events.foldlM (fun s event => if allowed s event then next s event else none) s

theorem Reaches.run {next : σ → ε → Option σ} [∀ s event, Decidable (allowed s event)]
    {events : List ε} (hnext : ∀ s event s', next s event = some s' → m.step s event s')
    (h : m.Reaches allowed s) (hrun : Machine.run next allowed s events = some s') :
    m.Reaches allowed s' := by
  induction events generalizing s with
  | nil =>
    cases hrun
    exact h
  | cons event events ih =>
    obtain ⟨mid, hmid, hrest⟩ := Option.bind_eq_some_iff.mp hrun
    obtain ⟨hallowed, hmid⟩ := Option.ite_none_right_eq_some.mp hmid
    exact ih (h.step event hallowed (hnext _ _ _ hmid)) hrest

end Machine

end Anybus
