import Mathlib.Data.List.Basic
import Mathlib.Data.List.Induction

/-!
# Receiving from a channel

The receiving half of a channel, and a caller who calls a function over and over again for
the values that it hands out. Several such functions may read one kind of channel. If each
hands out the values at the front of the channel, then they can only differ in what they do
with a message that can be passed over.
-/

namespace Anybus

/-- Why a receiver that does not wait has got nothing. -/
inductive TryRecvError where
  /-- Nothing is queued yet. -/
  | empty
  /-- Nothing is queued and all senders are gone. -/
  | disconnected
  deriving DecidableEq, Repr

/-- What a task that is polled says. -/
inductive Poll (α : Type*) where
  | ready (a : α)
  | pending
  deriving DecidableEq, Repr

/-- The receiving half of a channel: what is queued, oldest first, and whether all senders
are gone. -/
structure Rx (α : Type*) where
  queue : List α
  disconnected : Bool
  deriving DecidableEq, Repr

namespace Rx

variable {α : Type*}

/-- Take the oldest message without waiting. -/
def tryRecv (rx : Rx α) : Except TryRecvError α × Rx α :=
  match rx.queue with
  | [] => (.error (if rx.disconnected then .disconnected else .empty), rx)
  | a :: rest => (.ok a, { rx with queue := rest })

/-- Take the oldest message, or find that there will be none any more, or have to wait. -/
def pollRecv (rx : Rx α) : Poll (Option α) × Rx α :=
  match rx.queue with
  | [] => (if rx.disconnected then .ready none else .pending, rx)
  | a :: rest => (.ready (some a), { rx with queue := rest })

end Rx

/-- What a caller makes of an answer: it keeps a value, or calls once more, or stops. A call
that fails does not answer. -/
inductive Answer (β : Type*) where
  | value (b : β)
  | again
  | stop
  | fail
  deriving DecidableEq, Repr

section Collect

variable {σ β : Type*} {call : σ → Answer β × σ}

/-- All values that a number of calls get, if the caller stops within that number and no
call fails. -/
def collect (call : σ → Answer β × σ) : Nat → σ → Option (List β)
  | 0, _ => none
  | n + 1, s =>
    match call s with
    | (.value b, s') => (collect call n s').map (b :: ·)
    | (.again, s') => collect call n s'
    | (.stop, _) => some []
    | (.fail, _) => none

/-- The states in which the caller calls. -/
inductive Calls (call : σ → Answer β × σ) (s : σ) : σ → Prop where
  | start : Calls call s s
  | value {s' s'' : σ} {b : β} : Calls call s s' → call s' = (.value b, s'') → Calls call s s''
  | again {s' s'' : σ} : Calls call s s' → call s' = (.again, s'') → Calls call s s''

theorem collect_value {n : Nat} {s s' : σ} {b : β} (h : call s = (.value b, s')) :
    collect call (n + 1) s = (collect call n s').map (b :: ·) := by
  simp only [collect, h]

theorem collect_again {n : Nat} {s s' : σ} (h : call s = (.again, s')) :
    collect call (n + 1) s = collect call n s' := by
  simp only [collect, h]

theorem collect_stop {n : Nat} {s : σ} (h : (call s).1 = .stop) :
    collect call (n + 1) s = some [] := by
  have hcall : call s = (.stop, (call s).2) := Prod.ext h rfl
  rw [collect, hcall]

theorem collect_fail {n : Nat} {s : σ} (h : (call s).1 = .fail) :
    collect call n s = none := by
  cases n with
  | zero => rfl
  | succ n =>
    have hcall : call s = (.fail, (call s).2) := Prod.ext h rfl
    rw [collect, hcall]

/-- Calls with the same outcome go on in the same way. -/
theorem collect_congr {n : Nat} {s s' : σ} (h : call s = call s') :
    collect call n s = collect call n s' := by
  cases n with
  | zero => rfl
  | succ n => simp only [collect, h]

end Collect

/-- What a message is to its readers. -/
inductive Kind (β : Type*) where
  /-- It holds a value. -/
  | value (b : β)
  /-- It holds none, and more may come. -/
  | passed
  /-- It is the last one. -/
  | ends
  /-- It cannot be read at all. -/
  | fails
  deriving DecidableEq, Repr

def Kind.value? {β : Type*} : Kind β → Option β
  | .value b => some b
  | .passed | .ends | .fails => none

def Kind.isEnds {β : Type*} : Kind β → Bool
  | .ends => true
  | .value _ | .passed | .fails => false

theorem Kind.value?_eq_some {β : Type*} {k : Kind β} {b : β} (h : k.value? = some b) :
    k = .value b := by
  cases k with
  | value c => rw [Option.some.inj h]
  | passed | ends | fails => cases h

section Reader

variable {α β : Type*} {kind : α → Kind β} {call : Rx α → Answer β × Rx α} {a : α} {l : List α}

/-- A function that reads a channel without senders. What it does with a message that can be
passed over is its own choice: it stops, or drops the message with or without an answer. -/
structure Reader (kind : α → Kind β) (call : Rx α → Answer β × Rx α) : Prop where
  value : ∀ {a b} (l : List α), kind a = .value b → call ⟨a :: l, true⟩ = (.value b, ⟨l, true⟩)
  passed : ∀ {a} (l : List α), kind a = .passed → (call ⟨a :: l, true⟩).1 = .stop ∨
    call ⟨a :: l, true⟩ = (.again, ⟨l, true⟩) ∨ call ⟨a :: l, true⟩ = call ⟨l, true⟩
  ends : ∀ {a} (l : List α), kind a = .ends → (call ⟨a :: l, true⟩).1 = .stop
  fails : ∀ {a} (l : List α), kind a = .fails → (call ⟨a :: l, true⟩).1 = .fail
  nil : (call ⟨[], true⟩).1 = .stop

/-- A reader that never stops before the end. -/
structure Thorough (kind : α → Kind β) (call : Rx α → Answer β × Rx α) : Prop
    extends Reader kind call where
  goesOn : ∀ {a} (l : List α), kind a = .passed →
    call ⟨a :: l, true⟩ = (.again, ⟨l, true⟩) ∨ call ⟨a :: l, true⟩ = call ⟨l, true⟩

/-- The first message that is no value can be passed over, and there is a value behind it. -/
def Stuck (kind : α → Kind β) (l : List α) : Prop :=
  ∃ front a rest, l = front ++ a :: rest ∧ (∀ b ∈ front, (kind b).value?.isSome) ∧
    kind a = .passed ∧ ∃ b ∈ rest, (kind b).value?.isSome

/-- A message that cannot be read comes before the end. -/
def Fails (kind : α → Kind β) (l : List α) : Prop :=
  ∃ front a rest, l = front ++ a :: rest ∧ (∀ b ∈ front, kind b ≠ .ends) ∧ kind a = .fails

theorem Stuck.cons (ha : (kind a).value?.isSome) (h : Stuck kind l) : Stuck kind (a :: l) := by
  obtain ⟨front, b, rest, rfl, hfront, hb⟩ := h
  exact ⟨a :: front, b, rest, rfl, List.forall_mem_cons.mpr ⟨ha, hfront⟩, hb⟩

theorem Fails.cons (ha : kind a ≠ .ends) (h : Fails kind l) : Fails kind (a :: l) := by
  obtain ⟨front, b, rest, rfl, hfront, hb⟩ := h
  exact ⟨a :: front, b, rest, rfl, List.forall_mem_cons.mpr ⟨ha, hfront⟩, hb⟩

theorem fails_of_head (ha : kind a = .fails) : Fails kind (a :: l) :=
  ⟨[], a, l, rfl, fun _ hb => absurd hb List.not_mem_nil, ha⟩

theorem Stuck.exists_value (h : Stuck kind l) : ∃ b ∈ l, (kind b).value?.isSome := by
  obtain ⟨front, a, rest, rfl, -, -, b, hb, hsome⟩ := h
  exact ⟨b, List.mem_append_right _ (List.mem_cons_of_mem _ hb), hsome⟩

/-- No value comes behind a message that can be passed over, unless the queue is stuck. -/
theorem value?_eq_none_of_not_stuck (h : ¬ Stuck kind (a :: l)) (ha : kind a = .passed) :
    ∀ b ∈ a :: l, (kind b).value? = none := by
  refine List.forall_mem_cons.mpr ⟨by rw [ha]; rfl, ?_⟩
  intro b hb
  rw [← Option.not_isSome_iff_eq_none]
  intro hsome
  exact h ⟨[], a, l, rfl, fun c hc => absurd hc List.not_mem_nil, ha, b, hb, hsome⟩

namespace Reader

/-- A queue without values gives none. -/
theorem collect_eq_nil (h : Reader kind call) (hl : ∀ a ∈ l, (kind a).value? = none)
    (hfails : ¬ Fails kind l) {n : Nat} (hn : l.length < n) :
    collect call n ⟨l, true⟩ = some [] := by
  induction l generalizing n with
  | nil =>
    obtain ⟨n, rfl⟩ := Nat.exists_eq_succ_of_ne_zero (by omega : n ≠ 0)
    exact collect_stop h.nil
  | cons a l ih =>
    obtain ⟨n, rfl⟩ := Nat.exists_eq_succ_of_ne_zero (by omega : n ≠ 0)
    obtain ⟨hnone, hrest⟩ := List.forall_mem_cons.mp hl
    rw [List.length_cons] at hn
    cases ha : kind a with
    | value => simp [ha, Kind.value?] at hnone
    | passed =>
      have hrestFails : ¬ Fails kind l := fun hf => hfails (hf.cons (by simp [ha]))
      rcases h.passed l ha with hstop | hagain | hsame
      · exact collect_stop hstop
      · exact (collect_again hagain).trans (ih hrest hrestFails (by omega))
      · exact (collect_congr hsame).trans (ih hrest hrestFails (by omega))
    | ends => exact collect_stop (h.ends l ha)
    | fails => exact absurd (fails_of_head ha) hfails

/-- A reader of a queue that is not stuck gets the values at its front. -/
theorem collect_of_not_stuck (h : Reader kind call) (hstuck : ¬ Stuck kind l)
    (hfails : ¬ Fails kind l) : collect call (l.length + 1) ⟨l, true⟩ =
      some ((l.takeWhile fun a => (kind a).value?.isSome).filterMap fun a => (kind a).value?) := by
  induction l with
  | nil => exact collect_stop h.nil
  | cons a l ih =>
    cases ha : kind a with
    | value b =>
      have hrest := ih (fun hs => hstuck (hs.cons (by rw [ha]; rfl)))
        (fun hf => hfails (hf.cons (by simp [ha])))
      rw [List.length_cons, collect_value (h.value l ha), hrest]
      simp [ha, Kind.value?]
    | passed =>
      rw [h.collect_eq_nil (value?_eq_none_of_not_stuck hstuck ha) hfails (Nat.lt_succ_self _)]
      simp [ha, Kind.value?]
    | ends =>
      rw [collect_stop (h.ends l ha)]
      simp [ha, Kind.value?]
    | fails => exact absurd (fails_of_head ha) hfails

/-- A call leaves a queue that is not stuck in the same way. -/
theorem not_stuck_call (h : Reader kind call) (hl : ¬ Stuck kind l)
    (hstop : (call ⟨l, true⟩).1 ≠ .stop) (hfail : (call ⟨l, true⟩).1 ≠ .fail) :
    ∃ l', (call ⟨l, true⟩).2 = ⟨l', true⟩ ∧ ¬ Stuck kind l' := by
  induction l with
  | nil => exact absurd h.nil hstop
  | cons a l ih =>
    cases ha : kind a with
    | value =>
      exact ⟨l, by rw [h.value l ha], fun hs => hl (hs.cons (by rw [ha]; rfl))⟩
    | passed =>
      have hrest : ¬ Stuck kind l := by
        intro hs
        obtain ⟨b, hb, hsome⟩ := hs.exists_value
        have hnone := value?_eq_none_of_not_stuck hl ha b (List.mem_cons_of_mem _ hb)
        simp [hnone] at hsome
      rcases h.passed l ha with hs | hagain | hsame
      · exact absurd hs hstop
      · exact ⟨l, by rw [hagain], hrest⟩
      · rw [hsame] at hstop hfail ⊢
        exact ih hrest hstop hfail
    | ends => exact absurd (h.ends l ha) hstop
    | fails => exact absurd (h.fails l ha) hfail

theorem not_stuck_of_calls (h : Reader kind call) (hl : ¬ Stuck kind l) {rx : Rx α}
    (hcalls : Calls call ⟨l, true⟩ rx) : ∃ l', rx = ⟨l', true⟩ ∧ ¬ Stuck kind l' := by
  induction hcalls with
  | start => exact ⟨l, rfl, hl⟩
  | value _ hcall ih | again _ hcall ih =>
    obtain ⟨l', rfl, hl'⟩ := ih
    obtain ⟨l'', hrx, hl''⟩ := h.not_stuck_call hl' (by simp [hcall]) (by simp [hcall])
    exact ⟨l'', by rw [← hrx, hcall], hl''⟩

/-- The caller comes to the first message behind the values at the front. -/
theorem calls_append (h : Reader kind call) (rest : List α)
    (hl : ∀ a ∈ l, (kind a).value?.isSome) : Calls call ⟨l ++ rest, true⟩ ⟨rest, true⟩ := by
  induction l using List.reverseRecOn generalizing rest with
  | nil => exact .start
  | append_singleton l a ih =>
    obtain ⟨b, hb⟩ := Option.isSome_iff_exists.mp (hl a (by simp))
    have hto := ih (a :: rest) fun a ha => hl a (List.mem_append_left _ ha)
    rw [List.append_assoc, List.singleton_append]
    exact hto.value (h.value rest (Kind.value?_eq_some hb))

end Reader

namespace Thorough

/-- A thorough reader comes to a message that cannot be read. -/
theorem collect_of_fails (h : Thorough kind call) (hl : Fails kind l) (n : Nat) :
    collect call n ⟨l, true⟩ = none := by
  obtain ⟨front, a, rest, rfl, hfront, ha⟩ := hl
  induction front generalizing n with
  | nil => exact collect_fail (h.fails rest ha)
  | cons b front ih =>
    obtain ⟨hb, hfront⟩ := List.forall_mem_cons.mp hfront
    cases n with
    | zero => rfl
    | succ n =>
      cases hkind : kind b with
      | value c =>
        rw [List.cons_append, collect_value (h.value _ hkind), ih n hfront]
        rfl
      | passed =>
        rcases h.goesOn (front ++ a :: rest) hkind with hagain | hsame
        · exact (collect_again hagain).trans (ih n hfront)
        · exact (collect_congr hsame).trans (ih (n + 1) hfront)
      | ends => exact absurd hkind hb
      | fails => exact collect_fail (h.fails _ hkind)

/-- A thorough reader gets all values before the end. -/
theorem collect_eq_values (h : Thorough kind call) (hfails : ¬ Fails kind l) {n : Nat}
    (hn : l.length < n) : collect call n ⟨l, true⟩ =
      some ((l.takeWhile fun a => !(kind a).isEnds).filterMap fun a => (kind a).value?) := by
  induction l generalizing n with
  | nil =>
    obtain ⟨n, rfl⟩ := Nat.exists_eq_succ_of_ne_zero (by omega : n ≠ 0)
    exact collect_stop h.nil
  | cons a l ih =>
    obtain ⟨n, rfl⟩ := Nat.exists_eq_succ_of_ne_zero (by omega : n ≠ 0)
    rw [List.length_cons] at hn
    cases ha : kind a with
    | value b =>
      have hrest : ¬ Fails kind l := fun hf => hfails (hf.cons (by simp [ha]))
      rw [collect_value (h.value l ha), ih hrest (by omega)]
      simp [ha, Kind.value?, Kind.isEnds]
    | passed =>
      have hrest : ¬ Fails kind l := fun hf => hfails (hf.cons (by simp [ha]))
      have hnext : collect call (n + 1) ⟨a :: l, true⟩ = collect call n ⟨l, true⟩ ∨
          collect call (n + 1) ⟨a :: l, true⟩ = collect call (n + 1) ⟨l, true⟩ :=
        (h.goesOn l ha).imp collect_again collect_congr
      rcases hnext with hnext | hnext <;>
      · rw [hnext, ih hrest (by omega)]
        simp [ha, Kind.value?, Kind.isEnds]
    | ends =>
      rw [collect_stop (h.ends l ha)]
      simp [ha, Kind.isEnds]
    | fails => exact absurd (fails_of_head ha) hfails

end Thorough

end Reader

end Anybus
