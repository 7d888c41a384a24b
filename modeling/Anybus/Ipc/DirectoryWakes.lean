import Anybus.Ipc.DirectorySockets

/-!
# Requests for the directory timer

All requests between two firings of the timer share one deadline and one flag. The timer
fires at the earliest time that was asked for, but it then does only one kind of work: if
both kinds were asked for, one of them is forgotten.
-/

namespace Anybus

/-- A call of `schedule_directory_wake`. -/
structure WakeRequest where
  now : Instant
  delay : Duration
  probe : Bool

/-- The time that is asked for. -/
def WakeRequest.due (r : WakeRequest) : Instant := r.now + r.delay

namespace IpcDirectory

variable {τ : Type} {m : IpcDirectory τ} {rs : List WakeRequest}

/-- Make requests in turn. -/
def requestWakes (m : IpcDirectory τ) (rs : List WakeRequest) : IpcDirectory τ :=
  rs.foldl (fun m r => m.scheduleDirectoryWake r.now r.delay r.probe) m

/-- The work asked for is done when the timer fires, or is still scheduled then. -/
structure WorkKept (rs : List WakeRequest) (turn : ManagerTurn τ) : Prop where
  reconcile : (∃ r ∈ rs, r.probe = false) → turn.state = some .reconcileDirectory ∨
    (turn.manager.directoryWakeAt.isSome ∧ turn.manager.directoryWakeProbe = false)
  probe : (∃ r ∈ rs, r.probe = true) →
    (∃ holdPrimary holdBackup, .spawnProbe holdPrimary holdBackup ∈ turn.actions) ∨
    (turn.manager.directoryWakeAt.isSome ∧ turn.manager.directoryWakeProbe = true)

/-- A request for a time after the deadline adds to the flag, any other one sets both anew. -/
theorem scheduleDirectoryWake_cases (m : IpcDirectory τ) (r : WakeRequest) :
    (∃ existing, m.directoryWakeAt = some existing ∧ existing ≤ r.due ∧
      m.scheduleDirectoryWake r.now r.delay r.probe =
        { m with directoryWakeProbe := m.directoryWakeProbe || r.probe }) ∨
    ((∀ existing, m.directoryWakeAt = some existing → r.due ≤ existing) ∧
      m.scheduleDirectoryWake r.now r.delay r.probe =
        { m with directoryWakeAt := some r.due, directoryWakeProbe := r.probe }) := by
  unfold scheduleDirectoryWake
  cases hwake : m.directoryWakeAt with
  | none => exact Or.inr ⟨by simp, rfl⟩
  | some existing =>
    by_cases hle : existing ≤ r.due
    · exact Or.inl ⟨existing, rfl, hle, if_pos hle⟩
    · refine Or.inr ⟨?_, if_neg hle⟩
      rintro _ ⟨⟩
      exact le_of_not_ge hle

/-- Requests touch nothing but the deadline and the flag. -/
theorem requestWakes_frame (m : IpcDirectory τ) (rs : List WakeRequest) :
    (m.requestWakes rs).shuttingDown = m.shuttingDown := by
  induction rs generalizing m with
  | nil => rfl
  | cons r rs ih => exact (ih _).trans (sameSockets_scheduleDirectoryWake m _ _ _).shuttingDown

/-- With a deadline set, requests can only bring it forward, to the earliest time asked for. -/
theorem requestWakes_deadline {deadline : Instant} (h : m.directoryWakeAt = some deadline)
    (rs : List WakeRequest) :
    ∃ earliest, (m.requestWakes rs).directoryWakeAt = some earliest ∧ earliest ≤ deadline ∧
      (∀ r ∈ rs, earliest ≤ r.due) ∧ (earliest = deadline ∨ ∃ r ∈ rs, r.due = earliest) := by
  induction rs generalizing m deadline with
  | nil => exact ⟨deadline, h, le_rfl, by simp, Or.inl rfl⟩
  | cons r rs ih =>
    have hsplit : m.requestWakes (r :: rs) =
        (m.scheduleDirectoryWake r.now r.delay r.probe).requestWakes rs := rfl
    obtain ⟨existing, hexisting, hle, hkept⟩ | ⟨hle, hmoved⟩ := scheduleDirectoryWake_cases m r
    · rw [h] at hexisting
      cases hexisting
      rw [hsplit, hkept]
      obtain ⟨earliest, hwake, hbefore, hall, hfrom⟩ :=
        ih (m := { m with directoryWakeProbe := m.directoryWakeProbe || r.probe }) h
      refine ⟨earliest, hwake, hbefore, ?_, ?_⟩
      · exact List.forall_mem_cons.mpr ⟨hbefore.trans hle, hall⟩
      · exact hfrom.imp_right fun ⟨r', hr', hdue⟩ => ⟨r', List.mem_cons_of_mem r hr', hdue⟩
    · rw [hsplit, hmoved]
      obtain ⟨earliest, hwake, hbefore, hall, hfrom⟩ :=
        ih (m := { m with directoryWakeAt := some r.due, directoryWakeProbe := r.probe }) rfl
      refine ⟨earliest, hwake, hbefore.trans (hle deadline h), ?_, Or.inr ?_⟩
      · exact List.forall_mem_cons.mpr ⟨hbefore, hall⟩
      · obtain rfl | ⟨r', hr', hdue⟩ := hfrom
        · exact ⟨r, List.mem_cons_self, rfl⟩
        · exact ⟨r', List.mem_cons_of_mem r hr', hdue⟩

/-- Further requests of the kind of the flag leave it as it is. -/
theorem requestWakes_flag {probe : Bool} (hrs : ∀ r ∈ rs, r.probe = probe)
    (hm : m.directoryWakeProbe = probe) : (m.requestWakes rs).directoryWakeProbe = probe := by
  induction rs generalizing m with
  | nil => exact hm
  | cons r rs ih =>
    obtain ⟨hr, hrs⟩ := List.forall_mem_cons.mp hrs
    refine ih hrs ?_
    obtain ⟨-, -, -, hkept⟩ | ⟨-, hmoved⟩ := scheduleDirectoryWake_cases m r
    · dsimp only
      rw [hkept]
      simp only [hm, hr, Bool.or_self]
    · dsimp only
      rw [hmoved]
      exact hr

/-- The first request after a firing sets both. -/
theorem requestWakes_cons (hm : m.directoryWakeAt = none) (r : WakeRequest) (rs : List WakeRequest) :
    m.requestWakes (r :: rs) =
      { m with directoryWakeAt := some r.due, directoryWakeProbe := r.probe }.requestWakes rs := by
  obtain ⟨existing, hexisting, -⟩ | ⟨-, hset⟩ := scheduleDirectoryWake_cases m r
  · rw [hm] at hexisting
    cases hexisting
  · rw [← hset]
    rfl

/-- The timer fires with the flag for a reconcile: nothing else is done or left scheduled. -/
theorem directoryTimer_of_reconcile (h : m.directoryWakeProbe = false) (shutdown : Bool)
    (now : Instant) : m.directoryTimer shutdown now =
      ⟨some .reconcileDirectory, { m with directoryWakeAt := none, directoryWakeProbe := false }, []⟩ := by
  unfold directoryTimer
  dsimp only
  rw [h, if_neg Bool.false_ne_true]

/-- The timer fires with the flag for a probe: the manager goes on listening, and unless it is
shutting down a probe is started or, while another one is under way, scheduled. -/
theorem directoryTimer_of_probe (h : m.directoryWakeProbe = true) (shutdown : Bool) (now : Instant) :
    (m.directoryTimer shutdown now).state = some (.listen (shutdown || m.shuttingDown)) ∧
    ((m.shuttingDown = true ∧ (m.directoryTimer shutdown now).manager.directoryWakeAt = none ∧
      (m.directoryTimer shutdown now).actions = []) ∨
    (m.shuttingDown = false ∧ (m.directoryTimer shutdown now).manager.directoryWakeAt = none ∧
      (m.directoryTimer shutdown now).actions = [.spawnProbe m.primaryListener m.backupListener]) ∨
    (m.shuttingDown = false ∧ (m.directoryTimer shutdown now).manager.directoryWakeAt.isSome ∧
      (m.directoryTimer shutdown now).manager.directoryWakeProbe = true)) := by
  have hturn : m.directoryTimer shutdown now =
      let m' := { m with directoryWakeAt := none, directoryWakeProbe := false }
      let probed := if m.probeInFlight then (m'.scheduleDirectoryHealth now, [])
        else m'.spawnDirectoryProbe
      ⟨some (.listen (shutdown || m.shuttingDown)), probed.1, probed.2⟩ := by
    unfold directoryTimer
    dsimp only
    rw [if_pos h]
  rw [hturn]
  refine ⟨rfl, ?_⟩
  cases hdown : m.shuttingDown with
  | true =>
    refine Or.inl ⟨rfl, ?_⟩
    cases hprobe : m.probeInFlight with
    | true => simp [scheduleDirectoryHealth, hdown]
    | false => simp [spawnDirectoryProbe, hdown]
  | false =>
    cases hprobe : m.probeInFlight with
    | true => exact Or.inr (Or.inr (by simp [scheduleDirectoryHealth, scheduleDirectoryWake, hdown]))
    | false => exact Or.inr (Or.inl (by simp [spawnDirectoryProbe, hdown]))

/-- Requests of one kind leave a flag of that kind. -/
theorem requestWakes_uniform (hm : m.directoryWakeAt = none) {probe : Bool} {r : WakeRequest}
    {rs : List WakeRequest} (hrs : ∀ r' ∈ r :: rs, r'.probe = probe) :
    (m.requestWakes (r :: rs)).directoryWakeProbe = probe := by
  obtain ⟨hr, hrs⟩ := List.forall_mem_cons.mp hrs
  rw [requestWakes_cons hm]
  exact requestWakes_flag hrs hr

/-- A firing with the flag for a reconcile forgets every probe. -/
theorem WorkKept.all_reconcile {shutdown : Bool} {now : Instant}
    (h : WorkKept rs (m.directoryTimer shutdown now)) (hflag : m.directoryWakeProbe = false) :
    ∀ r ∈ rs, r.probe = false := by
  intro r hr
  rw [Bool.eq_false_iff]
  intro hprobe
  have hkept := h.probe ⟨r, hr, hprobe⟩
  rw [directoryTimer_of_reconcile hflag] at hkept
  obtain ⟨_, _, hspawned⟩ | ⟨hwake, -⟩ := hkept
  · cases hspawned
  · cases hwake

/-- A firing with the flag for a probe forgets every reconcile, and while shutting down the
probe as well. -/
theorem WorkKept.all_probe {shutdown : Bool} {now : Instant}
    (h : WorkKept rs (m.directoryTimer shutdown now)) (hflag : m.directoryWakeProbe = true) :
    (∀ r ∈ rs, r.probe = true) ∧ (rs ≠ [] → m.shuttingDown = false) := by
  obtain ⟨hstate, hwork⟩ := directoryTimer_of_probe hflag shutdown now
  have hall : ∀ r ∈ rs, r.probe = true := by
    intro r hr
    rw [← Bool.not_eq_false]
    intro hreconcile
    obtain hnow | ⟨hwake, hleft⟩ := h.reconcile ⟨r, hr, hreconcile⟩
    · rw [hstate] at hnow
      cases hnow
    · obtain ⟨-, hnone, -⟩ | ⟨-, hnone, -⟩ | ⟨-, -, hprobe⟩ := hwork
      · rw [hnone] at hwake
        cases hwake
      · rw [hnone] at hwake
        cases hwake
      · rw [hprobe] at hleft
        cases hleft
  refine ⟨hall, fun hne => ?_⟩
  obtain ⟨r, hr⟩ := List.exists_mem_of_ne_nil rs hne
  obtain ⟨-, hnone, hactions⟩ | ⟨hup, -⟩ | ⟨hup, -⟩ := hwork
  · obtain ⟨_, _, hspawned⟩ | ⟨hwake, -⟩ := h.probe ⟨r, hr, hall r hr⟩
    · rw [hactions] at hspawned
      cases hspawned
    · rw [hnone] at hwake
      cases hwake
  · exact hup
  · exact hup

/-- A firing with the flag of the only kind asked for keeps all work. -/
theorem workKept_of_uniform {shutdown : Bool} {now : Instant} {probe : Bool}
    (hrs : ∀ r ∈ rs, r.probe = probe) (hflag : m.directoryWakeProbe = probe)
    (hup : probe = true → m.shuttingDown = false) : WorkKept rs (m.directoryTimer shutdown now) := by
  cases probe with
  | false =>
    rw [directoryTimer_of_reconcile hflag]
    refine ⟨fun _ => Or.inl rfl, fun ⟨r, hr, hprobe⟩ => ?_⟩
    rw [hrs r hr] at hprobe
    cases hprobe
  | true =>
    refine ⟨fun ⟨r, hr, hreconcile⟩ => ?_, fun _ => ?_⟩
    · rw [hrs r hr] at hreconcile
      cases hreconcile
    · obtain ⟨hdown, -⟩ | ⟨-, -, hactions⟩ | ⟨-, hscheduled⟩ :=
        (directoryTimer_of_probe hflag shutdown now).2
      · rw [hup rfl] at hdown
        cases hdown
      · rw [hactions]
        exact Or.inl ⟨_, _, List.mem_cons_self⟩
      · exact Or.inr hscheduled

/-- After the timer has fired, requests make it fire again at the earliest time that is asked
for. What they ask for is then done or still scheduled if and only if they all ask for a
reconcile, or all for a probe and the manager is not shutting down. -/
theorem wakes_kept_iff (hm : m.directoryWakeAt = none) (rs : List WakeRequest) (shutdown : Bool)
    (now : Instant) :
    (rs ≠ [] → ∃ earliest, (m.requestWakes rs).directoryWakeAt = some earliest ∧
      (∃ r ∈ rs, r.due = earliest) ∧ ∀ r ∈ rs, earliest ≤ r.due) ∧
    (WorkKept rs ((m.requestWakes rs).directoryTimer shutdown now) ↔
      (∀ r ∈ rs, r.probe = false) ∨ ((∀ r ∈ rs, r.probe = true) ∧ m.shuttingDown = false)) := by
  cases rs with
  | nil =>
    refine ⟨fun hne => absurd rfl hne, fun _ => Or.inl (by simp), fun _ => ⟨?_, ?_⟩⟩
    · rintro ⟨r, hr, -⟩
      cases hr
    · rintro ⟨r, hr, -⟩
      cases hr
  | cons r rs =>
    constructor
    · intro _
      rw [requestWakes_cons hm]
      obtain ⟨earliest, hwake, hbefore, hall, hfrom⟩ := requestWakes_deadline
        (m := { m with directoryWakeAt := some r.due, directoryWakeProbe := r.probe }) rfl rs
      refine ⟨earliest, hwake, ?_, List.forall_mem_cons.mpr ⟨hbefore, hall⟩⟩
      obtain rfl | ⟨r', hr', hdue⟩ := hfrom
      · exact ⟨r, List.mem_cons_self, rfl⟩
      · exact ⟨r', List.mem_cons_of_mem r hr', hdue⟩
    · constructor
      · intro hkept
        cases hflag : (m.requestWakes (r :: rs)).directoryWakeProbe with
        | false => exact Or.inl (hkept.all_reconcile hflag)
        | true =>
          obtain ⟨hall, hup⟩ := hkept.all_probe hflag
          rw [requestWakes_frame] at hup
          exact Or.inr ⟨hall, hup (List.cons_ne_nil r rs)⟩
      · rintro (hall | ⟨hall, hup⟩)
        · exact workKept_of_uniform hall (requestWakes_uniform hm hall) fun hprobe => by cases hprobe
        · refine workKept_of_uniform hall (requestWakes_uniform hm hall) fun _ => ?_
          rw [requestWakes_frame]
          exact hup

/-- Two retries of a bind. -/
theorem retries_kept : WorkKept [⟨0, 500, false⟩, ⟨100, 15000, false⟩]
    (((new 7 : IpcDirectory Nat).requestWakes [⟨0, 500, false⟩, ⟨100, 15000, false⟩]).directoryTimer
      false 500) :=
  (wakes_kept_iff rfl _ false 500).2.mpr (Or.inl (by decide))

end IpcDirectory

namespace IpcService

/-- What a node of rank 1 asks for: the health check after it has dialled the nodes of a
directory, a retry when the backup name cannot be bound, and the health check after it has
dialled a node that it was told of. -/
def retryThenDial : List WakeRequest := [⟨0, 15000, true⟩, ⟨0, 500, false⟩, ⟨100, 15000, true⟩]

/-- Node 7 finds node 3 in a directory and becomes its backup, which fails, and is told of
node 9. -/
def failedBackup : List (Surroundings Nat) :=
  let base := alone .otherStatus
  [base, base, { base with primary := some ⟨3, [3]⟩ }, base,
    alone (.command (.session (.sessionReady 3 0 1))), base, base, { base with bind := .error .other },
    alone (.command (.session (.learnedPeers [9]))), base, { base with now := 100 }]

/-- The backup name cannot be bound, and before the retry is due the manager dials a node.
The timer then starts a probe, and the retry is neither made nor still scheduled. -/
theorem bind_retry_forgotten : ∃ (s : IpcService Nat) (m : IpcDirectory Nat),
    machine.Reaches (fun _ _ => True) s ∧ s.state = some (.listen false) ∧
    m.directoryWakeAt = none ∧ s.manager = m.requestWakes retryThenDial ∧
    ¬IpcDirectory.WorkKept retryThenDial (s.manager.directoryTimer false 500) := by
  have hend : (Machine.run step (fun _ _ => True) (.new 7) failedBackup).map (fun s =>
      (s.state, s.manager.directoryWakeProbe, decide (s.manager =
        { s.manager with directoryWakeAt := none, directoryWakeProbe := false }.requestWakes
          retryThenDial))) = some (some (.listen false), true, true) := by
    decide +kernel
  obtain ⟨s, hrun, hend⟩ := Option.map_eq_some_iff.mp hend
  simp only [Prod.mk.injEq] at hend
  obtain ⟨hstate, hflag, hmade⟩ := hend
  refine ⟨s, _, reaches_of_run hrun, hstate, rfl, of_decide_eq_true hmade, fun hkept => ?_⟩
  -- The flag is for a probe, and the second request was not.
  have hall := (hkept.all_probe hflag).1 ⟨0, 500, false⟩ (by simp [retryThenDial])
  cases hall

end IpcService

end Anybus
