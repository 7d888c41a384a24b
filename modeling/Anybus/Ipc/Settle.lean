import Anybus.Ipc.Sessions
import Mathlib.Data.Fintype.Prod

/-!
# When two dials settle on one session

A manager keeps the session that became ready last and shuts the other one down. So a
stream survives when it is the last one on both sides, and both streams are lost when the
two managers have answered in different orders.
-/

namespace Anybus

namespace Dials

variable {σ : Type} {s s' : Dials σ} {e : End} {x : Bool}

/-- Both nodes after the manager of `x` has answered a command: what it has become, what is
left to answer, what it has told the sessions, which session it took over and whom it dialled. -/
def answered (s : Dials σ) (x : Bool) (manager : IpcManager (Control σ))
    (rest : List (IpcCommand (Control σ))) (controls : List (Control σ × IpcControl))
    (ready : Option Bool) (dials : List NodeId) : Dials σ :=
  { s with
    manager := Function.update s.manager x manager
    commands := Function.update s.commands x rest
    control := fun e => s.control e ++ addressed x controls e
    readied := Function.update s.readied x (s.readied x ++ ready.toList)
    dialled := Function.update s.dialled x (s.dialled x ++ dials) }

theorem stepManager_cases {connects : NodeId → Bool} (h : s.stepManager x connects = some s') :
    ∃ command rest, s.commands x = command :: rest ∧
      s' = s.answered x ((s.manager x).handleIpcCommand connects command).1 rest
        ((s.manager x).handleIpcCommand connects command).2.1 (readyOf command)
        ((s.manager x).handleIpcCommand connects command).2.2 := by
  unfold stepManager at h
  cases hc : s.commands x with
  | nil => simp [hc] at h
  | cons command rest =>
    rw [hc] at h
    exact ⟨command, rest, rfl, (Option.some.inj h).symm⟩

section answered

variable {manager : IpcManager (Control σ)} {command : IpcCommand (Control σ)}
  {rest : List (IpcCommand (Control σ))} {controls : List (Control σ × IpcControl)}
  {ready : Option Bool} {dials : List NodeId}

@[simp] theorem answered_session :
    (s.answered x manager rest controls ready dials).session = s.session := rfl

@[simp] theorem answered_stage (f : End) :
    (s.answered x manager rest controls ready dials).stage f = s.stage f := rfl

theorem answered_id (hm : manager.ourNodeid = s.id x) (y : Bool) :
    (s.answered x manager rest controls ready dials).id y = s.id y := by
  by_cases hy : y = x
  · subst hy
    simpa [answered, id] using hm
  · simp [answered, id, hy]

theorem answered_listing_self (hm : manager.ourNodeid = s.id x) :
    (s.answered x manager rest controls ready dials).listing x = manager.sessions (s.id !x) := by
  rw [listing, answered_id hm]
  simp [answered]

theorem answered_listing_of_ne (hm : manager.ourNodeid = s.id x) {y : Bool} (hy : y ≠ x) :
    (s.answered x manager rest controls ready dials).listing y = s.listing y := by
  rw [listing, answered_id hm, listing]
  simp [answered, hy]

theorem answered_readied_self :
    (s.answered x manager rest controls ready dials).readied x = s.readied x ++ ready.toList := by
  simp [answered]

theorem answered_readied_of_ne {y : Bool} (hy : y ≠ x) :
    (s.answered x manager rest controls ready dials).readied y = s.readied y := by
  simp [answered, hy]

theorem answered_commands_self :
    (s.answered x manager rest controls ready dials).commands x = rest := by
  simp [answered]

theorem answered_commands_of_ne {y : Bool} (hy : y ≠ x) :
    (s.answered x manager rest controls ready dials).commands y = s.commands y := by
  simp [answered, hy]

theorem answered_control (f : End) :
    (s.answered x manager rest controls ready dials).control f =
      s.control f ++ addressed x controls f := rfl

/-- The answered command is gone, the rest of the queues is as before. -/
theorem mem_commands_of_answered (hc : s.commands x = command :: rest) {y : Bool}
    {c : IpcCommand (Control σ)}
    (h : c ∈ (s.answered x manager rest controls ready dials).commands y) : c ∈ s.commands y := by
  by_cases hy : y = x
  · subst hy
    rw [answered_commands_self] at h
    rw [hc]
    exact List.mem_cons_of_mem _ h
  · rwa [answered_commands_of_ne hy] at h

/-- Answering moves the first announced session from the queue to the answered ones. -/
theorem answered_announced (hc : s.commands x = command :: rest) (y : Bool) :
    (s.answered x manager rest controls (readyOf command) dials).announced y = s.announced y := by
  by_cases hy : y = x
  · subst hy
    rw [announced, announced, answered_readied_self, answered_commands_self, hc, List.append_assoc,
      List.filterMap_cons]
    cases readyOf command <;> rfl
  · rw [announced, announced, answered_readied_of_ne hy, answered_commands_of_ne hy]

theorem Identified.answered (hs : Identified s) (hm : manager.ourNodeid = s.id x) :
    Identified (s.answered x manager rest controls ready dials) where
  ours f := by
    rw [answered_id hm]
    exact hs.ours f
  own := hs.own
  expected f := by
    rw [answered_id hm]
    exact hs.expected f
  onTrack := hs.onTrack
  established := hs.established
  registered f := by
    rw [answered_id hm]
    exact hs.registered f
  received := hs.received
  counted := hs.counted
  distinct := hs.distinct

theorem Greeting.answered (hs : Greeting s) (hm : manager.ourNodeid = s.id x) :
    Greeting (s.answered x manager rest controls ready dials) where
  silent := hs.silent
  greeted f := by
    rw [answered_id hm]
    exact hs.greeted f

theorem Announced.answered (hs : Announced s) (hc : s.commands x = command :: rest) :
    Announced (s.answered x manager rest controls (readyOf command) dials) where
  nodup y := by
    rw [answered_announced hc]
    exact hs.nodup y
  mem_announced f := by
    rw [answered_announced hc]
    exact hs.mem_announced f
  ready y p t c h := hs.ready y p t c (mem_commands_of_answered hc h)
  reported y p c h := hs.reported y p c (mem_commands_of_answered hc h)

/-- A command that is not about a new session leaves everything but the listing alone. -/
theorem Inv.answered (hinv : Inv s) (hm : manager.ourNodeid = s.id x)
    (hc : s.commands x = command :: rest) (hready : readyOf command = none)
    (hlisting : ∀ k l, s.readied x = l ++ [k] →
      (manager.sessions (s.id !x) = [] ∧ s.stage (x, k) = .over) ∨
        ∃ c, manager.sessions (s.id !x) = [⟨s.id !x, .inl k, c⟩] ∧
          (s.session (x, k)).peer = some ⟨s.id !x, c⟩ ∧
          (s.stage (x, k) = .over → .peerClosed (s.id !x) c ∈ rest))
    (hnone : s.readied x = [] → manager.sessions (s.id !x) = []) :
    Inv (s.answered x manager rest [] (readyOf command) dials) := by
  have hreadied : ∀ y, (s.answered x manager rest [] (readyOf command) dials).readied y =
      s.readied y := by
    intro y
    by_cases hy : y = x
    · subst hy
      rw [answered_readied_self, hready]
      exact List.append_nil _
    · exact answered_readied_of_ne hy
  have hcontrol : ∀ f, (s.answered x manager rest [] (readyOf command) dials).control f =
      s.control f := fun f => List.append_nil _
  have hreplaced : ∀ f, (s.answered x manager rest [] (readyOf command) dials).Replaced f ↔
      s.Replaced f := fun f => by rw [Replaced, Replaced, hreadied]
  refine ⟨hinv.toIdentified.answered hm, hinv.toGreeting.answered hm,
    hinv.toAnnounced.answered hc, ⟨?_, ?_, ?_, ?_, ?_⟩, ⟨hinv.closed_iff, ?_⟩⟩
  · intro f hf
    rw [hreadied] at hf
    rw [hcontrol]
    exact hinv.unheard f hf
  · intro y hy
    rw [hreadied] at hy
    by_cases hyx : y = x
    · subst hyx
      rw [answered_listing_self hm]
      exact hnone hy
    · rw [answered_listing_of_ne hm hyx]
      exact hinv.unlisted y hy
  · intro y k l hl
    rw [hreadied] at hl
    rw [hcontrol]
    exact hinv.accepted y k l hl
  · intro y k l hl
    rw [hreadied] at hl
    rw [answered_id hm]
    by_cases hyx : y = x
    · subst hyx
      rw [answered_listing_self hm, answered_commands_self]
      exact hlisting k l hl
    · rw [answered_listing_of_ne hm hyx, answered_commands_of_ne hyx]
      exact hinv.listed y k l hl
  · intro f hf
    rw [hreplaced] at hf
    rw [hcontrol]
    exact hinv.shutDown f hf
  · intro f hf
    rw [hreplaced, hreplaced]
    rw [Closing, hcontrol] at hf
    exact hinv.closing f hf

/-- Commands that leave the peer list alone. -/
theorem Inv.answered_unlisted (hinv : Inv s) (hm : manager.ourNodeid = s.id x)
    (hc : s.commands x = command :: rest) (hready : readyOf command = none)
    (hclosed : ∀ p c, command ≠ .peerClosed p c) (hpeers : manager.peers = (s.manager x).peers) :
    Inv (s.answered x manager rest [] (readyOf command) dials) := by
  have hsessions : manager.sessions (s.id !x) = s.listing x := by
    rw [listing, IpcManager.sessions, IpcManager.sessions, hpeers]
  refine hinv.answered hm hc hready (fun k l hl => ?_) (fun h => ?_)
  · rw [hsessions]
    rcases hinv.listed x k l hl with h | ⟨c, hlist, hpeer, hover⟩
    · exact .inl h
    · refine .inr ⟨c, hlist, hpeer, fun hst => ?_⟩
      have hmem := hover hst
      rw [hc] at hmem
      exact (List.mem_cons.mp hmem).resolve_left (hclosed _ c).symm
  · rw [hsessions]
    exact hinv.unlisted x h

/-- The end of a session takes its own entry off the list, if that is still there. -/
theorem Inv.answered_peerClosed (hinv : Inv s) {p : NodeId} {c : ConnectionId}
    (hm : ((s.manager x).peerClosed p c).ourNodeid = s.id x)
    (hc : s.commands x = command :: rest) (hcommand : command = .peerClosed p c) :
    Inv (s.answered x ((s.manager x).peerClosed p c) rest [] (readyOf command) dials) := by
  subst hcommand
  obtain ⟨k, hk, hover⟩ := hinv.reported x p c (by rw [hc]; exact List.mem_cons_self)
  obtain rfl : p = s.id !x := by
    have hne : s.stage (x, k) ≠ .greeting := by simp [hover]
    obtain ⟨c', hc'⟩ := hinv.registered (x, k) (not_greeting hne).1 (not_greeting hne).2
    rw [hk] at hc'
    simpa using congrArg (Option.map RegisteredPeer.peerId) hc'
  have hsessions : ((s.manager x).peerClosed (s.id !x) c).sessions (s.id !x) =
      (s.listing x).filter fun e => decide (e.connectionId ≠ c) :=
    (s.manager x).sessions_peerClosed (s.id !x) c
  refine hinv.answered hm hc rfl (fun k' l hl => ?_) (fun h => ?_)
  · rw [hsessions]
    rcases hinv.listed x k' l hl with ⟨hnil, hst⟩ | ⟨c', hlist, hpeer, hst⟩
    · exact .inl ⟨by simp [hnil], hst⟩
    · by_cases hcc : c' = c
      · -- the two sessions of a side have different numbers, so this is the one that ended
        have hkk : k' = k := by
          by_contra hkk
          obtain rfl : k = !k' := by cases k <;> cases k' <;> simp_all
          exact hinv.distinct (x, k') _ _ hpeer hk hcc
        exact .inl ⟨by simp [hlist, hcc], by rw [hkk, hover]⟩
      · refine .inr ⟨c', by simp [hlist, hcc], hpeer, fun h => ?_⟩
        have hmem := hst h
        rw [hc] at hmem
        refine (List.mem_cons.mp hmem).resolve_left (fun heq => hcc ?_)
        simpa using heq
  · rw [hsessions, hinv.unlisted x h]
    rfl

end answered

/-- A manager lists the other node at most once. -/
theorem Inv.listing_tail (hinv : Inv s) (x : Bool) : (s.listing x).tail = [] := by
  rcases List.eq_nil_or_concat' (s.readied x) with h | ⟨l, k, h⟩
  · rw [hinv.unlisted x h]
    rfl
  · rcases hinv.listed x k l h with ⟨hnil, -⟩ | ⟨c, hlist, -⟩
    · rw [hnil]
      rfl
    · rw [hlist]
      rfl

section sessionReady

variable {k : Bool} {c : ConnectionId} {rest : List (IpcCommand (Control σ))} {dials : List NodeId}

/-- A session that is reported ready waits for the answer and has heard nothing. -/
theorem Inv.ready_awaits (hinv : Inv s)
    (hc : s.commands x = .sessionReady (s.id !x) (.inl k) c :: rest) :
    k ∉ s.readied x ∧ s.control (x, k) = [] ∧ s.stage (x, k) = .awaiting := by
  have hk : k ∉ s.readied x := by
    have hnodup := hinv.nodup x
    rw [announced, hc, List.filterMap_cons] at hnodup
    intro hk
    exact (List.nodup_append.mp hnodup).2.2 k hk k List.mem_cons_self rfl
  obtain ⟨hcontrol, hstage⟩ := hinv.unheard (x, k) hk
  have hgreet := hinv.mem_of_ready (by rw [hc]; exact List.mem_cons_self)
  exact ⟨hk, hcontrol, hstage.resolve_left hgreet⟩

/-- A session that is still listed is the one that was answered last. -/
theorem Inv.listing_cases (hinv : Inv s) (hk : k ∉ s.readied x) :
    s.listing x = [] ∨ s.readied x = [!k] ∧ ∃ c', s.listing x = [⟨s.id !x, .inl !k, c'⟩] := by
  rcases List.eq_nil_or_concat' (s.readied x) with h | ⟨l, k', h⟩
  · exact .inl (hinv.unlisted x h)
  · obtain rfl : k' = !k := by
      have hne : k' ≠ k := by
        rintro rfl
        exact hk (by simp [h])
      cases k <;> cases k' <;> simp_all
    have hl : l = [] := by
      have hnodup := hinv.nodup_readied x
      rw [h] at hk hnodup
      cases l with
      | nil => rfl
      | cons a l => cases a <;> cases k <;> simp at hk hnodup
    rcases hinv.listed x (!k) l h with ⟨hnil, -⟩ | ⟨c', hlist, -⟩
    · exact .inl hnil
    · exact .inr ⟨by rw [h, hl]; rfl, c', hlist⟩

/-- The answer to a session that is ready: the other one is told to shut down if it is still
listed, and the new one is accepted. -/
theorem Inv.addressed_ready (hinv : Inv s) (hk : k ∉ s.readied x) (f : End) :
    addressed x ((s.manager x).sessionReady (s.id !x) (.inl k) c).2 f =
      if f = (x, k) then [.accepted]
      else if f = (x, !k) ∧ s.listing x ≠ [] then [.shutdown] else [] := by
  rw [((s.manager x).sessionReady_spec (s.id !x) (.inl k) c).2]
  have hlisting : (s.manager x).sessions (s.id !x) = s.listing x := rfl
  rw [hlisting]
  rcases hinv.listing_cases hk with h | ⟨-, c', h⟩
  · rw [h]
    by_cases hf : f = (x, k)
    · simp [addressed, hf]
    · simp [addressed, hf, Ne.symm hf]
  · rw [h]
    by_cases hf : f = (x, k)
    · simp [addressed, hf]
    · by_cases hf' : f = (x, !k)
      · simp [addressed, hf']
      · simp [addressed, hf, hf', Ne.symm hf, Ne.symm hf']

/-- A session that is ready becomes the listed one. -/
theorem Inv.answered_sessionReady (hinv : Inv s) {p : NodeId} {t : Control σ}
    {command : IpcCommand (Control σ)} (hc : s.commands x = command :: rest)
    (hcommand : command = .sessionReady p t c)
    (hm : ((s.manager x).sessionReady p t c).1.ourNodeid = s.id x)
    (hs' : s' = s.answered x ((s.manager x).sessionReady p t c).1 rest
      ((s.manager x).sessionReady p t c).2 (readyOf command) dials) : Inv s' := by
  have hann : Announced s' := hs' ▸ hinv.toAnnounced.answered hc
  have hident : Identified s' := hs' ▸ hinv.toIdentified.answered hm
  have hgreeting : Greeting s' := hs' ▸ hinv.toGreeting.answered hm
  subst hcommand
  obtain ⟨k, rfl, hpeer⟩ := hinv.ready x p t c (by rw [hc]; exact List.mem_cons_self)
  have hgreet := hinv.mem_of_ready (k := k) (by rw [hc]; exact List.mem_cons_self)
  obtain rfl : p = s.id !x := by
    obtain ⟨c', hc'⟩ := hinv.registered (x, k) (not_greeting hgreet).1 (not_greeting hgreet).2
    rw [hpeer] at hc'
    simpa using congrArg (Option.map RegisteredPeer.peerId) hc'
  obtain ⟨hk, hheard, hstage⟩ := hinv.ready_awaits hc
  -- the parts of the new state
  have hlist : s'.listing x = [⟨s.id !x, .inl k, c⟩] := by
    rw [hs', answered_listing_self hm, ((s.manager x).sessionReady_spec (s.id !x) (.inl k) c).1]
    exact congrArg _ (hinv.listing_tail x)
  have hlist' : ∀ y ≠ x, s'.listing y = s.listing y := fun y hy =>
    hs' ▸ answered_listing_of_ne hm hy
  have hread : s'.readied x = s.readied x ++ [k] := hs' ▸ answered_readied_self
  have hread' : ∀ y ≠ x, s'.readied y = s.readied y := fun y hy => hs' ▸ answered_readied_of_ne hy
  have hid : ∀ y, s'.id y = s.id y := fun y => hs' ▸ answered_id hm y
  have hsession : s'.session = s.session := by rw [hs', answered_session]
  have hst : ∀ f, s'.stage f = s.stage f := fun f => by rw [hs', answered_stage]
  have hcontrol : ∀ f, s'.control f = s.control f ++ if f = (x, k) then [.accepted]
      else if f = (x, !k) ∧ s.listing x ≠ [] then [.shutdown] else [] := fun f => by
    rw [hs', answered_control, hinv.addressed_ready hk]
  have hreplaced : ∀ f : End, s.Replaced f → s'.Replaced f := by
    intro f hf
    have hne : f.1 ≠ x := by
      rintro rfl
      have hr : s.readied f.1 = [f.2, !f.2] := hf
      rw [hr] at hk
      cases hk' : f.2 <;> cases k <;> simp [hk'] at hk
    rw [Replaced, hread' f.1 hne]
    exact hf
  refine ⟨hident, hgreeting, hann, ⟨?_, ?_, ?_, ?_, ?_⟩, ⟨?_, ?_⟩⟩
  · intro f hf
    have hold : f.2 ∉ s.readied f.1 ∧ f ≠ (x, k) := by
      by_cases hfx : f.1 = x
      · rw [hfx, hread] at hf
        refine ⟨fun h => hf (List.mem_append_left _ (hfx ▸ h)), ?_⟩
        rintro rfl
        exact hf (by simp)
      · rw [hread' f.1 hfx] at hf
        exact ⟨hf, fun h => hfx (by rw [h])⟩
    have hlisted : ¬ (f = (x, !k) ∧ s.listing x ≠ []) := by
      rintro ⟨rfl, hne⟩
      rcases hinv.listing_cases hk with h | ⟨hr, -⟩
      · exact hne h
      · exact hold.1 (by simp [hr])
    rw [hcontrol, if_neg hold.2, if_neg hlisted, List.append_nil, hst]
    exact hinv.unheard f hold.1
  · intro y hy
    have hne : y ≠ x := by
      rintro rfl
      simp [hread] at hy
    rw [hread' y hne] at hy
    rw [hlist' y hne]
    exact hinv.unlisted y hy
  · intro y k' l hl
    rw [hcontrol, hst]
    by_cases hy : y = x
    · subst hy
      rw [hread] at hl
      obtain ⟨-, rfl⟩ : s.readied y = l ∧ k = k' := by simpa using List.append_inj' hl rfl
      simp [hheard, hstage]
    · rw [hread' y hy] at hl
      rw [if_neg (fun h => hy (congrArg Prod.fst h)), if_neg (fun h => hy (congrArg Prod.fst h.1)),
        List.append_nil]
      exact hinv.accepted y k' l hl
  · intro y k' l hl
    rw [hst, hid, hsession]
    by_cases hy : y = x
    · subst hy
      rw [hread] at hl
      obtain ⟨-, rfl⟩ : s.readied y = l ∧ k = k' := by simpa using List.append_inj' hl rfl
      exact .inr ⟨c, hlist, hpeer, fun h => by simp [hstage] at h⟩
    · rw [hread' y hy] at hl
      have hcommands : s'.commands y = s.commands y := hs' ▸ answered_commands_of_ne hy
      rw [hlist' y hy, hcommands]
      exact hinv.listed y k' l hl
  · rintro ⟨y, j⟩ hf
    rw [hcontrol, hst]
    by_cases hy : y = x
    · -- the session that was answered before, and is told now unless it has ended
      subst hy
      have hboth : s.readied y ++ [k] = [j] ++ [!j] := by
        rw [← hread]
        exact hf
      obtain ⟨hr, rfl⟩ : s.readied y = [j] ∧ k = !j := by simpa using List.append_inj' hboth rfl
      have hold := hinv.accepted y j [] hr
      rw [if_neg (by simp)]
      rcases hinv.listed y j [] hr with ⟨-, hover⟩ | ⟨c', hlist, -⟩
      · exact ⟨fun h => by simp [hover] at h, fun h => by simp [hover] at h⟩
      · have htold : (y, j) = (y, !!j) ∧ s.listing y ≠ [] := by simp [hlist]
        rw [if_pos htold, hold]
        exact ⟨fun h => by simp [h], fun h => by simp [h]⟩
    · rw [if_neg (fun h => hy (congrArg Prod.fst h)), if_neg (fun h => hy (congrArg Prod.fst h.1)),
        List.append_nil]
      refine hinv.shutDown (y, j) ?_
      rwa [Replaced, hread' y hy] at hf
  · intro f
    rw [hst, ← hinv.closed_iff, hs']
    rfl
  · intro f hf
    have hwire : s'.wire = s.wire := by rw [hs']; rfl
    rw [Closing, hst, hcontrol, hwire, List.mem_append] at hf
    have hold : s.Closing f → s'.Replaced f ∨ s'.Replaced f.far := fun h =>
      (hinv.closing f h).imp (hreplaced f) (hreplaced f.far)
    rcases hf with h | h | h | (h | h) | h
    · exact hold (.inl h)
    · exact hold (.inr (.inl h))
    · exact hold (.inr (.inr (.inl h)))
    · exact hold (.inr (.inr (.inr (.inl h))))
    · -- the one that is told to shut down has just been replaced
      have hf' : f = (x, !k) ∧ s.listing x ≠ [] := by
        by_cases hfk : f = (x, k)
        · simp [hfk] at h
        · by_contra hn
          rw [if_neg hfk, if_neg hn] at h
          cases h
      rcases hinv.listing_cases hk with hnil | ⟨hr, -⟩
      · exact absurd hnil hf'.2
      · refine .inl ?_
        rw [Replaced, hf'.1, hread, hr]
        simp
    · exact hold (.inr (.inr (.inr (.inr h))))

end sessionReady

/-- An answer of a manager keeps everything in order. -/
theorem stepManager_inv (hinv : Inv s) {connects : NodeId → Bool}
    (h : s.stepManager x connects = some s') : Inv s' := by
  obtain ⟨command, rest, hc, rfl⟩ := stepManager_cases h
  have hm : ((s.manager x).handleIpcCommand connects command).1.ourNodeid = s.id x :=
    (s.manager x).ourNodeid_handleIpcCommand connects command
  cases command with
  | peerClosed p c => exact hinv.answered_peerClosed hm hc rfl
  | sessionReady p t c => exact hinv.answered_sessionReady hc rfl hm rfl
  | learnedPeers ids =>
    exact hinv.answered_unlisted hm hc rfl (fun _ _ h => by cases h)
      ((s.manager x).peers_dialPeers ids false connects)
  | handshakeFailed expected =>
    exact hinv.answered_unlisted hm hc rfl (fun _ _ h => by cases h)
      ((s.manager x).peers_handshakeFailed expected)

/-- Before anything happens all is in order. -/
theorem start_inv {manager : Bool → IpcManager (Control σ)} {counter : Bool → ConnectionId}
    {now : Instant} {interval timeout : Duration}
    (hm : ∀ x, (manager x).sessions (manager !x).ourNodeid = []) :
    Inv (start manager counter now interval timeout) := by
  refine ⟨⟨?_, ?_, ?_, ?_, ?_, ?_, ?_, ?_, ?_⟩, ⟨?_, ?_⟩, ⟨?_, ?_, ?_, ?_⟩, ⟨?_, ?_, ?_, ?_, ?_⟩,
    ⟨?_, ?_⟩⟩
  · intro e
    rfl
  · intro e
    rfl
  · intro e
    simp only [start, IpcPeer.new, id]
    split
    · exact .inr rfl
    · exact .inl rfl
  · intro e
    simp [stage, start, IpcPeer.new, IpcState.stage]
  · intro e h
    exact absurd rfl h
  · intro e h
    exact absurd rfl h
  · intro e p c h
    cases h
  · intro e r h
    cases h
  · intro e r r' h
    cases h
  · intro e _
    exact ⟨rfl, .inl rfl⟩
  · intro e _ h
    exact absurd rfl h
  · intro x
    simp [announced, start]
  · intro e
    simp [announced, start, stage, IpcPeer.new, IpcState.stage]
  · intro x p t c h
    cases h
  · intro x p c h
    cases h
  · intro e _
    exact ⟨rfl, .inl rfl⟩
  · intro x _
    exact hm x
  · intro x k l h
    simp [start] at h
  · intro x k l h
    simp [start] at h
  · intro e h
    simp [Replaced, start] at h
  · intro e
    simp [start, stage, IpcPeer.new, IpcState.stage]
  · intro e h
    simp [Closing, start, stage, IpcPeer.new, IpcState.stage] at h

/-- Whatever happens, all stays in order. -/
theorem run_inv (hinv : Inv s) {events : List Event} (h : s.run events = some s') : Inv s' := by
  induction events generalizing s with
  | nil =>
    obtain rfl : s = s' := by simpa [run] using h
    exact hinv
  | cons event events ih =>
    rw [run, List.foldlM_cons] at h
    obtain ⟨t, ht, h⟩ := Option.bind_eq_some_iff.mp h
    refine ih ?_ h
    cases event with
    | session e now input => exact (stepSession_move hinv ht).inv hinv
    | manager x connects => exact stepManager_inv hinv ht

/-- A session that waits for nobody can go on. -/
theorem exists_next (peer : IpcPeer (Control σ)) (ctx : IpcContext) (h₁ : peer.state ≠ .helloSent)
    (h₂ : peer.state ≠ .awaitAccepted) (h₃ : peer.state ≠ .waitForMessages)
    (h₄ : peer.state ≠ .ended) (h₅ : peer.state ≠ .panicked) :
    ∃ input, (input = .wrote true ∨ input = .told true ∨ input = .proceed) ∧
      peer.next ctx input ≠ none := by
  have wrote : peer.next ctx (.wrote true) ≠ none → ∃ input, (input = .wrote true ∨
      input = .told true ∨ input = .proceed) ∧ peer.next ctx input ≠ none :=
    fun h => ⟨.wrote true, .inl rfl, h⟩
  have told : peer.next ctx (.told true) ≠ none → ∃ input, (input = .wrote true ∨
      input = .told true ∨ input = .proceed) ∧ peer.next ctx input ≠ none :=
    fun h => ⟨.told true, .inr (.inl rfl), h⟩
  have proceed : peer.next ctx .proceed ≠ none → ∃ input, (input = .wrote true ∨
      input = .told true ∨ input = .proceed) ∧ peer.next ctx input ≠ none :=
    fun h => ⟨.proceed, .inr (.inr rfl), h⟩
  cases hs : peer.state with
  | helloSent => exact absurd hs h₁
  | awaitAccepted => exact absurd hs h₂
  | waitForMessages => exact absurd hs h₃
  | ended => exact absurd hs h₄
  | panicked => exact absurd hs h₅
  | hello | abortHandshake | sendPing | nodeMessageReceived m | closePeer | shutdown =>
    refine wrote ?_
    rw [IpcPeer.next.eq_def, hs]
    exact Option.some_ne_none _
  | sendPeers =>
    refine wrote ?_
    rw [IpcPeer.next.eq_def, hs]
    cases peer.peerId <;> exact Option.some_ne_none _
  | helloReceived p c | handshakeAborted =>
    refine told ?_
    rw [IpcPeer.next.eq_def, hs]
    exact Option.some_ne_none _
  | streamClosed =>
    refine told ?_
    rw [IpcPeer.next.eq_def, hs]
    cases peer.established <;> exact Option.some_ne_none _
  | heartbeatTick =>
    refine proceed ?_
    rw [IpcPeer.next.eq_def, hs]
    cases peer.hb.timedOut ctx.now <;> cases peer.hb.pingDue ctx.now <;> exact Option.some_ne_none _
  | handleError =>
    refine proceed ?_
    rw [IpcPeer.next.eq_def, hs]
    exact Option.some_ne_none _
  | ipcControlReceived m =>
    refine proceed ?_
    rw [IpcPeer.next.eq_def, hs]
    cases m <;> exact Option.some_ne_none _
  | ipcMessageReceived m =>
    cases m with
    | knownPeers ids =>
      refine told ?_
      rw [IpcPeer.next.eq_def, hs]
      exact Option.some_ne_none _
    | ping token =>
      refine wrote ?_
      rw [IpcPeer.next.eq_def, hs]
      exact Option.some_ne_none _
    | closeConnection | nodeMsg m | hello id | neighborRemoved id | pong token =>
      refine proceed ?_
      rw [IpcPeer.next.eq_def, hs]
      exact Option.some_ne_none _

/-- When everything is processed no session can use what is there for it. -/
theorem Quiet.next_eq_none (hq : s.Quiet) (e : End) (input : IpcInput)
    (hin : ∀ m, input ≠ .node m) (ht : s.take e input ≠ none) :
    (s.session e).next (s.context e 0) input = none := by
  have h := hq (.session e 0 input) (fun _ _ m h => hin m (by cases h; rfl))
  obtain ⟨s₁, hs₁⟩ := Option.ne_none_iff_exists'.mp ht
  simpa [step, stepSession, hs₁] using h

theorem Quiet.commands_eq_nil (hq : s.Quiet) (x : Bool) : s.commands x = [] := by
  have h := hq (.manager x fun _ => false) (fun _ _ _ h => by cases h)
  cases hc : s.commands x with
  | nil => rfl
  | cons command rest => simp [step, stepManager, hc] at h

/-- When everything is processed the sessions wait, for each other or for the manager, or
have ended. -/
theorem Quiet.waits (hq : s.Quiet) (hinv : Inv s) (e : End) :
    (s.session e).state = .helloSent ∨ (s.session e).state = .awaitAccepted ∨
      (s.session e).state = .waitForMessages ∨ (s.session e).state = .ended := by
  by_contra! h
  have htrack : (s.session e).state ≠ .panicked := by
    intro hp
    exact hinv.onTrack e (by simp [stage, hp, IpcState.stage])
  obtain ⟨input, hinput, hnext⟩ :=
    exists_next (s.session e) (s.context e 0) h.1 h.2.1 h.2.2.1 h.2.2.2 htrack
  refine hnext (hq.next_eq_none e input ?_ ?_)
  · rcases hinput with rfl | rfl | rfl <;> simp
  · rcases hinput with rfl | rfl | rfl <;> simp [take]

/-- When everything is processed a session either waits for messages or has ended, and one
that waits has nothing to read and its far end is open. -/
theorem Quiet.session_cases (hq : s.Quiet) (hinv : Inv s) (e : End) :
    ((s.session e).state = .waitForMessages ∧ s.control e = [] ∧ s.closed e.far = false) ∨
      s.stage e = .over := by
  rcases hq.waits hinv e with hst | hst | hst | hst
  · -- the far session has greeted, so there is something to read
    have hfar : (s.session e.far).state ≠ .hello := by
      intro hfar
      rcases hq.waits hinv e.far with h | h | h | h <;> simp [hfar] at h
    obtain ⟨rest, hwire⟩ := hinv.greeted e (.inr hst) hfar
    have hnext := hq.next_eq_none e (.read (some (some (.hello (s.id !e.1))))) (by simp)
      (by simp [take, hwire])
    rw [IpcPeer.next.eq_def, hst] at hnext
    cases hnext
  · -- the manager has answered, for it has nothing left to do
    have hstage : s.stage e = .awaiting := by simp [stage, hst, IpcState.stage]
    have hmem : e.2 ∈ s.readied e.1 := by
      have h := (hinv.mem_announced e).mpr (by simp [hstage])
      simpa [announced, hq.commands_eq_nil] using h
    obtain ⟨rest, hcontrol⟩ := hinv.control_answered hmem hstage
    have hnext := hq.next_eq_none e (.control (some .accepted)) (by simp) (by simp [take, hcontrol])
    rw [IpcPeer.next.eq_def, hst] at hnext
    cases hnext
  · have hstage : s.stage e = .live := by simp [stage, hst, IpcState.stage]
    obtain ⟨c, hc⟩ := hinv.registered e (by simp [hst]) (by simp [hst])
    have hpeer : ¬ (s.session e).peer = none := by simp [hc]
    have hnone : ∀ input, (∀ m, input ≠ .node m) → s.take e input ≠ none →
        (s.session e).next (s.context e 0) input = none := hq.next_eq_none e
    simp only [IpcPeer.next.eq_def, hst, if_neg hpeer] at hnone
    refine .inl ⟨hst, ?_, ?_⟩
    · rcases hinv.control_live hstage with h | h
      · exact h
      · cases hnone (.control (some .shutdown)) (by simp) (by simp [take, h])
    · by_contra hclosed
      cases hw : s.wire e with
      | nil => cases hnone (.read none) (by simp) (by simpa [take, hw] using hclosed)
      | cons m rest => cases hnone (.read (some (some m))) (by simp) (by simp [take, hw])
  · exact .inr (by simp [stage, hst, IpcState.stage])

/-- When everything is processed every session has been answered. -/
theorem Quiet.mem_readied (hq : s.Quiet) (hinv : Inv s) (e : End) : e.2 ∈ s.readied e.1 := by
  by_contra hk
  have hstage := (hinv.unheard e hk).2
  rcases hq.session_cases hinv e with ⟨hst, -⟩ | hst
  · simp [stage, hst, IpcState.stage] at hstage
  · simp [hst] at hstage

/-- When everything is processed a replaced session has ended. -/
theorem Quiet.over_of_replaced (hq : s.Quiet) (hinv : Inv s) (h : s.Replaced e) :
    s.stage e = .over := by
  rcases hq.session_cases hinv e with ⟨hst, hcontrol, -⟩ | hst
  · have htold := (hinv.shutDown e h).2 (by simp [stage, hst, IpcState.stage])
    rw [hcontrol] at htold
    cases htold
  · exact hst

/-- The two sessions of a stream end together. -/
theorem Quiet.over_far (hq : s.Quiet) (hinv : Inv s) (h : s.stage e = .over) :
    s.stage e.far = .over := by
  have hclosed := (hinv.closed_iff e).mpr (.inr h)
  rcases hq.session_cases hinv e.far with ⟨-, -, hopen⟩ | hst
  · rw [End.far_far, hclosed] at hopen
    cases hopen
  · exact hst

/-- When everything is processed each manager has answered both sessions. -/
theorem Quiet.readied_eq (hq : s.Quiet) (hinv : Inv s) (x : Bool) :
    ∃ k, s.readied x = [!k, k] := by
  have hmem : ∀ k, k ∈ s.readied x := fun k => hq.mem_readied hinv (x, k)
  have hnodup := hinv.nodup_readied x
  rcases mem_nodup_cases hnodup (hmem true) with ⟨l, hl⟩ | h
  · rcases mem_nodup_cases hnodup (hmem false) with ⟨l', hl'⟩ | h
    · rw [hl] at hl'
      cases (List.append_inj' hl' rfl).2
    · exact ⟨true, h⟩
  · exact ⟨false, h⟩

/-- Two managers that have answered in the same order keep the last session. -/
theorem Quiet.settled_of_eq (hq : s.Quiet) (hinv : Inv s) {k : Bool}
    (h : ∀ x, s.readied x = [!k, k]) : s.Settled := by
  have hopen : ∀ x, s.stage (x, k) ≠ .over := by
    intro x hover
    have hno : ∀ y, ¬ s.Replaced (y, k) := by
      intro y hr
      have hr' : s.readied y = [k, !k] := hr
      rw [h y] at hr'
      cases k <;> cases hr'
    exact (hinv.closing (x, k) (.inr (.inr (.inl hover)))).elim (hno x) (hno !x)
  refine ⟨k, fun x => ?_⟩
  have hwait : (s.session (x, k)).state = .waitForMessages :=
    ((hq.session_cases hinv (x, k)).resolve_right (hopen x)).1
  rcases hinv.listed x k [!k] (h x) with ⟨-, hover⟩ | ⟨c, hlist, hpeer, -⟩
  · exact absurd hover (hopen x)
  · refine ⟨c, hlist, hpeer, hwait, ?_⟩
    rw [← Bool.not_eq_true, hinv.closed_iff]
    simp [stage, hwait, IpcState.stage]

/-- A session that two managers have settled on is the last one on both sides. -/
theorem Quiet.readied_of_settled (hq : s.Quiet) (hinv : Inv s) {k : Bool}
    {c : ConnectionId} (h : s.listing x = [⟨s.id !x, .inl k, c⟩]) : s.readied x = [!k, k] := by
  obtain ⟨k', hk'⟩ := hq.readied_eq hinv x
  rcases hinv.listed x k' [!k'] hk' with ⟨hnil, -⟩ | ⟨c', hlist, -⟩
  · rw [h] at hnil
    cases hnil
  · obtain rfl : k = k' := by
      rw [h] at hlist
      simpa using congrArg (List.map IpcEntry.control) hlist
    exact hk'

section start

variable {manager : Bool → IpcManager (Control σ)} {counter : Bool → ConnectionId} {now : Instant}
  {interval timeout : Duration} {events : List Event}

/-- Two nodes that have dialled each other settle on one session if and only if their
managers have answered the two sessions in the same order. -/
theorem settled_iff_same_order (hm : ∀ x, (manager x).sessions (manager !x).ourNodeid = [])
    (hrun : (start manager counter now interval timeout).run events = some s) (hq : s.Quiet) :
    s.Settled ↔ s.readied false = s.readied true := by
  have hinv := run_inv (start_inv hm) hrun
  constructor
  · rintro ⟨k, hk⟩
    have hread : ∀ x, s.readied x = [!k, k] := by
      intro x
      obtain ⟨c, hlist, -⟩ := hk x
      exact hq.readied_of_settled hinv hlist
    rw [hread false, hread true]
  · intro heq
    obtain ⟨k, hk⟩ := hq.readied_eq hinv false
    refine hq.settled_of_eq hinv (k := k) (fun x => ?_)
    cases x with
    | false => exact hk
    | true => rw [← heq, hk]

/-- Otherwise each manager shuts down the session the other one keeps, and none is left. -/
theorem lost_of_different_order (hm : ∀ x, (manager x).sessions (manager !x).ourNodeid = [])
    (hrun : (start manager counter now interval timeout).run events = some s) (hq : s.Quiet)
    (hne : s.readied false ≠ s.readied true) (e : End) :
    s.listing e.1 = [] ∧ s.closed e = true := by
  have hinv := run_inv (start_inv hm) hrun
  have hover : ∀ e, s.stage e = .over := by
    intro e
    obtain ⟨k, hk⟩ := hq.readied_eq hinv e.1
    obtain ⟨k', hk'⟩ := hq.readied_eq hinv e.far.1
    have hkk : k' = !k := by
      by_contra hkk
      obtain rfl : k' = k := by cases k <;> cases k' <;> simp_all
      apply hne
      rcases e with ⟨_ | _, _⟩
      · exact hk.trans hk'.symm
      · exact hk'.trans hk.symm
    -- one of the two managers has replaced the session at this stream
    by_cases he : e.2 = k
    · have hr : s.Replaced e.far := by
        rw [Replaced, hk', End.far_snd, he, hkk]
        simp
      have hfar := hq.over_far hinv (hq.over_of_replaced hinv hr)
      rwa [End.far_far] at hfar
    · have hr : s.Replaced e := by
        obtain rfl : k = !e.2 := by cases k <;> cases h : e.2 <;> simp_all
        rw [Replaced, hk]
        simp
      exact hq.over_of_replaced hinv hr
  refine ⟨?_, (hinv.closed_iff e).mpr (.inr (hover e))⟩
  obtain ⟨k, hk⟩ := hq.readied_eq hinv e.1
  rcases hinv.listed e.1 k [!k] hk with ⟨hnil, -⟩ | ⟨c, -, -, hreport⟩
  · exact hnil
  · have hmem := hreport (hover _)
    rw [hq.commands_eq_nil] at hmem
    cases hmem

end start

/-- Sessions that wait with nothing to read, or have ended, leave nothing to process. -/
theorem quiet_of_done (hc : ∀ x, s.commands x = [])
    (h : ∀ e, (s.session e).state = .ended ∨ ((s.session e).state = .waitForMessages ∧
      (s.session e).peer ≠ none ∧ s.wire e = [] ∧ s.control e = [] ∧ s.closed e.far = false)) :
    s.Quiet := by
  intro event hnode
  cases event with
  | manager x connects => simp [step, stepManager, hc]
  | session e now input =>
    rw [step, stepSession]
    rcases h e with hst | ⟨hst, hpeer, hwire, hcontrol, hclosed⟩
    · rw [IpcPeer.next.eq_def, hst]
      cases s.take e input <;> rfl
    · rw [IpcPeer.next.eq_def, hst, if_neg hpeer]
      cases input with
      | node m => exact absurd rfl (hnode e now m)
      | read m => rcases m with _ | _ | m <;> simp [take, hwire, hclosed]
      | control m => rcases m with _ | m <;> simp [take, hcontrol]
      | elapsed => rfl
      | wrote ok | told ok => cases s.take e _ <;> rfl
      | proceed => rfl

/-- Two nodes that have no other peers. -/
def twoNodes : Dials Empty :=
  start (fun x => ⟨if x then 2 else 1, [], ∅, false⟩) (fun _ => 1) 0 10000 30000

/-- The ends in the order in which the sessions report that they are ready. -/
def ends (crossed : Bool) : List End :=
  [(false, false), (false, true)] ++ if crossed then [(true, true), (true, false)] else
    [(true, false), (true, true)]

/-- The sessions greet each other, are announced and accepted, and exchange what they know. -/
def opening (crossed : Bool) : List Event :=
  (ends crossed).map (fun e => .session e 0 (.wrote true)) ++
  (ends crossed).map (fun e => .session e 0 (.read (some (some (.hello (twoNodes.id !e.1)))))) ++
  (ends crossed).map (fun e => .session e 0 (.told true)) ++
  [false, false, true, true].map (fun x => .manager x fun _ => true) ++
  (ends crossed).flatMap (fun e => [.session e 0 (.control (some .accepted)),
    .session e 0 (.wrote true)]) ++
  (ends crossed).flatMap (fun e =>
    [.session e 0 (.read (some (some (.knownPeers [twoNodes.id !e.1])))), .session e 0 (.told true)]) ++
  [false, false, true, true].map (fun x => .manager x fun _ => true)

/-- A session that is told to shut down says goodbye, closes its end and reports. -/
def shutsDown (e : End) : List Event :=
  [.session e 0 (.control (some .shutdown)), .session e 0 .proceed, .session e 0 (.wrote true),
    .session e 0 (.wrote true), .session e 0 (.told true)]

/-- A session that is said goodbye to closes its end and reports. -/
def hangsUp (e : End) : List Event :=
  [.session e 0 (.read (some (some .closeConnection))), .session e 0 .proceed,
    .session e 0 (.wrote true), .session e 0 (.told true)]

/-- Both managers have answered the stream of the second node last. -/
def aligned : List Event :=
  opening false ++ shutsDown (false, false) ++ shutsDown (true, false) ++
    [false, true].map fun x => .manager x fun _ => true

/-- Each manager has answered the stream of the other node last. -/
def crossed : List Event :=
  opening true ++ shutsDown (false, false) ++ shutsDown (true, true) ++ hangsUp (true, false) ++
    hangsUp (false, true) ++ [false, false, true, true].map fun x => .manager x fun _ => true

/-- The two nodes after each of the runs. -/
def afterAligned : Dials Empty := (twoNodes.run aligned).get (by decide +kernel)

def afterCrossed : Dials Empty := (twoNodes.run crossed).get (by decide +kernel)

theorem settled_aligned : twoNodes.run aligned = some afterAligned ∧ afterAligned.Quiet ∧
    afterAligned.readied false = afterAligned.readied true ∧ afterAligned.Settled := by
  have hrun : twoNodes.run aligned = some afterAligned := (Option.some_get _).symm
  have hquiet : afterAligned.Quiet := quiet_of_done (by decide +kernel) (by decide +kernel)
  have horder : afterAligned.readied false = afterAligned.readied true := by decide +kernel
  exact ⟨hrun, hquiet, horder, (settled_iff_same_order (by decide +kernel) hrun hquiet).mpr horder⟩

theorem not_settled_crossed : twoNodes.run crossed = some afterCrossed ∧ afterCrossed.Quiet ∧
    ¬ afterCrossed.Settled ∧ (∀ x, (afterCrossed.manager x).peers = []) ∧
    (∀ e, afterCrossed.closed e = true) ∧ ∀ x, afterCrossed.dialled x = [] := by
  have hpeers : ∀ x, (afterCrossed.manager x).peers = [] := by decide +kernel
  refine ⟨(Option.some_get _).symm, quiet_of_done (by decide +kernel) (by decide +kernel), ?_,
    hpeers, by decide +kernel, by decide +kernel⟩
  rintro ⟨k, hk⟩
  obtain ⟨c, hlist, -⟩ := hk false
  rw [IpcManager.sessions, hpeers] at hlist
  cases hlist

end Dials

end Anybus
