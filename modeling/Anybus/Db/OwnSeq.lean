import Anybus.Db.Advances

/-!
# The numbers of a node's own records

The numbers handed out for an own key grow with every change of the record, until a
record is created afresh: it starts again from the beginning, whatever was handed
out before.
-/

namespace Anybus

namespace LsDb

/-- An operation creates a record afresh although its key was handed out before. -/
def Restarts (db : LsDb) (log : Log) (op : Op) : Prop :=
  ∃ x ∈ log, db.Freshens op x.2.key

/-- Two hand-overs of one key that differ in body or dead flag are in growing order. -/
def GrowsFor (selfId : NodeId) (x y : ConnectionId × Lsa) : Prop :=
  x.2.key = y.2.key → x.2.key.origin = selfId → (x.2.body ≠ y.2.body ∨ x.2.dead ≠ y.2.dead) →
    x.2.seq < y.2.seq

/-- What holds along a run: handed out versions of a stored own record are older or the
same, and the trace is in growing order. -/
structure SeqInv (selfId : NodeId) (db : LsDb) (log : Log) : Prop where
  self_eq : db.selfId = selfId
  ok : db.Ok
  below : ∀ x ∈ log, x.2.key.origin = selfId → ∀ r, db.db.get x.2.key = some r →
    x.2.seq < r.lsa.seq ∨ (x.2.seq = r.lsa.seq ∧ x.2.dead = r.lsa.dead ∧ x.2.body = r.lsa.body)
  grows : log.Pairwise (GrowsFor selfId)

theorem SeqInv.advance {selfId : NodeId} {db db' : LsDb} {w w' : Wires} {fresh : LsaKey → Prop}
    (hi : SeqInv selfId db w.handed) (h : Advances db w db' w' fresh)
    (hfresh : ∀ x ∈ w.handed, ¬ fresh x.2.key) : SeqInv selfId db' w'.handed := by
  obtain ⟨out, hout, hstep⟩ := h.own
  rw [hi.self_eq] at hstep
  have hbelow : ∀ x ∈ w'.handed, x.2.key.origin = selfId → ∀ r, db'.db.get x.2.key = some r →
      x.2.seq < r.lsa.seq ∨ (x.2.seq = r.lsa.seq ∧ x.2.dead = r.lsa.dead ∧ x.2.body = r.lsa.body) := by
    intro x hx ho r hr
    rw [hout] at hx
    rcases List.mem_append.mp hx with hx | hx
    · rcases hstep.kept _ r ho hr with hf | ⟨r₀, hr₀, hnew⟩
      · exact absurd hf (hfresh x hx)
      · rcases hi.below x hx ho r₀ hr₀ with hlt | ⟨hseq, hdead, hbody⟩
        · rcases hnew with heq | hlt'
          · exact Or.inl (heq ▸ hlt)
          · exact Or.inl (hlt.trans hlt')
        · rcases hnew with heq | hlt'
          · exact Or.inr (heq ▸ ⟨hseq, hdead, hbody⟩)
          · exact Or.inl (hseq ▸ hlt')
    · rcases hstep.sent x hx ho with ⟨r', hr', heq⟩ | ⟨hnone, _⟩
      · obtain rfl : r = r' := Option.some.inj (hr.symm.trans hr')
        exact Or.inr (heq ▸ ⟨rfl, rfl, rfl⟩)
      · rw [hr] at hnone
        cases hnone
  refine ⟨h.self_eq.trans hi.self_eq, h.ok, hbelow, ?_⟩
  rw [hout, List.pairwise_append]
  refine ⟨hi.grows, ?_, fun x hx y hy hkey ho hdiff => ?_⟩
  · -- One operation hands out only one version of an own key.
    refine List.pairwise_of_forall_mem_list fun x hx y hy hkey ho hdiff => ?_
    have hsame : x.2 = y.2 := by
      rcases hstep.sent x hx ho with ⟨r, hr, hx'⟩ | ⟨hnone, r, hr, hx'⟩
      · rcases hstep.sent y hy (hkey ▸ ho) with ⟨r', hr', hy'⟩ | ⟨hnone, _⟩
        · rw [← hkey, hr] at hr'
          rw [← hx', ← hy', Option.some.inj hr']
        · rw [← hkey, hr] at hnone
          cases hnone
      · rcases hstep.sent y hy (hkey ▸ ho) with ⟨r', hr', _⟩ | ⟨_, r', hr', hy'⟩
        · rw [← hkey, hnone] at hr'
          cases hr'
        · rw [← hkey, hr] at hr'
          rw [hx', hy', Option.some.inj hr']
    rw [hsame] at hdiff
    rcases hdiff with hdiff | hdiff <;> exact absurd rfl hdiff
  · rcases hstep.sent y hy (hkey ▸ ho) with ⟨r, hr, hy'⟩ | ⟨_, r, hr, hy'⟩
    · have hx' : x ∈ w'.handed := hout ▸ List.mem_append_left _ hx
      rcases hbelow x hx' ho r (hkey ▸ hr) with hlt | ⟨_, hdead, hbody⟩
      · exact hy' ▸ hlt
      · rw [← hy'] at hdiff
        rcases hdiff with hdiff | hdiff
        · exact absurd hbody hdiff
        · exact absurd hdead hdiff
    · rw [hy']
      rcases hi.below x hx ho r (hkey ▸ hr) with hlt | ⟨hseq, _, _⟩
      · exact hlt.trans (Nat.lt_succ_self _)
      · exact hseq ▸ Nat.lt_succ_self _

/-- In a run that creates no record afresh under a key it has handed out before, the
numbers handed out for an own key grow with every change of body or dead flag. -/
theorem own_seq_grows (selfId : NodeId) (db : LsDb) (log : Log)
    (h : Reaches (fun db w op => ¬ db.Restarts w.handed op) selfId db log) :
    log.Pairwise (GrowsFor selfId) := by
  suffices hinv : SeqInv selfId db log from hinv.grows
  induction h with
  | new now => exact ⟨rfl, Ok.new selfId now, by simp, .nil⟩
  | rehash _ hre ih =>
    exact ⟨hre.selfId.trans ih.self_eq, ih.ok.rehash hre,
      fun x hx ho r hr => ih.below x hx ho r (hre.get_record _ ▸ hr), ih.grows⟩
  | step _ _ _ hallowed hstep ih =>
    exact ih.advance (step_advances ih.ok hstep) fun x hx hf => hallowed ⟨x, hx, hf⟩

instance (selfId : NodeId) (x y : ConnectionId × Lsa) : Decidable (GrowsFor selfId x y) :=
  inferInstanceAs (Decidable (x.2.key = y.2.key → x.2.key.origin = selfId →
    (x.2.body ≠ y.2.body ∨ x.2.dead ≠ y.2.dead) → x.2.seq < y.2.seq))

end LsDb

/-- The first link of node 1, to node 2. -/
def peerTwo : Link := ⟨0, 2, 1, {.global}, 0⟩

/-- A listener of node 1 on a unicast endpoint. -/
def listenerFive : RegistrationRequest := ⟨5, ⟨.unicast, .global, 0⟩, 7⟩

/-- Registering an endpoint again after its withdrawal starts from zero. -/
theorem own_seq_restarts :
    ¬ ∀ (selfId : NodeId) (db : LsDb) (log : Log), LsDb.Reaches (fun _ _ _ => True) selfId db log →
      log.Pairwise (LsDb.GrowsFor selfId) := by
  intro h
  have hbad : ((LsDb.new 1 0).run [] [LsDb.Action.at false (.addPeer peerTwo),
      LsDb.Action.at false (.addEndpoint listenerFive), LsDb.Action.at true (.removeEndpoint 5),
      LsDb.Action.at false (.addEndpoint listenerFive)]).map
        (fun r => decide (r.2.Pairwise (LsDb.GrowsFor 1))) = some false := by decide +kernel
  obtain ⟨⟨db, log⟩, hrun, hlog⟩ := Option.map_eq_some_iff.mp hbad
  exact of_decide_eq_false hlog (h 1 db log (LsDb.reaches_of_run (.new 0) (fun _ _ _ _ => trivial) hrun))

/-- Registering an endpoint once and closing its listener keeps the order. -/
theorem own_seq_first_registration :
    ∃ db log, LsDb.Reaches (fun db w op => ¬ db.Restarts w.handed op) 1 db log ∧ log.length = 3 ∧
      log.Pairwise (LsDb.GrowsFor 1) := by
  have h₀ : LsDb.Reaches (fun db w op => ¬ db.Restarts w.handed op) 1 (LsDb.new 1 0)
      (Wires.idle 32).handed := .new 0
  have h₁ := h₀.step 0 (.addPeer peerTwo) (by rintro ⟨x, hx, _⟩; cases hx) rfl
  have hkeys : ∀ x ∈ ((LsDb.new 1 0).addPeer (.idle 32) peerTwo 0).2.handed,
      x.2.key.endpointId ≠ 5 := by decide +kernel
  have h₂ := h₁.step 0 (.addEndpoint listenerFive) (by
    rintro ⟨x, hx, ⟨t, info, hadd⟩, _⟩
    rcases RouteTable.addEndpoint_cases hadd with ⟨heff, _⟩ | ⟨_, ⟨heff, _⟩ | ⟨heff | heff, _⟩⟩
    · cases heff
    · exact hkeys x hx (Effects.addLsa.inj heff).1
    · cases heff
    · cases heff) rfl
  have h₃ := LsDb.Reaches.step (w := ⟨fun _ => .channel 32, fun _ => ⟨[], 32, true⟩, _⟩)
    0 (.removeEndpoint 5) h₂ (by rintro ⟨_, _, hf⟩; exact hf) rfl
  exact ⟨_, _, h₃, by decide +kernel, LsDb.own_seq_grows 1 _ _ h₃⟩

end Anybus
