import Anybus.Spf.Invariant
import Mathlib.Algebra.BigOperators.Group.Finset.Basic
import Mathlib.Algebra.Order.BigOperators.Group.Finset

/-!
# The search always ends

Every improvement lowers the cost of one of finitely many nodes and queues at most
one entry, every turn takes one entry away. Twice the sum of the costs plus the
length of the queue therefore falls in every turn.
-/

namespace Anybus

/-- The amount of work left. -/
def Spf.potential (targets : Finset NodeId) (s : Spf) : Nat :=
  2 * (∑ n ∈ targets, s.label n) + s.queue.length

/-- Every adjacency leads to a target. -/
theorem mem_spfTargets {nodes : HashMap NodeId (List Adjacency)} {n : NodeId}
    {adjs : List Adjacency} {adj : Adjacency} (hn : nodes.get n = some adjs) (ha : adj ∈ adjs) :
    adj.peerId ∈ spfTargets nodes := by
  rw [spfTargets, List.mem_toFinset, List.mem_flatMap]
  exact ⟨adjs, HashMap.mem_values_iff.mpr ⟨n, hn⟩, List.mem_map_of_mem ha⟩

section Step

variable {nodes : HashMap NodeId (List Adjacency)} {links : HashMap ConnectionId Link}
  {root : NodeId} {current : Entry} {s s' : Spf} {targets : Finset NodeId}

/-- Trying an adjacency never adds work. -/
theorem relax_potential_le {adj : Adjacency} (ht : adj.peerId ∈ targets)
    (hs : relax links root current s adj = some s') :
    s'.potential targets ≤ s.potential targets := by
  rcases relax_cases hs with ⟨rfl, _⟩ | ⟨hops, _, hlt, rfl⟩
  · exact le_rfl
  · have hlen := requeue_length_le s.queue ⟨current.cost + adj.cost, adj.peerId⟩
    have hsum : ∑ n ∈ targets, (s.improve current adj.peerId (current.cost + adj.cost) hops).label n <
        ∑ n ∈ targets, s.label n := by
      refine Finset.sum_lt_sum (fun n _ => ?_) ⟨adj.peerId, ht, ?_⟩
      · rw [Spf.label_improve, Cost.add_val]
        split
        · next heq =>
          rw [heq]
          omega
        · exact le_rfl
      · rw [Spf.label_improve, if_pos rfl, Cost.add_val]
        omega
    simp only [Spf.potential, Spf.improve] at hsum ⊢
    omega

theorem relaxAll_potential_le {l : List Adjacency} (ht : ∀ adj ∈ l, adj.peerId ∈ targets)
    (hs : relaxAll links root current l s = some s') :
    s'.potential targets ≤ s.potential targets := by
  induction l generalizing s with
  | nil =>
    simp only [relaxAll, Option.some.injEq] at hs
    exact hs ▸ le_rfl
  | cons adj l ih =>
    simp only [relaxAll] at hs
    cases hr : relax links root current s adj with
    | none => simp [hr] at hs
    | some t =>
      simp only [hr] at hs
      exact (ih (fun a ha => ht a (List.mem_cons_of_mem _ ha)) hs).trans
        (relax_potential_le (ht adj List.mem_cons_self) hr)

/-- A turn leaves less work than it found. -/
theorem spfTurn_potential_lt {rest : List Entry} (hq : s.queue = current :: rest)
    (hs : spfTurn nodes links root current rest s = some s') :
    s'.potential (spfTargets nodes) < s.potential (spfTargets nodes) := by
  have hpop : ({ s with queue := rest } : Spf).potential (spfTargets nodes) + 1 =
      s.potential (spfTargets nodes) := by
    simp only [Spf.potential, hq, List.length_cons]
    rfl
  unfold spfTurn at hs
  cases hn : nodes.get current.node with
  | none =>
    simp only [hn, Option.some.injEq] at hs
    subst hs
    omega
  | some adjs =>
    simp only [hn] at hs
    have hle := relaxAll_potential_le (fun adj ha => mem_spfTargets hn ha) hs
    omega

/-- With more turns than work the loop stops by itself, at the empty queue or at a
panic, and further turns change nothing. -/
theorem spfLoop_stops {fuel : Nat} (hf : s.potential (spfTargets nodes) < fuel) :
    (∀ s', spfLoop nodes links root fuel s = some s' → s'.queue = []) ∧
      ∀ extra, spfLoop nodes links root (fuel + extra) s = spfLoop nodes links root fuel s := by
  induction fuel generalizing s with
  | zero => exact absurd hf (Nat.not_lt_zero _)
  | succ fuel ih =>
    cases hq : s.queue with
    | nil =>
      refine ⟨fun s' hs => ?_, fun extra => ?_⟩
      · simp only [spfLoop, hq, Option.some.injEq] at hs
        exact hs ▸ hq
      · rw [Nat.add_right_comm]
        simp only [spfLoop, hq]
    | cons current rest =>
      cases ht : spfTurn nodes links root current rest s with
      | none =>
        refine ⟨fun s' hs => ?_, fun extra => ?_⟩
        · simp [spfLoop, hq, ht] at hs
        · rw [Nat.add_right_comm]
          simp only [spfLoop, hq, ht]
      | some t =>
        have hlt := spfTurn_potential_lt hq ht
        obtain ⟨hstop, hmore⟩ := ih (s := t) (by omega)
        refine ⟨fun s' hs => ?_, fun extra => ?_⟩
        · simp only [spfLoop, hq, ht] at hs
          exact hstop s' hs
        · rw [Nat.add_right_comm]
          simp only [spfLoop, hq, ht]
          exact hmore extra

end Step

/-- The fuel of the search exceeds the work at its start. -/
theorem spfInit_potential_lt (nodes : HashMap NodeId (List Adjacency)) (root : NodeId) :
    (spfInit nodes root).potential (spfTargets nodes) < spfFuel nodes := by
  have hsum : ∑ n ∈ spfTargets nodes, (spfInit nodes root).label n ≤
      (spfTargets nodes).card • 65535 :=
    Finset.sum_le_card_nsmul _ _ _ fun n _ => Spf.label_le _ n
  rw [smul_eq_mul] at hsum
  have hlen : (spfInit nodes root).queue.length = 1 := rfl
  simp only [Spf.potential, spfFuel, hlen]
  omega

/-- The search runs until its queue is empty, unless it panics. -/
theorem spf_queue_eq_nil {db : HashMap LsaKey LsaRecord} {links : HashMap ConnectionId Link}
    {root : NodeId} {s : Spf} (h : spf db links root = some s) : s.queue = [] :=
  (spfLoop_stops (spfInit_potential_lt _ root)).1 s h

end Anybus
