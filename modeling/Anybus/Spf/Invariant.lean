import Anybus.Spf.Queue
import Anybus.Core.Walk

/-!
# What a turn of the search keeps

The costs found so far are costs of walks, and an edge whose start is no longer
queued cannot improve its end. The second fact holds for every node except the one
whose adjacencies are being tried; it is closed when the turn is over.
-/

namespace Anybus

/-- The graph of the stored router LSAs. -/
def routerGraph (nodes : HashMap NodeId (List Adjacency)) : WGraph NodeId where
  Edge u v c := ∃ adjacencies, nodes.get u = some adjacencies ∧
    ∃ adj ∈ adjacencies, adj.peerId = v ∧ adj.cost.val = c

/-- The cost found so far as a number. -/
def Spf.label (s : Spf) (n : NodeId) : Nat := (s.costOf n).val

theorem Spf.label_le (s : Spf) (n : NodeId) : s.label n ≤ 65535 := (s.costOf n).le_max

/-- The state after `next` was reached at a lower cost. -/
def Spf.improve (s : Spf) (current : Entry) (next : NodeId) (newCost : Cost)
    (nextHop : HashMap NodeId Link) : Spf where
  cost := s.cost.insert next newCost
  parent := s.parent.insert next current.node
  nextHop := nextHop
  queue := requeue s.queue ⟨newCost, next⟩

theorem Spf.costOf_improve (s : Spf) (current : Entry) (next : NodeId) (newCost : Cost)
    (nextHop : HashMap NodeId Link) (n : NodeId) :
    (s.improve current next newCost nextHop).costOf n =
      if n = next then newCost else s.costOf n := by
  simp only [Spf.costOf, Spf.improve, HashMap.get_insert]
  split <;> rfl

theorem Spf.label_improve (s : Spf) (current : Entry) (next : NodeId) (newCost : Cost)
    (nextHop : HashMap NodeId Link) (n : NodeId) :
    (s.improve current next newCost nextHop).label n =
      if n = next then newCost.val else s.label n := by
  simp only [Spf.label, Spf.costOf_improve]
  split <;> rfl

/-- Everything one adjacency can do: leave the state alone because it is no
improvement, or improve its end and give it a next hop. -/
theorem relax_cases {links : HashMap ConnectionId Link} {root : NodeId} {current : Entry}
    {s s' : Spf} {adj : Adjacency} (h : relax links root current s adj = some s') :
    (s' = s ∧ s.label adj.peerId ≤ current.cost.val + adj.cost.val) ∨
    (∃ hops, inheritHop links root current.node adj.peerId s.nextHop = some hops ∧
      current.cost.val + adj.cost.val < s.label adj.peerId ∧
      s' = s.improve current adj.peerId (current.cost + adj.cost) hops) := by
  have hle := s.label_le adj.peerId
  unfold relax at h
  by_cases hb : Entry.better ⟨current.cost + adj.cost, adj.peerId⟩
      ⟨s.costOf adj.peerId, adj.peerId⟩ = true
  · simp only [hb, ite_true] at h
    rw [Entry.better_same_node, Cost.lt_iff, Cost.add_val] at hb
    change min 65535 _ < s.label adj.peerId at hb
    cases hh : inheritHop links root current.node adj.peerId s.nextHop with
    | none => simp [hh] at h
    | some hops =>
      simp only [hh, Option.some.injEq] at h
      exact Or.inr ⟨hops, rfl, by omega, h.symm⟩
  · simp only [hb, Bool.false_eq_true, ite_false, Option.some.injEq] at h
    rw [Entry.better_same_node, Cost.lt_iff, Cost.add_val] at hb
    change ¬ min 65535 _ < s.label adj.peerId at hb
    exact Or.inl ⟨h.symm, by omega⟩

/-- A panic can only come from a missing next hop of a node other than the root. -/
theorem relax_eq_none {links : HashMap ConnectionId Link} {root : NodeId} {current : Entry}
    {s : Spf} {adj : Adjacency} (h : relax links root current s adj = none) :
    current.node ≠ root ∧ s.nextHop.get current.node = none := by
  simp only [relax] at h
  split at h
  · cases hh : inheritHop links root current.node adj.peerId s.nextHop with
    | some hops => simp [hh] at h
    | none =>
      unfold inheritHop at hh
      split at hh
      · simp at hh
      · next hne =>
        cases hg : s.nextHop.get current.node with
        | none => exact ⟨hne, rfl⟩
        | some link => simp [hg] at hh
  · simp at h

/-- What holds of the search between any two adjacencies. -/
structure CostInv (nodes : HashMap NodeId (List Adjacency)) (root : NodeId) (s : Spf) : Prop where
  /-- The root costs nothing. -/
  root_zero : s.label root = 0
  /-- A finite cost is the cost of a walk. -/
  sound : ∀ n, s.label n < 65535 → (routerGraph nodes).Walk root n (s.label n)
  /-- The queue is ordered and has one entry per node. -/
  queue_ok : QueueOk s.queue
  /-- Queued entries carry the current, finite cost of their node. -/
  queued : ∀ e ∈ s.queue, e.cost = s.costOf e.node ∧ s.label e.node < 65535

/-- Whether a node waits in the queue. -/
def Spf.Queued (s : Spf) (n : NodeId) : Prop := ∃ e ∈ s.queue, e.node = n

/-- No edge improves its end, unless its start is queued or exempt. -/
def RelaxedBut (nodes : HashMap NodeId (List Adjacency)) (exempt : NodeId → Prop) (s : Spf) : Prop :=
  ∀ u, ¬ exempt u → ¬ s.Queued u → s.label u < 65535 →
    ∀ v c, (routerGraph nodes).Edge u v c → s.label v ≤ s.label u + c

/-- What holds while the adjacencies of one node are tried. -/
structure TurnInv (nodes : HashMap NodeId (List Adjacency)) (root : NodeId) (current : Entry)
    (s : Spf) : Prop where
  /-- The invariant between any two adjacencies. -/
  inv : CostInv nodes root s
  /-- All other nodes are relaxed. -/
  relaxed : RelaxedBut nodes (fun u => u = current.node) s
  /-- The node was taken from the queue with its final cost. -/
  cost_eq : current.cost.val = s.label current.node
  /-- That cost is finite. -/
  cost_lt : s.label current.node < 65535
  /-- The node does not come back to the queue. -/
  not_queued : ¬ s.Queued current.node

section Step

variable {nodes : HashMap NodeId (List Adjacency)} {links : HashMap ConnectionId Link}
  {root : NodeId} {current : Entry} {s s' : Spf}

theorem Spf.queued_improve_iff (h : QueueOk s.queue) {next : NodeId} {newCost : Cost}
    {hops : HashMap NodeId Link} {n : NodeId} :
    (s.improve current next newCost hops).Queued n ↔ n = next ∨ s.Queued n := by
  simp only [Spf.Queued, Spf.improve, h.mem_requeue]
  constructor
  · rintro ⟨e, rfl | ⟨he, _⟩, rfl⟩
    · exact Or.inl rfl
    · exact Or.inr ⟨e, he, rfl⟩
  · rintro (rfl | ⟨e, he, rfl⟩)
    · exact ⟨_, Or.inl rfl, rfl⟩
    · by_cases hn : e.node = next
      · exact ⟨⟨newCost, next⟩, Or.inl rfl, hn.symm⟩
      · exact ⟨e, Or.inr ⟨he, hn⟩, rfl⟩

/-- Improving the end of an edge of the current node keeps the turn invariant. -/
theorem TurnInv.improve (h : TurnInv nodes root current s) {adj : Adjacency}
    {hops : HashMap NodeId Link}
    (hedge : (routerGraph nodes).Edge current.node adj.peerId adj.cost.val)
    (hlt : current.cost.val + adj.cost.val < s.label adj.peerId) :
    TurnInv nodes root current
      (s.improve current adj.peerId (current.cost + adj.cost) hops) := by
  have hcap := s.label_le adj.peerId
  have hnew : (current.cost + adj.cost).val = current.cost.val + adj.cost.val := by
    rw [Cost.add_val]; omega
  have hroot : root ≠ adj.peerId := by
    rintro rfl
    rw [h.inv.root_zero] at hlt
    omega
  have hcur : current.node ≠ adj.peerId := by
    intro heq
    rw [← heq, ← h.cost_eq] at hlt
    omega
  refine ⟨⟨?_, ?_, h.inv.queue_ok.requeue _, ?_⟩, ?_, ?_, ?_, ?_⟩
  · rw [Spf.label_improve, if_neg hroot]
    exact h.inv.root_zero
  · intro n hn
    rw [Spf.label_improve] at hn ⊢
    by_cases heq : n = adj.peerId
    · rw [if_pos heq, hnew, heq, h.cost_eq]
      exact (h.inv.sound _ h.cost_lt).snoc hedge
    · rw [if_neg heq] at hn ⊢
      exact h.inv.sound n hn
  · intro e he
    rw [Spf.costOf_improve, Spf.label_improve]
    rcases h.inv.queue_ok.mem_requeue.mp he with rfl | ⟨he, hne⟩
    · simp only [ite_true, hnew, true_and]
      omega
    · rw [if_neg hne, if_neg hne]
      exact h.inv.queued e he
  · intro u hu hq hlu v c he
    rw [Spf.queued_improve_iff h.inv.queue_ok, not_or] at hq
    rw [Spf.label_improve, if_neg hq.1] at hlu
    have hv := h.relaxed u hu hq.2 hlu v c he
    rw [Spf.label_improve, Spf.label_improve, if_neg hq.1, hnew]
    split
    · next heq =>
      rw [heq] at hv
      omega
    · exact hv
  · rw [Spf.label_improve, if_neg hcur]
    exact h.cost_eq
  · rw [Spf.label_improve, if_neg hcur]
    exact h.cost_lt
  · rw [Spf.queued_improve_iff h.inv.queue_ok, not_or]
    exact ⟨hcur, h.not_queued⟩

/-- One adjacency: the turn invariant stays, costs only fall, and the adjacency itself
can no longer improve its end. -/
theorem TurnInv.relax (h : TurnInv nodes root current s) {adj : Adjacency}
    (hedge : (routerGraph nodes).Edge current.node adj.peerId adj.cost.val)
    (hs : Anybus.relax links root current s adj = some s') :
    TurnInv nodes root current s' ∧ (∀ n, s'.label n ≤ s.label n) ∧
      s'.label adj.peerId ≤ current.cost.val + adj.cost.val := by
  rcases relax_cases hs with ⟨rfl, hle⟩ | ⟨hops, _, hlt, rfl⟩
  · exact ⟨h, fun _ => le_rfl, hle⟩
  · have hnew := Nat.min_le_right 65535 (current.cost.val + adj.cost.val)
    refine ⟨h.improve hedge hlt, fun n => ?_, ?_⟩
    · rw [Spf.label_improve, Cost.add_val]
      split
      · next heq =>
        rw [heq]
        omega
      · exact le_rfl
    · rw [Spf.label_improve, if_pos rfl, Cost.add_val]
      exact hnew

/-- All adjacencies of the current node. -/
theorem TurnInv.relaxAll (h : TurnInv nodes root current s) {l : List Adjacency}
    (hedges : ∀ adj ∈ l, (routerGraph nodes).Edge current.node adj.peerId adj.cost.val)
    (hs : Anybus.relaxAll links root current l s = some s') :
    TurnInv nodes root current s' ∧ (∀ n, s'.label n ≤ s.label n) ∧
      ∀ adj ∈ l, s'.label adj.peerId ≤ current.cost.val + adj.cost.val := by
  induction l generalizing s with
  | nil =>
    simp only [Anybus.relaxAll, Option.some.injEq] at hs
    subst hs
    exact ⟨h, fun _ => le_rfl, by simp⟩
  | cons adj l ih =>
    simp only [Anybus.relaxAll] at hs
    cases hr : Anybus.relax links root current s adj with
    | none => simp [hr] at hs
    | some t =>
      simp only [hr] at hs
      obtain ⟨ht, hmono, hadj⟩ := h.relax (hedges adj List.mem_cons_self) hr
      obtain ⟨h', hmono', hadj'⟩ := ih ht (fun a ha => hedges a (List.mem_cons_of_mem _ ha)) hs
      refine ⟨h', fun n => (hmono' n).trans (hmono n), fun a ha => ?_⟩
      rcases List.mem_cons.mp ha with rfl | ha
      · exact (hmono' _).trans hadj
      · exact hadj' a ha

/-- Taking the first entry starts a turn. -/
theorem CostInv.startTurn (h : CostInv nodes root s) (hrel : RelaxedBut nodes (fun _ => False) s)
    {rest : List Entry} (hq : s.queue = current :: rest) :
    TurnInv nodes root current { s with queue := rest } := by
  have hok : QueueOk (current :: rest) := hq ▸ h.queue_ok
  have hcur := h.queued current (hq ▸ List.mem_cons_self)
  refine ⟨⟨h.root_zero, h.sound, hok.tail, ?_⟩, ?_, congrArg Cost.val hcur.1, hcur.2, ?_⟩
  · intro e he
    exact h.queued e (hq ▸ List.mem_cons_of_mem _ he)
  · intro u hu hnq hlu
    apply hrel u (fun hf => hf) _ hlu
    rintro ⟨e, he, heu⟩
    rw [hq] at he
    rcases List.mem_cons.mp he with rfl | he
    · exact hu heu.symm
    · exact hnq ⟨e, he, heu⟩
  · rintro ⟨e, he, hen⟩
    have hn := hok.nodup
    rw [List.map_cons, List.nodup_cons] at hn
    exact hn.1 (hen ▸ List.mem_map_of_mem he)

/-- A whole turn keeps the invariant and leaves no exempt node behind. -/
theorem CostInv.turn (h : CostInv nodes root s) (hrel : RelaxedBut nodes (fun _ => False) s)
    {rest : List Entry} (hq : s.queue = current :: rest)
    (hs : spfTurn nodes links root current rest s = some s') :
    CostInv nodes root s' ∧ RelaxedBut nodes (fun _ => False) s' := by
  have hturn := h.startTurn hrel hq
  unfold spfTurn at hs
  cases hn : nodes.get current.node with
  | none =>
    simp only [hn, Option.some.injEq] at hs
    subst hs
    refine ⟨hturn.inv, fun u _ hnq hlu v c he => ?_⟩
    by_cases hu : u = current.node
    · obtain ⟨adjs, hadjs, _⟩ := he
      rw [hu, hn] at hadjs
      cases hadjs
    · exact hturn.relaxed u hu hnq hlu v c he
  | some adjs =>
    simp only [hn] at hs
    obtain ⟨h', _, hadj⟩ := hturn.relaxAll (fun adj ha => ⟨adjs, hn, adj, ha, rfl, rfl⟩) hs
    refine ⟨h'.inv, fun u _ hnq hlu v c he => ?_⟩
    by_cases hu : u = current.node
    · obtain ⟨adjs', hadjs', adj, ha, rfl, rfl⟩ := he
      rw [hu, hn, Option.some.injEq] at hadjs'
      subst hadjs'
      rw [hu, ← h'.cost_eq]
      exact hadj adj ha
    · exact h'.relaxed u hu hnq hlu v c he

/-- The whole loop keeps the invariant, however many turns it is given. -/
theorem CostInv.loop (h : CostInv nodes root s) (hrel : RelaxedBut nodes (fun _ => False) s)
    {fuel : Nat} (hs : spfLoop nodes links root fuel s = some s') :
    CostInv nodes root s' ∧ RelaxedBut nodes (fun _ => False) s' := by
  induction fuel generalizing s with
  | zero =>
    simp only [spfLoop, Option.some.injEq] at hs
    exact hs ▸ ⟨h, hrel⟩
  | succ fuel ih =>
    simp only [spfLoop] at hs
    split at hs
    · simp only [Option.some.injEq] at hs
      exact hs ▸ ⟨h, hrel⟩
    · next current rest hq =>
      cases ht : spfTurn nodes links root current rest s with
      | none => simp [ht] at hs
      | some t =>
        simp only [ht] at hs
        obtain ⟨h', hrel'⟩ := h.turn hrel hq ht
        exact ih h' hrel' hs

end Step

/-- Before the first turn every node but the root is at infinity. -/
theorem spfInit_costOf (nodes : HashMap NodeId (List Adjacency)) (root n : NodeId) :
    (spfInit nodes root).costOf n = if n = root then 0 else Cost.max := by
  have hfold : ∀ (l : List NodeId) (m : HashMap NodeId Cost), (m.get n).getD Cost.max = Cost.max →
      ((l.foldl (fun (cost : HashMap NodeId Cost) k => cost.insert k Cost.max) m).get n).getD
        Cost.max = Cost.max := by
    intro l
    induction l with
    | nil => exact fun m hm => hm
    | cons k l ih =>
      intro m hm
      apply ih
      rw [HashMap.get_insert]
      split
      · rfl
      · exact hm
  simp only [Spf.costOf, spfInit, HashMap.get_insert]
  split
  · rfl
  · exact hfold nodes.keys ∅ rfl

theorem spfInit_label (nodes : HashMap NodeId (List Adjacency)) (root n : NodeId) :
    (spfInit nodes root).label n = if n = root then 0 else 65535 := by
  rw [Spf.label, spfInit_costOf]
  split <;> rfl

/-- The invariant holds before the first turn. -/
theorem spfInit_inv (nodes : HashMap NodeId (List Adjacency)) (root : NodeId) :
    CostInv nodes root (spfInit nodes root) ∧
      RelaxedBut nodes (fun _ => False) (spfInit nodes root) := by
  have hfin : ∀ n, (spfInit nodes root).label n < 65535 → n = root := by
    intro n hn
    rw [spfInit_label] at hn
    by_contra hne
    rw [if_neg hne] at hn
    exact lt_irrefl _ hn
  have hzero : (spfInit nodes root).label root = 0 := by rw [spfInit_label, if_pos rfl]
  refine ⟨⟨hzero, ?_, QueueOk.singleton _, ?_⟩, ?_⟩
  · intro n hn
    obtain rfl := hfin n hn
    rw [hzero]
    exact .nil n
  · intro e he
    obtain rfl := List.mem_singleton.mp he
    exact ⟨by rw [spfInit_costOf, if_pos rfl], by rw [hzero]; decide⟩
  · intro u _ hnq hlu
    exact absurd ⟨⟨0, root⟩, List.mem_singleton.mpr rfl, (hfin u hlu).symm⟩ hnq

end Anybus
