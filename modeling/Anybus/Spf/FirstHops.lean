import Anybus.Spf.Termination

/-!
# First hops

When every adjacency of the root has a link to its peer, the search cannot panic:
each node it reaches has a next hop. That next hop is the first link to the peer
of some adjacency of the root on a walk that attains the cost. The links of the
root's own adjacencies are fixed in the first turn, which is why a neighbour whose
direct adjacency is a shortest way keeps the first link to it.
-/

namespace Anybus

/-- The first link to a peer in iteration order. -/
def firstLink (links : HashMap ConnectionId Link) (peer : NodeId) : Option Link :=
  links.values.find? fun link => link.peerId = peer

/-- The first link to a peer is a link to that peer. -/
theorem firstLink_some {links : HashMap ConnectionId Link} {peer : NodeId} {link : Link}
    (h : firstLink links peer = some link) :
    link.peerId = peer ∧ ∃ c, links.get c = some link := by
  refine ⟨by simpa using List.find?_some h, ?_⟩
  exact HashMap.mem_values_iff.mp (List.mem_of_find?_eq_some h)

/-- There is a first link to a peer as soon as there is a link to it. -/
theorem firstLink_isSome_iff {links : HashMap ConnectionId Link} {peer : NodeId} :
    (firstLink links peer).isSome ↔ ∃ c link, links.get c = some link ∧ link.peerId = peer := by
  simp only [firstLink, List.find?_isSome, HashMap.mem_values_iff, decide_eq_true_eq]
  constructor
  · rintro ⟨link, ⟨c, hc⟩, hp⟩
    exact ⟨c, link, hc, hp⟩
  · rintro ⟨c, link, hc, hp⟩
    exact ⟨link, ⟨c, hc⟩, hp⟩

/-- The adjacencies the search tries in its first turn. -/
def rootAdjacencies (nodes : HashMap NodeId (List Adjacency)) (root : NodeId) : List Adjacency :=
  (nodes.get root).getD []

/-- Every adjacency of the root leads to a peer that some link leads to. -/
def LinksCover (nodes : HashMap NodeId (List Adjacency)) (links : HashMap ConnectionId Link)
    (root : NodeId) : Prop :=
  ∀ adj ∈ rootAdjacencies nodes root, (firstLink links adj.peerId).isSome

theorem edge_of_mem_rootAdjacencies {nodes : HashMap NodeId (List Adjacency)} {root : NodeId}
    {adj : Adjacency} (h : adj ∈ rootAdjacencies nodes root) :
    (routerGraph nodes).Edge root adj.peerId adj.cost.val := by
  unfold rootAdjacencies at h
  cases hn : nodes.get root with
  | none => simp [hn] at h
  | some adjs =>
    rw [hn, Option.getD_some] at h
    exact ⟨adjs, hn, adj, h, rfl, rfl⟩

/-- What is known of the next hops once the root has had its turn. -/
structure HopInv (nodes : HashMap NodeId (List Adjacency)) (links : HashMap ConnectionId Link)
    (root : NodeId) (s : Spf) : Prop where
  /-- A reached node goes over the first link to some neighbour, on a walk that attains
  its cost. -/
  hop : ∀ n, n ≠ root → s.label n < 65535 → ∃ adj ∈ rootAdjacencies nodes root, ∃ link d,
    adj.peerId ≠ root ∧ s.nextHop.get n = some link ∧ firstLink links adj.peerId = some link ∧
      (routerGraph nodes).Walk adj.peerId n d ∧ adj.cost.val + d = s.label n
  /-- Only reached nodes have next hops. -/
  dom : ∀ n link, s.nextHop.get n = some link → n ≠ root ∧ s.label n < 65535
  /-- No neighbour costs more than its adjacency. -/
  le_direct : ∀ adj ∈ rootAdjacencies nodes root, s.label adj.peerId ≤ adj.cost.val
  /-- A neighbour that costs no less than its adjacency keeps the first link to it. -/
  direct : ∀ adj ∈ rootAdjacencies nodes root, adj.peerId ≠ root →
    s.label adj.peerId = adj.cost.val → s.label adj.peerId < 65535 →
      s.nextHop.get adj.peerId = firstLink links adj.peerId

/-- What is known of the next hops while the root has its turn. -/
structure RootHopInv (nodes : HashMap NodeId (List Adjacency)) (links : HashMap ConnectionId Link)
    (root : NodeId) (s : Spf) : Prop where
  /-- A reached node is a neighbour and goes over the first link to it. -/
  hop : ∀ n, n ≠ root → s.label n < 65535 → ∃ adj ∈ rootAdjacencies nodes root, ∃ link,
    adj.peerId = n ∧ adj.cost.val = s.label n ∧ s.nextHop.get n = some link ∧
      firstLink links n = some link
  /-- Only reached nodes have next hops. -/
  dom : ∀ n link, s.nextHop.get n = some link → n ≠ root ∧ s.label n < 65535

section Step

variable {nodes : HashMap NodeId (List Adjacency)} {links : HashMap ConnectionId Link}
  {root : NodeId} {current : Entry} {s : Spf}

/-- The root can only be improved below zero, that is never. -/
theorem CostInv.ne_root (h : CostInv nodes root s) {n : NodeId} {c : Nat} (hlt : c < s.label n) :
    n ≠ root := by
  rintro rfl
  rw [h.root_zero] at hlt
  exact Nat.not_lt_zero _ hlt

section Improve

variable {next : NodeId} {newCost : Cost} {link : Link}

/-- Only reached nodes have next hops, also after an improvement. -/
theorem dom_improve (hlt : newCost.val < s.label next) (hne : next ≠ root)
    (hdom : ∀ n link, s.nextHop.get n = some link → n ≠ root ∧ s.label n < 65535) (n : NodeId)
    (l : Link)
    (hl : (s.improve current next newCost (s.nextHop.insert next link)).nextHop.get n = some l) :
    n ≠ root ∧ (s.improve current next newCost (s.nextHop.insert next link)).label n < 65535 := by
  have hcap := s.label_le next
  rw [Spf.label_improve]
  simp only [Spf.improve, HashMap.get_insert] at hl
  by_cases heq : n = next
  · rw [if_pos heq]
    exact ⟨heq ▸ hne, by omega⟩
  · rw [if_neg heq] at hl ⊢
    exact hdom n l hl

/-- An improvement makes no neighbour cost more than its adjacency. -/
theorem le_direct_improve (hlt : newCost.val < s.label next)
    (hdirect : ∀ adj ∈ rootAdjacencies nodes root, s.label adj.peerId ≤ adj.cost.val)
    (hops : HashMap NodeId Link) (a : Adjacency) (ha : a ∈ rootAdjacencies nodes root) :
    (s.improve current next newCost hops).label a.peerId ≤ a.cost.val := by
  have hle := hdirect a ha
  rw [Spf.label_improve]
  split
  · next hpeer =>
    rw [hpeer] at hle
    omega
  · exact hle

/-- A neighbour that still costs no less than its adjacency has not been improved, since a
strict improvement undercuts every adjacency to its node. -/
theorem direct_improve (hlt : newCost.val < s.label next)
    (hle : ∀ adj ∈ rootAdjacencies nodes root, s.label adj.peerId ≤ adj.cost.val)
    (hdirect : ∀ adj ∈ rootAdjacencies nodes root, adj.peerId ≠ root →
      s.label adj.peerId = adj.cost.val → s.label adj.peerId < 65535 →
        s.nextHop.get adj.peerId = firstLink links adj.peerId)
    (a : Adjacency) (ha : a ∈ rootAdjacencies nodes root) (hna : a.peerId ≠ root)
    (heq : (s.improve current next newCost (s.nextHop.insert next link)).label a.peerId = a.cost.val)
    (hl : (s.improve current next newCost (s.nextHop.insert next link)).label a.peerId < 65535) :
    (s.improve current next newCost (s.nextHop.insert next link)).nextHop.get a.peerId =
      firstLink links a.peerId := by
  have hcost := hle a ha
  rw [Spf.label_improve] at heq hl
  by_cases hpeer : a.peerId = next
  · rw [if_pos hpeer] at heq
    rw [hpeer] at hcost
    omega
  · rw [if_neg hpeer] at heq hl
    simp only [Spf.improve, HashMap.get_insert, if_neg hpeer]
    exact hdirect a ha hna heq hl

end Improve

/-- One adjacency of the root. -/
theorem RootHopInv.relax (hcover : LinksCover nodes links root) (hinv : TurnInv nodes root current s)
    (hcur : current.node = root) (h : RootHopInv nodes links root s) {adj : Adjacency}
    (ha : adj ∈ rootAdjacencies nodes root) :
    ∃ s', Anybus.relax links root current s adj = some s' ∧ RootHopInv nodes links root s' := by
  cases hr : Anybus.relax links root current s adj with
  | none => exact absurd hcur (relax_eq_none hr).1
  | some s' =>
    refine ⟨s', rfl, ?_⟩
    rcases relax_cases hr with ⟨rfl, _⟩ | ⟨hops, hhops, hlt, rfl⟩
    · exact h
    · have hzero : current.cost.val = 0 := by
        rw [hinv.cost_eq, hcur, hinv.inv.root_zero]
      have hne := hinv.inv.ne_root hlt
      have hcap := s.label_le adj.peerId
      have hnew : (current.cost + adj.cost).val = adj.cost.val := by
        rw [Cost.add_val]
        omega
      obtain ⟨link, hlink⟩ := Option.isSome_iff_exists.mp (hcover adj ha)
      have hops_eq : hops = s.nextHop.insert adj.peerId link := by
        unfold inheritHop at hhops
        change links.values.find? _ = some link at hlink
        simpa [hcur, hlink] using hhops.symm
      subst hops_eq
      refine ⟨fun n hn hl => ?_, dom_improve (by omega) hne h.dom⟩
      rw [Spf.label_improve, hnew] at hl ⊢
      simp only [Spf.improve, HashMap.get_insert]
      by_cases heq : n = adj.peerId
      · subst heq
        exact ⟨adj, ha, link, rfl, by simp, by simp, hlink⟩
      · rw [if_neg heq] at hl ⊢
        rw [if_neg heq]
        exact h.hop n hn hl

/-- All adjacencies of the root. -/
theorem RootHopInv.relaxAll (hcover : LinksCover nodes links root)
    (hinv : TurnInv nodes root current s) (hcur : current.node = root)
    (h : RootHopInv nodes links root s) {l : List Adjacency}
    (hl : ∀ adj ∈ l, adj ∈ rootAdjacencies nodes root) :
    ∃ s', Anybus.relaxAll links root current l s = some s' ∧ RootHopInv nodes links root s' := by
  induction l generalizing s with
  | nil => exact ⟨s, rfl, h⟩
  | cons adj l ih =>
    have ha := hl adj List.mem_cons_self
    obtain ⟨t, ht, h'⟩ := h.relax hcover hinv hcur ha
    have hinv' := (hinv.relax (hcur ▸ edge_of_mem_rootAdjacencies ha) ht).1
    obtain ⟨s', hs', h''⟩ := ih hinv' h' fun a ha => hl a (List.mem_cons_of_mem _ ha)
    exact ⟨s', by simp only [Anybus.relaxAll, ht, hs'], h''⟩

/-- When the root has had its turn, the later invariant holds. -/
theorem RootHopInv.hopInv (h : RootHopInv nodes links root s)
    (hle : ∀ adj ∈ rootAdjacencies nodes root, s.label adj.peerId ≤ adj.cost.val) :
    HopInv nodes links root s := by
  refine ⟨fun n hn hl => ?_, h.dom, hle, fun adj _ hne _ hlt => ?_⟩
  · obtain ⟨adj, ha, link, rfl, hcost, hhop, hlink⟩ := h.hop n hn hl
    exact ⟨adj, ha, link, 0, hn, hhop, hlink, .nil _, by rw [Nat.add_zero, hcost]⟩
  · obtain ⟨_, _, link, _, _, hhop, hlink⟩ := h.hop _ hne hlt
    rw [hhop, hlink]

/-- The first turn ends without a panic and establishes the invariant. -/
theorem spfInit_firstTurn (hcover : LinksCover nodes links root) :
    ∃ s', spfTurn nodes links root ⟨0, root⟩ [] (spfInit nodes root) = some s' ∧
      HopInv nodes links root s' := by
  obtain ⟨hinv, hrel⟩ := spfInit_inv nodes root
  have hturn := hinv.startTurn hrel (show (spfInit nodes root).queue = [⟨0, root⟩] from rfl)
  have hroot : RootHopInv nodes links root { spfInit nodes root with queue := [] } := by
    refine ⟨fun n hn hl => ?_, fun n link hl => ?_⟩
    · change (spfInit nodes root).label n < 65535 at hl
      rw [spfInit_label, if_neg hn] at hl
      exact absurd hl (lt_irrefl _)
    · change (∅ : HashMap NodeId Link).get n = some link at hl
      simp at hl
  unfold spfTurn
  cases hn : nodes.get root with
  | none =>
    refine ⟨_, rfl, hroot.hopInv fun adj ha => ?_⟩
    simp [rootAdjacencies, hn] at ha
  | some adjs =>
    have hadjs : rootAdjacencies nodes root = adjs := by rw [rootAdjacencies, hn, Option.getD_some]
    obtain ⟨s', hs', h'⟩ := hroot.relaxAll hcover hturn rfl (l := adjs) (fun a ha => hadjs ▸ ha)
    refine ⟨s', hs', h'.hopInv fun adj ha => ?_⟩
    have hle := (hturn.relaxAll (fun a ha => edge_of_mem_rootAdjacencies (hadjs ▸ ha)) hs').2.2
    simpa using hle adj (hadjs ▸ ha)

/-- One adjacency of a node other than the root. -/
theorem HopInv.relax (hinv : TurnInv nodes root current s) (hcur : current.node ≠ root)
    (h : HopInv nodes links root s) {adj : Adjacency}
    (hedge : (routerGraph nodes).Edge current.node adj.peerId adj.cost.val) :
    ∃ s', Anybus.relax links root current s adj = some s' ∧ HopInv nodes links root s' := by
  obtain ⟨adj₀, ha₀, link, d, hne₀, hhop, hlink, hwalk, hcost⟩ := h.hop _ hcur hinv.cost_lt
  cases hr : Anybus.relax links root current s adj with
  | none =>
    have hnone := (relax_eq_none hr).2
    rw [hhop] at hnone
    cases hnone
  | some s' =>
    refine ⟨s', rfl, ?_⟩
    rcases relax_cases hr with ⟨rfl, _⟩ | ⟨hops, hhops, hlt, rfl⟩
    · exact h
    · have hne := hinv.inv.ne_root hlt
      have hcap := s.label_le adj.peerId
      have hnew : (current.cost + adj.cost).val = current.cost.val + adj.cost.val := by
        rw [Cost.add_val]
        omega
      have hops_eq : hops = s.nextHop.insert adj.peerId link := by
        unfold inheritHop at hhops
        simpa [hcur, hhop] using hhops.symm
      subst hops_eq
      have hless : (current.cost + adj.cost).val < s.label adj.peerId := by omega
      refine ⟨fun n hn hl => ?_, dom_improve hless hne h.dom, le_direct_improve hless h.le_direct _,
        direct_improve hless h.le_direct h.direct⟩
      rw [Spf.label_improve, hnew] at hl ⊢
      simp only [Spf.improve, HashMap.get_insert]
      by_cases heq : n = adj.peerId
      · subst heq
        refine ⟨adj₀, ha₀, link, d + adj.cost.val, hne₀, by simp, hlink, hwalk.snoc hedge, ?_⟩
        rw [if_pos rfl, hinv.cost_eq]
        omega
      · rw [if_neg heq] at hl ⊢
        rw [if_neg heq]
        exact h.hop n hn hl

/-- All adjacencies of a node other than the root. -/
theorem HopInv.relaxAll (hinv : TurnInv nodes root current s) (hcur : current.node ≠ root)
    (h : HopInv nodes links root s) {l : List Adjacency}
    (hl : ∀ adj ∈ l, (routerGraph nodes).Edge current.node adj.peerId adj.cost.val) :
    ∃ s', Anybus.relaxAll links root current l s = some s' ∧ HopInv nodes links root s' := by
  induction l generalizing s with
  | nil => exact ⟨s, rfl, h⟩
  | cons adj l ih =>
    have ha := hl adj List.mem_cons_self
    obtain ⟨t, ht, h'⟩ := h.relax hinv hcur ha
    obtain ⟨s', hs', h''⟩ := ih (hinv.relax ha ht).1 h' fun a ha => hl a (List.mem_cons_of_mem _ ha)
    exact ⟨s', by simp only [Anybus.relaxAll, ht, hs'], h''⟩

/-- A later turn ends without a panic and keeps the invariant. -/
theorem HopInv.turn (hinv : CostInv nodes root s) (hrel : RelaxedBut nodes (fun _ => False) s)
    (h : HopInv nodes links root s) {rest : List Entry} (hq : s.queue = current :: rest)
    (hcur : current.node ≠ root) :
    ∃ s', spfTurn nodes links root current rest s = some s' ∧ HopInv nodes links root s' := by
  have hturn := hinv.startTurn hrel hq
  have hpop : HopInv nodes links root { s with queue := rest } :=
    ⟨h.hop, h.dom, h.le_direct, h.direct⟩
  unfold spfTurn
  cases hn : nodes.get current.node with
  | none => exact ⟨_, rfl, hpop⟩
  | some adjs => exact hpop.relaxAll hturn hcur fun adj ha => ⟨adjs, hn, adj, ha, rfl, rfl⟩

/-- The root never comes back to the queue: an improvement queues its end, and no
improvement ends at the root. -/
theorem spfTurn_not_queued (hinv : CostInv nodes root s)
    (hrel : RelaxedBut nodes (fun _ => False) s) {rest : List Entry} {s' : Spf}
    (hq : s.queue = current :: rest) (hs : spfTurn nodes links root current rest s = some s')
    (hroot : ∀ e ∈ rest, e.node ≠ root) : ∀ e ∈ s'.queue, e.node ≠ root := by
  have hturn := hinv.startTurn hrel hq
  have hall : ∀ (l : List Adjacency) (t : Spf), TurnInv nodes root current t →
      (∀ adj ∈ l, (routerGraph nodes).Edge current.node adj.peerId adj.cost.val) →
      (∀ e ∈ t.queue, e.node ≠ root) → Anybus.relaxAll links root current l t = some s' →
      ∀ e ∈ s'.queue, e.node ≠ root := by
    intro l
    induction l with
    | nil =>
      intro t _ _ ht h
      simp only [Anybus.relaxAll, Option.some.injEq] at h
      exact h ▸ ht
    | cons adj l ih =>
      intro t htinv hedges ht h
      simp only [Anybus.relaxAll] at h
      cases hr : Anybus.relax links root current t adj with
      | none => simp [hr] at h
      | some u =>
        simp only [hr] at h
        have hu := (htinv.relax (hedges adj List.mem_cons_self) hr).1
        refine ih u hu (fun a ha => hedges a (List.mem_cons_of_mem _ ha)) ?_ h
        rcases relax_cases hr with ⟨rfl, _⟩ | ⟨hops, _, hlt, rfl⟩
        · exact ht
        · intro e he
          rcases htinv.inv.queue_ok.mem_requeue.mp he with rfl | ⟨he, _⟩
          · exact htinv.inv.ne_root hlt
          · exact ht e he
  unfold spfTurn at hs
  cases hn : nodes.get current.node with
  | none =>
    simp only [hn, Option.some.injEq] at hs
    exact hs ▸ hroot
  | some adjs =>
    simp only [hn] at hs
    exact hall adjs _ hturn (fun adj ha => ⟨adjs, hn, adj, ha, rfl, rfl⟩) hroot hs

/-- The rest of the loop ends without a panic and keeps the invariant. -/
theorem HopInv.loop (hinv : CostInv nodes root s) (hrel : RelaxedBut nodes (fun _ => False) s)
    (h : HopInv nodes links root s) (hroot : ∀ e ∈ s.queue, e.node ≠ root) (fuel : Nat) :
    ∃ s', spfLoop nodes links root fuel s = some s' ∧ HopInv nodes links root s' := by
  induction fuel generalizing s with
  | zero => exact ⟨s, rfl, h⟩
  | succ fuel ih =>
    cases hq : s.queue with
    | nil => exact ⟨s, by simp only [spfLoop, hq], h⟩
    | cons current rest =>
      have hcur : current.node ≠ root := hroot current (hq ▸ List.mem_cons_self)
      obtain ⟨t, ht, h'⟩ := h.turn hinv hrel hq hcur
      obtain ⟨hinv', hrel'⟩ := hinv.turn hrel hq ht
      have hroot' := spfTurn_not_queued hinv hrel hq ht fun e he =>
        hroot e (hq ▸ List.mem_cons_of_mem _ he)
      obtain ⟨s', hs', h''⟩ := ih hinv' hrel' h' hroot'
      exact ⟨s', by simp only [spfLoop, hq, ht, hs'], h''⟩

end Step

/-- When the links cover the root's adjacencies, the search does not panic and its
next hops are known. -/
theorem spf_hops {db : HashMap LsaKey LsaRecord} {links : HashMap ConnectionId Link}
    {root : NodeId} (hcover : LinksCover (routerLsas db) links root) :
    ∃ s, spf db links root = some s ∧ HopInv (routerLsas db) links root s := by
  obtain ⟨hinv, hrel⟩ := spfInit_inv (routerLsas db) root
  obtain ⟨t, ht, h⟩ := spfInit_firstTurn hcover
  have hq : (spfInit (routerLsas db) root).queue = [⟨0, root⟩] := rfl
  obtain ⟨hinv', hrel'⟩ := hinv.turn hrel hq ht
  have hroot := spfTurn_not_queued hinv hrel hq ht (by simp)
  obtain ⟨s, hs, h'⟩ := h.loop hinv' hrel' hroot (spfFuel (routerLsas db) - 1)
  refine ⟨s, ?_, h'⟩
  have hfuel : spfFuel (routerLsas db) = spfFuel (routerLsas db) - 1 + 1 := by
    unfold spfFuel
    omega
  unfold spf
  simp only
  rw [hfuel, spfLoop]
  simp only [hq, ht]
  exact hs

end Anybus
