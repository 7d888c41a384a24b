import Anybus.Spf.ShortestPaths

/-!
# The next hops of any search that ends

Nothing is assumed of the links here: an adjacency of the root may have no link to its
peer, and the nodes reached over it then have no next hop. Whenever the search ends without
a panic, every next hop it has set is the first link to some neighbour of the root, and that
neighbour has the same next hop.
-/

namespace Anybus

/-- The next hops while the root has its turn: a reached node is a neighbour, and its next
hop is the first link to it, if there is one. -/
structure RootHopSound (nodes : HashMap NodeId (List Adjacency)) (links : HashMap ConnectionId Link)
    (root : NodeId) (s : Spf) : Prop where
  reached : ∀ n, n ≠ root → s.label n < 65535 → s.nextHop.get n = firstLink links n ∧
    ∃ adj ∈ rootAdjacencies nodes root, adj.peerId = n ∧ adj.cost.val = s.label n
  dom : ∀ n link, s.nextHop.get n = some link → n ≠ root ∧ s.label n < 65535

/-- The next hops once the root has had its turn. -/
structure HopSound (nodes : HashMap NodeId (List Adjacency)) (links : HashMap ConnectionId Link)
    (root : NodeId) (s : Spf) : Prop where
  /-- A next hop is the first link to some neighbour, on a walk that attains the cost. -/
  sound : ∀ n link, s.nextHop.get n = some link → n ≠ root ∧ s.label n < 65535 ∧
    ∃ adj ∈ rootAdjacencies nodes root, ∃ d, adj.peerId ≠ root ∧
      firstLink links adj.peerId = some link ∧ (routerGraph nodes).Walk adj.peerId n d ∧
      adj.cost.val + d = s.label n
  /-- No neighbour costs more than its adjacency. -/
  le_direct : ∀ adj ∈ rootAdjacencies nodes root, s.label adj.peerId ≤ adj.cost.val
  /-- A neighbour that costs no less than its adjacency keeps the first link to it. -/
  direct : ∀ adj ∈ rootAdjacencies nodes root, adj.peerId ≠ root →
    s.label adj.peerId = adj.cost.val → s.label adj.peerId < 65535 →
      s.nextHop.get adj.peerId = firstLink links adj.peerId

section Step

variable {nodes : HashMap NodeId (List Adjacency)} {links : HashMap ConnectionId Link}
  {root : NodeId} {current : Entry} {s s' : Spf}

/-- The root gives its neighbour the first link to it, or none. -/
theorem get_inheritHop_root {next : NodeId} {nextHop hops : HashMap NodeId Link}
    (h : inheritHop links root root next nextHop = some hops)
    (hnone : firstLink links next = none → nextHop.get next = none) (n : NodeId) :
    hops.get n = if n = next then firstLink links next else nextHop.get n := by
  unfold inheritHop at h
  rw [if_pos rfl] at h
  obtain rfl := Option.some.inj h
  cases hfirst : firstLink links next with
  | none =>
    have hfind : links.values.find? (fun link => link.peerId = next) = none := hfirst
    rw [hfind]
    by_cases heq : n = next
    · rw [if_pos heq, heq]
      exact hnone hfirst
    · rw [if_neg heq]
  | some link =>
    have hfind : links.values.find? (fun link => link.peerId = next) = some link := hfirst
    rw [hfind]
    exact HashMap.get_insert _ _ _ _

/-- One adjacency of the root. -/
theorem RootHopSound.relax (hinv : TurnInv nodes root current s) (hcur : current.node = root)
    (h : RootHopSound nodes links root s) {adj : Adjacency} (ha : adj ∈ rootAdjacencies nodes root)
    (hr : Anybus.relax links root current s adj = some s') : RootHopSound nodes links root s' := by
  obtain ⟨rfl, -⟩ | ⟨hops, hhops, hlt, rfl⟩ := relax_cases hr
  · exact h
  have hne := hinv.inv.ne_root hlt
  have hzero : current.cost.val = 0 := by
    rw [hinv.cost_eq, hcur, hinv.inv.root_zero]
  have hcap := s.label_le adj.peerId
  have hnew : (current.cost + adj.cost).val = adj.cost.val := by
    rw [Cost.add_val]
    omega
  -- A neighbour without a link has no next hop from an earlier adjacency to it either.
  have hget := get_inheritHop_root (hcur ▸ hhops) fun hnone => by
    cases hhop : s.nextHop.get adj.peerId with
    | none => rfl
    | some link =>
      have hfirst := (h.reached _ hne (h.dom _ _ hhop).2).1
      rw [hhop, hnone] at hfirst
      cases hfirst
  refine ⟨fun n hn hl => ?_, fun n link hl => ?_⟩
  · rw [Spf.label_improve, hnew] at hl ⊢
    change hops.get n = _ ∧ _
    rw [hget]
    by_cases heq : n = adj.peerId
    · subst heq
      rw [if_pos rfl, if_pos rfl]
      exact ⟨rfl, adj, ha, rfl, rfl⟩
    · rw [if_neg heq] at hl ⊢
      rw [if_neg heq]
      exact h.reached n hn hl
  · rw [Spf.label_improve, hnew]
    change hops.get n = some link at hl
    rw [hget] at hl
    by_cases heq : n = adj.peerId
    · rw [if_pos heq]
      exact ⟨heq ▸ hne, by omega⟩
    · rw [if_neg heq] at hl ⊢
      exact h.dom n link hl

/-- All adjacencies of the root. -/
theorem RootHopSound.relaxAll (hinv : TurnInv nodes root current s) (hcur : current.node = root)
    (h : RootHopSound nodes links root s) {l : List Adjacency}
    (hl : ∀ adj ∈ l, adj ∈ rootAdjacencies nodes root)
    (hs : Anybus.relaxAll links root current l s = some s') : RootHopSound nodes links root s' := by
  induction l generalizing s with
  | nil =>
    cases hs
    exact h
  | cons adj l ih =>
    simp only [Anybus.relaxAll] at hs
    cases hr : Anybus.relax links root current s adj with
    | none =>
      rw [hr] at hs
      cases hs
    | some t =>
      rw [hr] at hs
      have ha := hl adj List.mem_cons_self
      exact ih (hinv.relax (hcur ▸ edge_of_mem_rootAdjacencies ha) hr).1 (h.relax hinv hcur ha hr)
        (fun a ha => hl a (List.mem_cons_of_mem _ ha)) hs

/-- One adjacency of a node other than the root. -/
theorem HopSound.relax (hinv : TurnInv nodes root current s) (hcur : current.node ≠ root)
    (h : HopSound nodes links root s) {adj : Adjacency}
    (hedge : (routerGraph nodes).Edge current.node adj.peerId adj.cost.val)
    (hr : Anybus.relax links root current s adj = some s') : HopSound nodes links root s' := by
  obtain ⟨rfl, -⟩ | ⟨hops, hhops, hlt, rfl⟩ := relax_cases hr
  · exact h
  have hne := hinv.inv.ne_root hlt
  have hcap := s.label_le adj.peerId
  have hnew : (current.cost + adj.cost).val = current.cost.val + adj.cost.val := by
    rw [Cost.add_val]
    omega
  unfold inheritHop at hhops
  rw [if_neg hcur] at hhops
  cases hhop : s.nextHop.get current.node with
  | none =>
    rw [hhop] at hhops
    cases hhops
  | some link =>
    rw [hhop] at hhops
    obtain rfl := Option.some.inj hhops
    obtain ⟨-, -, adj₀, ha₀, d, hne₀, hfirst, hwalk, hcost⟩ := h.sound _ _ hhop
    have hless : (current.cost + adj.cost).val < s.label adj.peerId := by omega
    refine ⟨fun n l hl => ?_, le_direct_improve hless h.le_direct _,
      direct_improve hless h.le_direct h.direct⟩
    rw [Spf.label_improve, hnew]
    simp only [Spf.improve, HashMap.get_insert] at hl
    by_cases heq : n = adj.peerId
    · subst heq
      rw [if_pos rfl] at hl ⊢
      cases hl
      refine ⟨hne, by omega, adj₀, ha₀, d + adj.cost.val, hne₀, hfirst, hwalk.snoc hedge, ?_⟩
      rw [hinv.cost_eq]
      omega
    · rw [if_neg heq] at hl ⊢
      exact h.sound n l hl

/-- All adjacencies of a node other than the root. -/
theorem HopSound.relaxAll (hinv : TurnInv nodes root current s) (hcur : current.node ≠ root)
    (h : HopSound nodes links root s) {l : List Adjacency}
    (hl : ∀ adj ∈ l, (routerGraph nodes).Edge current.node adj.peerId adj.cost.val)
    (hs : Anybus.relaxAll links root current l s = some s') : HopSound nodes links root s' := by
  induction l generalizing s with
  | nil =>
    cases hs
    exact h
  | cons adj l ih =>
    simp only [Anybus.relaxAll] at hs
    cases hr : Anybus.relax links root current s adj with
    | none =>
      rw [hr] at hs
      cases hs
    | some t =>
      rw [hr] at hs
      have ha := hl adj List.mem_cons_self
      exact ih (hinv.relax ha hr).1 (h.relax hinv hcur ha hr)
        (fun a ha => hl a (List.mem_cons_of_mem _ ha)) hs

/-- The first turn establishes the invariant. -/
theorem hopSound_firstTurn
    (hs : spfTurn nodes links root ⟨0, root⟩ [] (spfInit nodes root) = some s') :
    HopSound nodes links root s' := by
  obtain ⟨hinv, hrel⟩ := spfInit_inv nodes root
  have hturn := hinv.startTurn hrel (show (spfInit nodes root).queue = [⟨0, root⟩] from rfl)
  have hroot : RootHopSound nodes links root { spfInit nodes root with queue := [] } := by
    refine ⟨fun n hn hl => ?_, fun n link hl => ?_⟩
    · change (spfInit nodes root).label n < 65535 at hl
      rw [spfInit_label, if_neg hn] at hl
      exact absurd hl (lt_irrefl _)
    · change (∅ : HashMap NodeId Link).get n = some link at hl
      rw [HashMap.get_empty] at hl
      cases hl
  have hend : RootHopSound nodes links root s' ∧
      ∀ adj ∈ rootAdjacencies nodes root, s'.label adj.peerId ≤ adj.cost.val := by
    unfold spfTurn at hs
    cases hn : nodes.get root with
    | none =>
      rw [hn] at hs
      cases hs
      refine ⟨hroot, fun adj ha => ?_⟩
      rw [rootAdjacencies, hn] at ha
      cases ha
    | some adjs =>
      rw [hn] at hs
      have hadjs : rootAdjacencies nodes root = adjs := by
        rw [rootAdjacencies, hn, Option.getD_some]
      refine ⟨hroot.relaxAll hturn rfl (fun a ha => hadjs ▸ ha) hs, fun adj ha => ?_⟩
      have hle := (hturn.relaxAll (fun a ha => edge_of_mem_rootAdjacencies (hadjs ▸ ha)) hs).2.2
      simpa using hle adj (hadjs ▸ ha)
  refine ⟨fun n link hl => ?_, hend.2, fun adj _ hne _ hlt => (hend.1.reached _ hne hlt).1⟩
  obtain ⟨hne, hlt⟩ := hend.1.dom n link hl
  obtain ⟨hfirst, adj, ha, rfl, hcost⟩ := hend.1.reached n hne hlt
  exact ⟨hne, hlt, adj, ha, 0, hne, hfirst.symm.trans hl, .nil _, by rw [Nat.add_zero, hcost]⟩

/-- The rest of the loop keeps the invariant. -/
theorem HopSound.loop (hinv : CostInv nodes root s) (hrel : RelaxedBut nodes (fun _ => False) s)
    (h : HopSound nodes links root s) (hroot : ∀ e ∈ s.queue, e.node ≠ root) {fuel : Nat}
    (hs : spfLoop nodes links root fuel s = some s') : HopSound nodes links root s' := by
  induction fuel generalizing s with
  | zero =>
    cases hs
    exact h
  | succ fuel ih =>
    simp only [spfLoop] at hs
    cases hq : s.queue with
    | nil =>
      rw [hq] at hs
      cases hs
      exact h
    | cons current rest =>
      simp only [hq] at hs
      have hcur : current.node ≠ root := hroot current (hq ▸ List.mem_cons_self)
      cases ht : spfTurn nodes links root current rest s with
      | none =>
        rw [ht] at hs
        cases hs
      | some t =>
        rw [ht] at hs
        obtain ⟨hinv', hrel'⟩ := hinv.turn hrel hq ht
        have hroot' := spfTurn_not_queued hinv hrel hq ht fun e he =>
          hroot e (hq ▸ List.mem_cons_of_mem _ he)
        refine ih hinv' hrel' ?_ hroot' hs
        have hturn := hinv.startTurn hrel hq
        have hpop : HopSound nodes links root { s with queue := rest } :=
          ⟨h.sound, h.le_direct, h.direct⟩
        unfold spfTurn at ht
        cases hn : nodes.get current.node with
        | none =>
          rw [hn] at ht
          cases ht
          exact hpop
        | some adjs =>
          rw [hn] at ht
          exact hpop.relaxAll hturn hcur (fun adj ha => ⟨adjs, hn, adj, ha, rfl, rfl⟩) ht

end Step

/-- The next hops of a finished search. -/
theorem spf_hopSound {db : HashMap LsaKey LsaRecord} {links : HashMap ConnectionId Link}
    {root : NodeId} {s : Spf} (hs : spf db links root = some s) :
    HopSound (routerLsas db) links root s := by
  obtain ⟨hinv, hrel⟩ := spfInit_inv (routerLsas db) root
  have hq : (spfInit (routerLsas db) root).queue = [⟨0, root⟩] := rfl
  have hfuel : spfFuel (routerLsas db) = spfFuel (routerLsas db) - 1 + 1 := by
    unfold spfFuel
    omega
  unfold spf at hs
  simp only at hs
  rw [hfuel, spfLoop] at hs
  simp only [hq] at hs
  cases ht : spfTurn (routerLsas db) links root ⟨0, root⟩ [] (spfInit (routerLsas db) root) with
  | none =>
    rw [ht] at hs
    cases hs
  | some t =>
    rw [ht] at hs
    obtain ⟨hinv', hrel'⟩ := hinv.turn hrel hq ht
    have hroot := spfTurn_not_queued hinv hrel hq ht (by simp)
    exact (hopSound_firstTurn ht).loop hinv' hrel' hroot hs

/-- The peer of a next hop is itself reached over that link. -/
theorem spf_nextHop_peer {db : HashMap LsaKey LsaRecord} {links : HashMap ConnectionId Link}
    {root : NodeId} {s : Spf} (hs : spf db links root = some s) {n : NodeId} {link : Link}
    (hn : s.nextHop.get n = some link) : s.nextHop.get link.peerId = some link := by
  have hsound := spf_hopSound hs
  obtain ⟨-, hlt, adj, ha, d, hne, hfirst, hwalk, hcost⟩ := hsound.sound n link hn
  obtain ⟨hpeer, -⟩ := firstLink_some hfirst
  have hle := hsound.le_direct adj ha
  obtain ⟨hinv, -⟩ := (spfInit_inv (routerLsas db) root).1.loop
    (spfInit_inv (routerLsas db) root).2 hs
  -- A shorter way to the peer would be a shorter way to the node.
  have hge : adj.cost.val ≤ s.label adj.peerId := by
    have hvia := spf_label_le hs ((hinv.sound adj.peerId (by omega)).append hwalk)
    omega
  rw [hpeer, hsound.direct adj ha hne (by omega) (by omega)]
  exact hfirst

end Anybus
