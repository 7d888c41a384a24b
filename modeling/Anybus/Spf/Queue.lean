import Anybus.Linkstate.Spf
import Mathlib.Tactic.Order

/-!
# The ordered search queue

The queue holds at most one entry per node and is strictly ordered by
`Entry.better`. Both survive taking the first entry and requeueing, so the place
found by counting the better entries is the partition point of the queue.
-/

namespace Anybus

/-- The comparison behind the search queue, as a relation on numbers. -/
theorem Entry.better_iff (a b : Entry) :
    a.better b = true ↔ a.cost < b.cost ∨ (a.cost = b.cost ∧ a.node < b.node) := by
  simp [Entry.better]

/-- For one node, better means cheaper. -/
theorem Entry.better_same_node (c d : Cost) (n : NodeId) :
    Entry.better ⟨c, n⟩ ⟨d, n⟩ = true ↔ c < d := by
  simp [Entry.better_iff]

/-- The order of the queue is transitive. -/
theorem Entry.better_trans {a b c : Entry} (hab : a.better b = true) (hbc : b.better c = true) :
    a.better c = true := by
  rw [Entry.better_iff] at *
  rcases hab with hab | ⟨hab, hab'⟩
  · rcases hbc with hbc | ⟨hbc, _⟩
    · exact Or.inl (hab.trans hbc)
    · exact Or.inl (hbc ▸ hab)
  · rcases hbc with hbc | ⟨hbc, hbc'⟩
    · exact Or.inl (hab ▸ hbc)
    · exact Or.inr ⟨hab.trans hbc, hab'.trans hbc'⟩

/-- Entries of different nodes are always comparable. -/
theorem Entry.better_total {a b : Entry} (hne : a.node ≠ b.node) :
    a.better b = true ∨ b.better a = true := by
  rw [Entry.better_iff, Entry.better_iff]
  rcases lt_trichotomy a.cost b.cost with h | h | h
  · exact Or.inl (Or.inl h)
  · rcases lt_or_gt_of_ne hne with hn | hn
    · exact Or.inl (Or.inr ⟨h, hn⟩)
    · exact Or.inr (Or.inr ⟨h.symm, hn⟩)
  · exact Or.inr (Or.inl h)

/-- A well-formed search queue: one entry per node, strictly ordered. -/
structure QueueOk (queue : List Entry) : Prop where
  /-- No node is queued twice. -/
  nodup : (queue.map Entry.node).Nodup
  /-- Better entries come first. -/
  sorted : queue.Pairwise fun a b => a.better b = true

/-- The queue of the first turn is well formed. -/
theorem QueueOk.singleton (e : Entry) : QueueOk [e] := ⟨by simp, by simp⟩

/-- Taking the first entry keeps the queue well formed. -/
theorem QueueOk.tail {e : Entry} {queue : List Entry} (h : QueueOk (e :: queue)) :
    QueueOk queue := by
  refine ⟨?_, (List.pairwise_cons.mp h.sorted).2⟩
  have hn := h.nodup
  rw [List.map_cons, List.nodup_cons] at hn
  exact hn.2

/-- Requeueing splits the rest of the queue at the place of the new entry. -/
theorem requeue_eq (queue : List Entry) (e : Entry) :
    requeue queue e =
      (queue.eraseP fun x => x.node = e.node).takeWhile (fun x => x.better e) ++
        e :: (queue.eraseP fun x => x.node = e.node).dropWhile fun x => x.better e := by
  simp only [requeue]
  generalize queue.eraseP (fun x => decide (x.node = e.node)) = q
  induction q with
  | nil => simp
  | cons x q ih =>
    by_cases hx : x.better e = true
    · rw [List.takeWhile_cons, List.dropWhile_cons, if_pos hx, if_pos hx, List.length_cons,
        List.insertIdx_succ_cons, List.cons_append, ih]
    · rw [List.takeWhile_cons, List.dropWhile_cons, if_neg hx, if_neg hx, List.length_nil,
        List.insertIdx_zero, List.nil_append]

/-- Requeueing reorders the new entry and the entries of the other nodes. -/
theorem requeue_perm (queue : List Entry) (e : Entry) :
    (requeue queue e).Perm (e :: queue.eraseP fun x => x.node = e.node) := by
  rw [requeue_eq]
  refine List.perm_middle.trans (List.Perm.cons e ?_)
  rw [List.takeWhile_append_dropWhile]

/-- Requeueing grows the queue by at most one entry. -/
theorem requeue_length_le (queue : List Entry) (e : Entry) :
    (requeue queue e).length ≤ queue.length + 1 := by
  rw [(requeue_perm queue e).length_eq, List.length_cons]
  have h := (List.eraseP_sublist (p := fun x => decide (x.node = e.node)) (l := queue)).length_le
  omega

/-- With one entry per node, erasing removes every entry of the node. -/
theorem mem_eraseP_node {queue : List Entry} (hn : (queue.map Entry.node).Nodup) {n : NodeId}
    {x : Entry} : x ∈ queue.eraseP (fun y => y.node = n) ↔ x ∈ queue ∧ x.node ≠ n := by
  induction queue with
  | nil => simp
  | cons y q ih =>
    rw [List.map_cons, List.nodup_cons] at hn
    by_cases hy : y.node = n
    · rw [List.eraseP_cons_of_pos (by simpa using hy)]
      constructor
      · intro hx
        refine ⟨List.mem_cons_of_mem _ hx, fun hxn => hn.1 ?_⟩
        rw [hy, ← hxn]
        exact List.mem_map_of_mem hx
      · rintro ⟨hx, hxn⟩
        rcases List.mem_cons.mp hx with rfl | hx
        · exact absurd hy hxn
        · exact hx
    · rw [List.eraseP_cons_of_neg (by simpa using hy), List.mem_cons, List.mem_cons, ih hn.2]
      constructor
      · rintro (rfl | ⟨hx, hxn⟩)
        · exact ⟨Or.inl rfl, hy⟩
        · exact ⟨Or.inr hx, hxn⟩
      · rintro ⟨rfl | hx, hxn⟩
        · exact Or.inl rfl
        · exact Or.inr ⟨hx, hxn⟩

/-- A requeued queue holds the new entry and the entries of the other nodes. -/
theorem QueueOk.mem_requeue {queue : List Entry} (h : QueueOk queue) {e x : Entry} :
    x ∈ requeue queue e ↔ x = e ∨ (x ∈ queue ∧ x.node ≠ e.node) := by
  rw [(requeue_perm queue e).mem_iff, List.mem_cons, mem_eraseP_node h.nodup]

/-- Requeueing keeps the queue well formed. -/
theorem QueueOk.requeue {queue : List Entry} (h : QueueOk queue) (e : Entry) :
    QueueOk (requeue queue e) := by
  have hsub : (queue.eraseP fun x => decide (x.node = e.node)).Sublist queue :=
    List.eraseP_sublist
  have hne : ∀ x ∈ queue.eraseP (fun x => decide (x.node = e.node)), x.node ≠ e.node :=
    fun x hx => ((mem_eraseP_node h.nodup).mp hx).2
  constructor
  · rw [((requeue_perm queue e).map Entry.node).nodup_iff, List.map_cons, List.nodup_cons]
    refine ⟨?_, h.nodup.sublist (hsub.map _)⟩
    rw [List.mem_map]
    rintro ⟨x, hx, hxe⟩
    exact hne x hx hxe
  · have hsorted := h.sorted.sublist hsub
    rw [requeue_eq]
    generalize queue.eraseP (fun x => decide (x.node = e.node)) = q at hne hsorted
    -- Everything after the partition point comes after the new entry.
    induction q with
    | nil => simp
    | cons x q ih =>
      rw [List.pairwise_cons] at hsorted
      have hq := ih (fun y hy => hne y (List.mem_cons_of_mem _ hy)) hsorted.2
      by_cases hx : x.better e = true
      · rw [List.takeWhile_cons, List.dropWhile_cons, if_pos hx, if_pos hx, List.cons_append,
          List.pairwise_cons]
        refine ⟨fun y hy => ?_, hq⟩
        rcases List.mem_append.mp hy with hy | hy
        · exact hsorted.1 y ((List.takeWhile_sublist _).subset hy)
        · rcases List.mem_cons.mp hy with rfl | hy
          · exact hx
          · exact hsorted.1 y ((List.dropWhile_sublist _).subset hy)
      · rw [List.takeWhile_cons, List.dropWhile_cons, if_neg hx, if_neg hx, List.nil_append,
          List.pairwise_cons]
        have hex : e.better x = true :=
          (Entry.better_total (hne x List.mem_cons_self)).resolve_left hx
        refine ⟨fun y hy => ?_, List.pairwise_cons.mpr hsorted⟩
        rcases List.mem_cons.mp hy with rfl | hy
        · exact hex
        · exact Entry.better_trans hex (hsorted.1 y hy)

/-- In a well-formed queue the entries better than a given one form an initial
segment, which is what locating the insertion point by bisection relies on. -/
theorem QueueOk.takeWhile_eq_filter {queue : List Entry} (h : QueueOk queue) (e : Entry) :
    queue.takeWhile (fun x => x.better e) = queue.filter fun x => x.better e := by
  have hs := h.sorted
  clear h
  induction queue with
  | nil => rfl
  | cons x q ih =>
    rw [List.pairwise_cons] at hs
    by_cases hx : x.better e = true
    · rw [List.takeWhile_cons, List.filter_cons, if_pos hx, if_pos hx, ih hs.2]
    · rw [List.takeWhile_cons, List.filter_cons, if_neg hx, if_neg hx, eq_comm,
        List.filter_eq_nil_iff]
      intro y hy hye
      exact hx (Entry.better_trans (hs.1 y hy) hye)

end Anybus
