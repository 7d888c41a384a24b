import Mathlib.Data.ENat.Lattice
import Mathlib.Tactic.Ring

/-!
# Walks and bounded distances in weighted digraphs

Edges carry natural costs; parallel edges, loops and zero costs are allowed. The
distance is infinite where no walk exists. A labelling that is attained by walks
and that no edge can improve equals the distance cut off at a bound, whatever
order the labels were found in.
-/

namespace Anybus

/-- A digraph with a cost on every edge. -/
structure WGraph (V : Type*) where
  /-- There is an edge from the first to the second vertex with this cost. -/
  Edge : V → V → Nat → Prop

namespace WGraph

variable {V : Type*} (G : WGraph V)

/-- A directed walk with its total cost. -/
inductive Walk : V → V → Nat → Prop where
  | nil (u : V) : Walk u u 0
  | cons {u v w : V} {c d : Nat} : G.Edge u v c → Walk v w d → Walk u w (c + d)

/-- A walk with its total cost and the vertices it visits. -/
inductive Visits : V → V → List V → Nat → Prop where
  | nil (u : V) : Visits u u [u] 0
  | cons {u v w : V} {l : List V} {c d : Nat} : G.Edge u v c → Visits v w l d →
      Visits u w (u :: l) (c + d)

/-- There is a walk of this cost that visits no vertex twice. -/
def Path (u v : V) (c : Nat) : Prop := ∃ l, G.Visits u v l c ∧ l.Nodup

/-- A vertex lies on a cheapest walk between two others, at this cost from its start. -/
def OnWay (u v x : V) (a : Nat) : Prop :=
  G.Walk u x a ∧ ∃ b, G.Walk x v b ∧ ∀ e, G.Walk u v e → a + b ≤ e

/-- What a site costs from a vertex: the walk to it and the price of the site itself. -/
def Total (site : V → Nat → Prop) (v : V) (y : Nat) : Prop :=
  ∃ u c d, site u c ∧ G.Walk v u d ∧ c + d = y

/-- A vertex is reached at a cost that leaves the best site as good as from the start. -/
def KeepsBest (site : V → Nat → Prop) (u v : V) (a : Nat) : Prop :=
  G.Walk u v a ∧ ∀ z, G.Total site u z → ∃ y, G.Total site v y ∧ a + y ≤ z

/-- The least total cost of a walk, infinite if there is none. -/
noncomputable def dist (u v : V) : ℕ∞ := ⨅ (c : Nat) (_ : G.Walk u v c), (c : ℕ∞)

variable {G}

namespace Walk

/-- Walks compose and their costs add up. -/
theorem append {u v w : V} {c d : Nat} (h : G.Walk u v c) (h' : G.Walk v w d) :
    G.Walk u w (c + d) := by
  induction h with
  | nil u => simpa using h'
  | @cons u x v a b he _ ih =>
    rw [Nat.add_assoc]
    exact .cons he (ih h')

/-- A single edge is a walk. -/
theorem single {u v : V} {c : Nat} (h : G.Edge u v c) : G.Walk u v c := by
  simpa using Walk.cons h (Walk.nil v)

/-- Extend a walk by an edge at its end. -/
theorem snoc {u v w : V} {c d : Nat} (h : G.Walk u v c) (he : G.Edge v w d) :
    G.Walk u w (c + d) := h.append (single he)

/-- Walks can be taken backwards where edges can. -/
theorem reverse (hsymm : ∀ u v c, G.Edge u v c → G.Edge v u c) {u v : V} {c : Nat}
    (h : G.Walk u v c) : G.Walk v u c := by
  induction h with
  | nil u => exact .nil u
  | @cons u x v a b he _ ih =>
    rw [Nat.add_comm]
    exact ih.snoc (hsymm u x a he)

end Walk

namespace Visits

theorem walk {u v : V} {l : List V} {c : Nat} (h : G.Visits u v l c) : G.Walk u v c := by
  induction h with
  | nil u => exact .nil u
  | cons he _ ih => exact .cons he ih

/-- A walk that visits a vertex can start there. -/
theorem drop_until {u v x : V} {l : List V} {c : Nat} (h : G.Visits u v l c) (hx : x ∈ l) :
    ∃ l' d, G.Visits x v l' d ∧ l'.Sublist l ∧ d ≤ c := by
  induction h with
  | nil u =>
    obtain rfl := List.mem_singleton.mp hx
    exact ⟨_, _, .nil x, List.Sublist.refl _, le_rfl⟩
  | @cons u y v l a b he hw ih =>
    rcases List.mem_cons.mp hx with rfl | hx
    · exact ⟨_, _, .cons he hw, List.Sublist.refl _, le_rfl⟩
    · obtain ⟨l', d, hvisits, hsub, hle⟩ := ih hx
      exact ⟨l', d, hvisits, hsub.cons u, by omega⟩

end Visits

/-- Leaving out the loops of a walk does not make it dearer. -/
theorem Walk.exists_path {u v : V} {c : Nat} (h : G.Walk u v c) : ∃ d ≤ c, G.Path u v d := by
  induction h with
  | nil u => exact ⟨0, le_rfl, [u], .nil u, List.nodup_singleton u⟩
  | @cons u x v a b he _ ih =>
    obtain ⟨d, hle, l, hvisits, hnodup⟩ := ih
    by_cases hu : u ∈ l
    · obtain ⟨l', d', hvisits', hsub, hle'⟩ := hvisits.drop_until hu
      exact ⟨d', by omega, l', hvisits', hnodup.sublist hsub⟩
    · exact ⟨a + d, by omega, u :: l, .cons he hvisits, List.nodup_cons.mpr ⟨hu, hnodup⟩⟩

namespace OnWay

variable {u v x y : V} {a : Nat}

/-- No walk to a vertex on the way is cheaper. -/
theorem le_walk (h : G.OnWay u v x a) {e : Nat} (he : G.Walk u x e) : a ≤ e := by
  obtain ⟨_, b, hb, hmin⟩ := h
  have hle := hmin (e + b) (he.append hb)
  omega

/-- An edge that begins a cheapest walk to the end leads on along the way. -/
theorem next (h : G.OnWay u v x a) {c d : Nat} (he : G.Edge x y c) (hw : G.Walk y v d)
    (hmin : ∀ e, G.Walk x v e → c + d ≤ e) : G.OnWay u v y (a + c) := by
  obtain ⟨hx, b, hb, hall⟩ := h
  refine ⟨hx.snoc he, d, hw, fun e hwalk => ?_⟩
  have h₁ := hmin b hb
  have h₂ := hall e hwalk
  omega

end OnWay

/-- No walk is cheaper than the distance. -/
theorem dist_le {u v : V} {c : Nat} (h : G.Walk u v c) : G.dist u v ≤ c := iInf₂_le c h

/-- A lower bound of all walks is a lower bound of the distance. -/
theorem le_dist {u v : V} {b : ℕ∞} (h : ∀ c, G.Walk u v c → b ≤ c) : b ≤ G.dist u v :=
  le_iInf₂ h

/-- A finite distance is attained. -/
theorem exists_walk_of_dist_lt {u v : V} {b : ℕ∞} (h : G.dist u v < b) :
    ∃ c : Nat, G.Walk u v c ∧ (c : ℕ∞) < b := by
  simp only [dist, iInf_lt_iff] at h
  obtain ⟨c, hw, hc⟩ := h
  exact ⟨c, hw, hc⟩

/-- The cost of a walk that no other undercuts is the distance. -/
theorem dist_eq {u v : V} {c : Nat} (h : G.Walk u v c) (hmin : ∀ d, G.Walk u v d → c ≤ d) :
    G.dist u v = c :=
  le_antisymm (dist_le h) (le_dist fun d hd => by exact_mod_cast hmin d hd)

/-- A distance other than infinite is the cost of a walk that no other undercuts. -/
theorem exists_walk_eq_dist {u v : V} (h : G.dist u v ≠ ⊤) :
    ∃ c : Nat, G.Walk u v c ∧ G.dist u v = c ∧ ∀ d, G.Walk u v d → c ≤ d := by
  obtain ⟨c, hw, hc⟩ := exists_walk_of_dist_lt ((ENat.lt_add_one_iff h).mpr le_rfl)
  have heq := le_antisymm (dist_le hw) ((ENat.lt_add_one_iff h).mp hc)
  refine ⟨c, hw, heq, fun d hd => ?_⟩
  have hle := dist_le hd
  rw [heq] at hle
  exact_mod_cast hle

namespace KeepsBest

variable {site : V → Nat → Prop} {u v w : V} {a : Nat}

theorem start (u : V) : G.KeepsBest site u u 0 :=
  ⟨.nil u, fun z hz => ⟨z, hz, by omega⟩⟩

/-- An edge that begins a best way to a site leads on. -/
theorem next (h : G.KeepsBest site u v a) {c y : Nat} (he : G.Edge v w c) (hy : G.Total site w y)
    (hmin : ∀ z, G.Total site v z → c + y ≤ z) : G.KeepsBest site u w (a + c) := by
  refine ⟨h.1.snoc he, fun z hz => ⟨y, hy, ?_⟩⟩
  obtain ⟨y', hy', hle⟩ := h.2 z hz
  have hle' := hmin y' hy'
  omega

/-- A site that is the best where it stands is the best from the start. -/
theorem arrived (h : G.KeepsBest site u v a) {c : Nat} (hmin : ∀ z, G.Total site v z → c ≤ z)
    {v' : V} {c' : Nat} (hsite : site v' c') :
    (c : ℕ∞) + G.dist u v ≤ c' + G.dist u v' := by
  by_cases ht : G.dist u v' = ⊤
  · simp [ht]
  · obtain ⟨d, hw, hd, _⟩ := exists_walk_eq_dist ht
    obtain ⟨y, hy, hle⟩ := h.2 (c' + d) ⟨v', c', d, hsite, hw, rfl⟩
    have hle' := hmin y hy
    have hnat : c + a ≤ c' + d := by omega
    calc (c : ℕ∞) + G.dist u v ≤ c + (a : ℕ∞) := by gcongr; exact dist_le h.1
      _ ≤ c' + (d : ℕ∞) := by exact_mod_cast hnat
      _ = c' + G.dist u v' := by rw [hd]

end KeepsBest

/-- A labelling no edge can improve bounds every walk from below. -/
theorem label_le_of_walk {f : V → Nat} {cap : Nat} (hcap : ∀ v, f v ≤ cap)
    (hrelaxed : ∀ u v c, G.Edge u v c → f u < cap → f v ≤ f u + c)
    {u v : V} {c : Nat} (h : G.Walk u v c) : f v ≤ f u + c := by
  induction h with
  | nil u => exact le_rfl
  | @cons u x w a b he _ ih =>
    by_cases hu : f u < cap
    · have hx := hrelaxed u x a he hu
      omega
    · have hw := hcap w
      omega

/-- A labelling that starts at zero, is attained by walks and cannot be improved by
any edge is the distance, cut off at the bound. -/
theorem label_eq_min_dist {f : V → Nat} {cap : Nat} {r : V} (hcap : ∀ v, f v ≤ cap)
    (hroot : f r = 0) (hsound : ∀ v, f v < cap → G.Walk r v (f v))
    (hrelaxed : ∀ u v c, G.Edge u v c → f u < cap → f v ≤ f u + c) (v : V) :
    (f v : ℕ∞) = min (cap : ℕ∞) (G.dist r v) := by
  apply le_antisymm
  · refine le_min (by exact_mod_cast hcap v) (le_dist fun c hw => ?_)
    have h := label_le_of_walk hcap hrelaxed hw
    rw [hroot, Nat.zero_add] at h
    exact_mod_cast h
  · rcases lt_or_eq_of_le (hcap v) with hlt | heq
    · exact (min_le_right _ _).trans (dist_le (hsound v hlt))
    · rw [heq]
      exact min_le_left _ _

end WGraph

end Anybus
