import Mathlib.Data.List.AList

/-!
# Finite maps with an arbitrary iteration order

A hash map is a duplicate-free association list: lookups see only the keys, and
the stored order is the order in which an iterator visits the entries. Two maps
that are permutations of each other are the same map rehashed.
-/

namespace Anybus

/-- A map from `κ` to `ν` together with the order of its iterator. -/
abbrev HashMap (κ : Type*) (ν : Type*) := AList (fun _ : κ => ν)

namespace HashMap

variable {κ : Type*} {ν : Type*}

/-- The values in iteration order. -/
def values (m : HashMap κ ν) : List ν := m.entries.map Sigma.snd

/-- Keep the entries that satisfy a test, in the same order. -/
def retain (m : HashMap κ ν) (p : κ → ν → Bool) : HashMap κ ν :=
  ⟨m.entries.filter fun e => p e.1 e.2, m.nodupKeys.sublist List.filter_sublist⟩

/-- Rewrite every value in place. -/
def mapValues (m : HashMap κ ν) (f : κ → ν → ν) : HashMap κ ν :=
  ⟨m.entries.map fun e => ⟨e.1, f e.1 e.2⟩, m.nodupKeys.map₂ (fun k v => f k v)⟩

/-- No entry occurs twice. -/
theorem nodup_entries (m : HashMap κ ν) : m.entries.Nodup := m.nodupKeys.nodup

variable [DecidableEq κ]

instance [DecidableEq ν] : DecidableEq (HashMap κ ν) := fun m n =>
  decidable_of_iff (m.entries = n.entries) AList.ext_iff.symm

/-- Store a value: a present key keeps its place in the order, a new one goes to the
front. -/
def insert (m : HashMap κ ν) (k : κ) (v : ν) : HashMap κ ν :=
  if k ∈ m.keys then m.mapValues fun k' v' => if k' = k then v else v'
  else AList.insert k v m

/-- Forget a key. -/
def erase (m : HashMap κ ν) (k : κ) : HashMap κ ν := AList.erase k m

/-- The value stored under a key. -/
def get (m : HashMap κ ν) (k : κ) : Option ν := m.lookup k

/-- Entries and successful lookups are the same thing. -/
theorem mem_entries_iff {m : HashMap κ ν} {k : κ} {v : ν} :
    (⟨k, v⟩ : Σ _ : κ, ν) ∈ m.entries ↔ m.get k = some v :=
  AList.mem_lookup_iff.symm

/-- Every visited value is stored under some key. -/
theorem mem_values_iff {m : HashMap κ ν} {v : ν} : v ∈ m.values ↔ ∃ k, m.get k = some v := by
  simp only [values, List.mem_map]
  constructor
  · rintro ⟨⟨k, w⟩, hw, rfl⟩
    exact ⟨k, mem_entries_iff.mp hw⟩
  · rintro ⟨k, hk⟩
    exact ⟨⟨k, v⟩, mem_entries_iff.mpr hk, rfl⟩

@[simp] theorem get_empty (k : κ) : (∅ : HashMap κ ν).get k = none := rfl

/-- Filtering a map filters each lookup on its own. -/
@[simp] theorem get_retain (m : HashMap κ ν) (p : κ → ν → Bool) (k : κ) :
    (m.retain p).get k = (m.get k).filter (p k) := by
  apply Option.ext
  intro v
  rw [← mem_entries_iff]
  simp only [retain, List.mem_filter, mem_entries_iff, Option.filter_eq_some_iff]

/-- Rewriting values rewrites each lookup on its own. -/
@[simp] theorem get_mapValues (m : HashMap κ ν) (f : κ → ν → ν) (k : κ) :
    (m.mapValues f).get k = (m.get k).map (f k) := by
  apply Option.ext
  intro v
  rw [← mem_entries_iff]
  simp only [mapValues, List.mem_map, Sigma.mk.injEq, Option.map_eq_some_iff]
  constructor
  · rintro ⟨⟨k', w⟩, hw, hk, hv⟩
    simp only at hk
    subst hk
    exact ⟨w, mem_entries_iff.mp hw, eq_of_heq hv⟩
  · rintro ⟨w, hw, rfl⟩
    exact ⟨⟨k, w⟩, mem_entries_iff.mpr hw, rfl, HEq.rfl⟩

/-- A key is present exactly when its lookup succeeds. -/
theorem mem_keys_iff {m : HashMap κ ν} {k : κ} : k ∈ m.keys ↔ (m.get k).isSome :=
  AList.lookup_isSome.symm

/-- A written key reads back, every other key is untouched. -/
@[simp] theorem get_insert (m : HashMap κ ν) (k k' : κ) (v : ν) :
    (m.insert k v).get k' = if k' = k then some v else m.get k' := by
  unfold insert
  by_cases hk : k ∈ m.keys
  · rw [if_pos hk, get_mapValues]
    by_cases heq : k' = k
    · obtain ⟨v', hv'⟩ := Option.isSome_iff_exists.mp (mem_keys_iff.mp hk)
      simp [heq, hv']
    · simp [heq]
  · rw [if_neg hk]
    by_cases heq : k' = k
    · rw [if_pos heq, heq]
      exact AList.lookup_insert m
    · rw [if_neg heq]
      exact AList.lookup_insert_ne heq

/-- An erased key is absent, every other key is untouched. -/
@[simp] theorem get_erase (m : HashMap κ ν) (k k' : κ) :
    (m.erase k).get k' = if k' = k then none else m.get k' := by
  by_cases heq : k' = k
  · rw [if_pos heq, heq]
    exact AList.lookup_erase k m
  · rw [if_neg heq]
    exact AList.lookup_erase_ne heq

/-- A write leaves the other entries and the new one, in some order. -/
theorem insert_entries_perm (m : HashMap κ ν) (k : κ) (v : ν) :
    (m.insert k v).entries.Perm (⟨k, v⟩ :: m.entries.filter fun e => e.1 ≠ k) := by
  have hnodup : (⟨k, v⟩ :: m.entries.filter fun e => decide (e.1 ≠ k)).Nodup := by
    rw [List.nodup_cons]
    exact ⟨by simp, m.nodup_entries.filter _⟩
  rw [List.perm_ext_iff_of_nodup (nodup_entries _) hnodup]
  rintro ⟨k', v'⟩
  rw [mem_entries_iff, get_insert, List.mem_cons, List.mem_filter, mem_entries_iff]
  by_cases heq : k' = k
  · subst heq
    simp [eq_comm]
  · simp [heq]

/-- The later of two values stored under one key stays. -/
theorem insert_insert (m : HashMap κ ν) (k : κ) (v v' : ν) :
    (m.insert k v).insert k v' = m.insert k v' := by
  unfold insert
  by_cases hk : k ∈ m.keys
  · have hkeys : (m.mapValues fun k' w => if k' = k then v else w).keys = m.keys := by
      simp [mapValues, AList.keys, List.keys, Function.comp_def]
    rw [if_pos hk, if_pos hk, hkeys, if_pos hk]
    apply AList.ext
    simp only [mapValues, List.map_map]
    apply List.map_congr_left
    intro e _
    by_cases he : e.1 = k <;> simp [he]
  · have hmem : k ∈ (AList.insert k v m).keys := by simp
    rw [if_neg hk, if_neg hk, if_pos hmem]
    have hentries : ∀ w : ν, (AList.insert k w m).entries = ⟨k, w⟩ :: m.entries := by
      intro w
      exact AList.entries_insert_of_notMem hk
    apply AList.ext
    rw [hentries]
    simp only [mapValues, hentries, List.map_cons, if_true]
    congr 1
    conv_rhs => rw [← List.map_id m.entries]
    apply List.map_congr_left
    intro e he
    have hne : e.1 ≠ k := by
      rintro rfl
      exact hk (List.mem_map.mpr ⟨e, he, rfl⟩)
    simp [hne]
/-- Rehashing a map never changes a lookup. -/
theorem get_eq_of_perm {m m' : HashMap κ ν} (h : m.entries.Perm m'.entries) (k : κ) :
    m.get k = m'.get k := AList.perm_lookup h

end HashMap

end Anybus
