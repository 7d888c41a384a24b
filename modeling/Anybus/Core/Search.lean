import Mathlib.Data.List.InsertIdx
import Mathlib.Data.List.Sort
import Mathlib.Order.Basic

/-!
# Binary search in a sorted list

The search halves the part of the list that may hold the key until one place is left. In a
sorted list it finds the key if it is there, and otherwise the one place where the key can
be inserted so that the list stays sorted.
-/

namespace Anybus

variable {α : Type*} [LinearOrder α]

/-- Halve the part of the list that starts at `base` until it has one place. -/
def bisect (l : List α) (key : α) : Nat → Nat → Nat → Nat
  | 0, base, _ => base
  | fuel + 1, base, size =>
    if size ≤ 1 then base
    else
      let mid := base + size / 2
      let base := match l[mid]? with
        | some a => if key < a then base else mid
        | none => base
      bisect l key fuel base (size - size / 2)

/-- The place of the key, or the place to insert it. -/
def binarySearch (l : List α) (key : α) : Except Nat Nat :=
  let base := bisect l key l.length 0 l.length
  match l[base]? with
  | none => .error 0
  | some a => if a = key then .ok base else .error (if a < key then base + 1 else base)

section Sorted

variable {l : List α} {key : α}

/-- What is known of the part that is left: everything after it is greater than the key, and
unless it starts the list, it starts with something that is not. -/
structure Bisecting (l : List α) (key : α) (base size : Nat) : Prop where
  nonempty : 0 < size
  inside : base + size ≤ l.length
  after : ∀ j a, base + size ≤ j → l[j]? = some a → key < a
  start : base = 0 ∨ ∃ a, l[base]? = some a ∧ a ≤ key

theorem Bisecting.halve {base size : Nat} (hsorted : l.Pairwise (· ≤ ·))
    (h : Bisecting l key base size) (hsize : ¬ size ≤ 1) :
    Bisecting l key (match l[base + size / 2]? with
      | some a => if key < a then base else base + size / 2
      | none => base) (size - size / 2) := by
  have hinside := h.inside
  have hlt : base + size / 2 < l.length := by omega
  rw [List.getElem?_eq_getElem hlt]
  simp only
  by_cases hkey : key < l[base + size / 2]
  · rw [if_pos hkey]
    refine ⟨by omega, by omega, fun j a hj ha => ?_, h.start⟩
    obtain ⟨hjlt, rfl⟩ := List.getElem?_eq_some_iff.mp ha
    by_cases heq : j = base + size / 2
    · subst heq
      exact hkey
    · exact hkey.trans_le (List.pairwise_iff_getElem.mp hsorted _ _ hlt hjlt (by omega))
  · rw [if_neg hkey]
    refine ⟨by omega, by omega, fun j a hj ha => h.after j a (by omega) ha, Or.inr ?_⟩
    exact ⟨_, List.getElem?_eq_getElem hlt, not_lt.mp hkey⟩

theorem bisect_spec (hsorted : l.Pairwise (· ≤ ·)) {fuel base size : Nat} (hfuel : size ≤ fuel + 1)
    (h : Bisecting l key base size) : Bisecting l key (bisect l key fuel base size) 1 := by
  induction fuel generalizing base size with
  | zero =>
    have hone : size = 1 := by
      have hpos := h.nonempty
      omega
    subst hone
    exact h
  | succ fuel ih =>
    unfold bisect
    split
    · next hle =>
      have hone : size = 1 := by
        have hpos := h.nonempty
        omega
      subst hone
      exact h
    · next hsize =>
      exact ih (by omega) (h.halve hsorted hsize)

/-- A failed search leaves a place with everything smaller before it and everything greater
after it; a successful one has found the key. -/
theorem binarySearch_spec (hsorted : l.Pairwise (· ≤ ·)) (key : α) :
    (∃ i, binarySearch l key = .ok i ∧ l[i]? = some key) ∨
    ∃ pos, binarySearch l key = .error pos ∧ pos ≤ l.length ∧ (∀ a ∈ l.take pos, a < key) ∧
      ∀ a ∈ l.drop pos, key < a := by
  unfold binarySearch
  simp only
  cases hl : l with
  | nil => exact Or.inr ⟨0, rfl, Nat.le_refl 0, by simp, by simp⟩
  | cons b rest =>
    rw [← hl]
    have hinit : Bisecting l key 0 l.length := by
      refine ⟨by rw [hl]; exact Nat.succ_pos _, by omega, fun j a hj ha => ?_, Or.inl rfl⟩
      have hjlt : j < l.length := (List.getElem?_eq_some_iff.mp ha).1
      omega
    have hend := bisect_spec hsorted (Nat.le_succ l.length) hinit
    generalize bisect l key l.length 0 l.length = base at hend
    have hlt : base < l.length := hend.inside
    rw [List.getElem?_eq_getElem hlt]
    simp only
    by_cases heq : l[base] = key
    · rw [if_pos heq]
      exact Or.inl ⟨base, rfl, by rw [List.getElem?_eq_getElem hlt, heq]⟩
    · rw [if_neg heq]
      refine Or.inr ⟨_, rfl, ?_⟩
      by_cases hless : l[base] < key
      · rw [if_pos hless]
        refine ⟨hlt, fun a ha => ?_, fun a ha => ?_⟩
        · obtain ⟨j, hj, rfl⟩ := List.mem_take_iff_getElem.mp ha
          have hle : l[j] ≤ l[base] := by
            by_cases hjb : j = base
            · subst hjb
              exact le_rfl
            · exact List.pairwise_iff_getElem.mp hsorted _ _ (by omega) hlt (by omega)
          exact hle.trans_lt hless
        · obtain ⟨j, hj, rfl⟩ := List.mem_drop_iff_getElem.mp ha
          exact hend.after _ _ (by omega) (List.getElem?_eq_getElem _)
      · rw [if_neg hless]
        -- The part that is left starts the list, since it starts with something greater.
        obtain rfl : base = 0 := by
          obtain hzero | ⟨a, ha, hle⟩ := hend.start
          · exact hzero
          · rw [List.getElem?_eq_getElem hlt] at ha
            cases ha
            exact absurd (lt_of_le_of_ne hle heq) hless
        refine ⟨Nat.zero_le _, by simp, fun a ha => ?_⟩
        rw [List.drop_zero] at ha
        obtain ⟨j, hj, rfl⟩ := List.mem_iff_getElem.mp ha
        by_cases hjz : j = 0
        · subst hjz
          exact lt_of_le_of_ne (not_lt.mp hless) (Ne.symm heq)
        · exact hend.after j _ (by omega) (List.getElem?_eq_getElem hj)

/-- Inserting the key where the search has failed keeps the list sorted. -/
theorem pairwise_insertIdx (hsorted : l.Pairwise (· ≤ ·)) {pos : Nat} (hpos : pos ≤ l.length)
    (hbefore : ∀ a ∈ l.take pos, a < key) (hafter : ∀ a ∈ l.drop pos, key < a) :
    (l.insertIdx pos key).Pairwise (· ≤ ·) := by
  induction l generalizing pos with
  | nil =>
    obtain rfl : pos = 0 := Nat.le_zero.mp hpos
    exact List.pairwise_singleton _ _
  | cons b l ih =>
    cases pos with
    | zero => exact List.pairwise_cons.mpr ⟨fun a ha => (hafter a ha).le, hsorted⟩
    | succ pos =>
      obtain ⟨hb, hsorted⟩ := List.pairwise_cons.mp hsorted
      have hle : pos ≤ l.length := Nat.le_of_succ_le_succ hpos
      rw [List.insertIdx_succ_cons]
      refine List.pairwise_cons.mpr ⟨fun a ha => ?_, ?_⟩
      · obtain rfl | ha := (List.mem_insertIdx hle).mp ha
        · exact (hbefore b List.mem_cons_self).le
        · exact hb a ha
      · exact ih hsorted hle (fun a ha => hbefore a (List.mem_cons_of_mem _ ha)) hafter

end Sorted

end Anybus
