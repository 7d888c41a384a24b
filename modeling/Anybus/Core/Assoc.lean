import Mathlib.Data.List.Basic
import Mathlib.Data.List.Forall2
import Mathlib.Data.List.Nodup

/-!
# Association lists

Lists of keys with their values, whose keys are all different, and a partial function applied
to each element of a list.
-/

namespace Anybus

section Assoc

variable {α β : Type*}

/-- A partial function gives a list if it gives each of its elements. -/
theorem mapM_eq_some_iff {f : α → Option β} {l : List α} {l' : List β} :
    l.mapM f = some l' ↔ List.Forall₂ (fun a b => f a = some b) l l' := by
  induction l generalizing l' with
  | nil =>
    rw [List.mapM_nil, List.forall₂_nil_left_iff]
    exact ⟨fun h => (Option.some.inj h).symm, fun h => congrArg some h.symm⟩
  | cons a l ih =>
    rw [List.mapM_cons, List.forall₂_cons_left_iff]
    constructor
    · intro h
      obtain ⟨b, hb, h⟩ := Option.bind_eq_some_iff.mp h
      obtain ⟨bs, hbs, h⟩ := Option.bind_eq_some_iff.mp h
      exact ⟨b, bs, hb, ih.mp hbs, (Option.some.inj h).symm⟩
    · rintro ⟨b, bs, hb, hbs, rfl⟩
      rw [hb, ih.mpr hbs]
      rfl

/-- The value of a key is found. -/
theorem lookup_of_mem [BEq α] [LawfulBEq α] {l : List (α × β)} {a : α} {b : β}
    (hnodup : (l.map Prod.fst).Nodup) (h : (a, b) ∈ l) : l.lookup a = some b := by
  induction l with
  | nil => cases h
  | cons p l ih =>
    obtain ⟨hp, hnodup⟩ := List.nodup_cons.mp hnodup
    rcases List.mem_cons.mp h with rfl | h
    · exact List.lookup_cons_self
    · have hne : (a == p.1) = false := by
        apply beq_false_of_ne
        intro heq
        exact hp (heq ▸ List.mem_map_of_mem h)
      rw [List.lookup_cons, hne]
      exact ih hnodup h

/-- Looking up every key gives the values. -/
theorem mapM_lookup_zip [BEq α] [LawfulBEq α] {keys : List α} {vs : List β} (hnodup : keys.Nodup)
    (hlen : keys.length = vs.length) : keys.mapM (fun a => (keys.zip vs).lookup a) = some vs := by
  rw [mapM_eq_some_iff, List.forall₂_iff_zip]
  refine ⟨hlen, fun h => lookup_of_mem ?_ h⟩
  rw [List.map_fst_zip (Nat.le_of_eq hlen)]
  exact hnodup

/-- The first element with a key is the only one. -/
theorem find?_of_mem_of_nodup [DecidableEq β] {f : α → β} {l : List α} {a : α}
    (hnodup : (l.map f).Nodup) (h : a ∈ l) : l.find? (fun x => f x = f a) = some a := by
  induction l with
  | nil => cases h
  | cons x l ih =>
    obtain ⟨hx, hnodup⟩ := List.nodup_cons.mp hnodup
    rcases List.mem_cons.mp h with rfl | h
    · exact List.find?_cons_of_pos (decide_eq_true rfl)
    · have hne : f x ≠ f a := fun heq => hx (heq ▸ List.mem_map_of_mem h)
      rw [List.find?_cons_of_neg (by simpa using hne)]
      exact ih hnodup h

end Assoc

end Anybus
