import Mathlib.Data.List.Basic
import Mathlib.Data.List.Destutter

/-!
# Order in a trace

A trace is a list of what happened, oldest first, that grows at its end.
-/

namespace Anybus

section Precedes

variable {α : Type*}

/-- Some element with the first property is followed by one with the second. -/
def Precedes (p q : α → Prop) : List α → Prop
  | [] => False
  | a :: l => (p a ∧ ∃ b ∈ l, q b) ∨ Precedes p q l

instance Precedes.decidable (p q : α → Prop) [DecidablePred p] [DecidablePred q] :
    DecidablePred (Precedes p q)
  | [] => isFalse id
  | a :: l =>
    have := Precedes.decidable p q l
    inferInstanceAs (Decidable ((p a ∧ ∃ b ∈ l, q b) ∨ Precedes p q l))

theorem precedes_concat (p q : α → Prop) (l : List α) (x : α) :
    Precedes p q (l ++ [x]) ↔ Precedes p q l ∨ (∃ a ∈ l, p a) ∧ q x := by
  induction l with
  | nil => simp [Precedes]
  | cons a l ih =>
    have hhead : (∃ b ∈ a :: l, p b) ↔ p a ∨ ∃ b ∈ l, p b := by simp
    simp only [List.cons_append, Precedes, ih, hhead, List.mem_append, List.mem_singleton]
    constructor
    · rintro (⟨ha, b, hb | rfl, hq⟩ | hl | ⟨hp, hq⟩)
      · exact Or.inl (Or.inl ⟨ha, b, hb, hq⟩)
      · exact Or.inr ⟨Or.inl ha, hq⟩
      · exact Or.inl (Or.inr hl)
      · exact Or.inr ⟨Or.inr hp, hq⟩
    · rintro ((⟨ha, b, hb, hq⟩ | hl) | ⟨ha | hp, hq⟩)
      · exact Or.inl ⟨ha, b, Or.inl hb, hq⟩
      · exact Or.inr (Or.inl hl)
      · exact Or.inl ⟨ha, x, Or.inr rfl, hq⟩
      · exact Or.inr (Or.inr ⟨hp, hq⟩)

theorem Precedes.append {p q : α → Prop} {l : List α} (h : Precedes p q l) (l' : List α) :
    Precedes p q (l ++ l') := by
  induction l with
  | nil => cases h
  | cons a l ih =>
    rcases h with ⟨ha, b, hb, hq⟩ | hl
    · exact Or.inl ⟨ha, b, List.mem_append_left _ hb, hq⟩
    · exact Or.inr (ih hl)

theorem Precedes.exists_first {p q : α → Prop} {l : List α} (h : Precedes p q l) :
    ∃ a ∈ l, p a := by
  induction l with
  | nil => cases h
  | cons a l ih =>
    rcases h with ⟨ha, _⟩ | hl
    · exact ⟨a, List.mem_cons_self, ha⟩
    · obtain ⟨b, hb, hp⟩ := ih hl
      exact ⟨b, List.mem_cons_of_mem _ hb, hp⟩

end Precedes

section Destutter

variable {α : Type*} [DecidableEq α]

/-- A new last element counts unless it repeats the one before it. -/
theorem destutter'_concat (l : List α) (a b : α) : (l ++ [a]).destutter' (· ≠ ·) b =
    if l.getLast?.getD b = a then l.destutter' (· ≠ ·) b else l.destutter' (· ≠ ·) b ++ [a] := by
  induction l generalizing b with
  | nil => by_cases h : b = a <;> simp [h]
  | cons c l ih =>
    rw [List.getLast?_cons, Option.getD_some, List.cons_append]
    by_cases h : b = c
    · subst h
      rw [List.destutter'_cons_neg _ (not_not.mpr rfl), List.destutter'_cons_neg _ (not_not.mpr rfl)]
      exact ih b
    · rw [List.destutter'_cons_pos _ h, List.destutter'_cons_pos _ h, ih c]
      split <;> rfl

theorem destutter_concat (l : List α) (a : α) : (l ++ [a]).destutter (· ≠ ·) =
    if l.getLast? = some a then l.destutter (· ≠ ·) else l.destutter (· ≠ ·) ++ [a] := by
  cases l with
  | nil => rfl
  | cons b l =>
    rw [List.cons_append, List.destutter_cons', List.destutter_cons', destutter'_concat,
      List.getLast?_cons]
    simp only [Option.some.injEq]

end Destutter

end Anybus
