import Mathlib.Logic.Basic

/-!
# Values behind a type name

A box holds a value together with the name of its type. It can be asked for a value of a
type that is known, and gives it if the names agree, or itself back.
-/

namespace Anybus

/-- A value of a type that is only known by its name. -/
@[ext] structure AnyBox {ι : Type*} (Val : ι → Type*) where
  typeId : ι
  val : Val typeId

namespace AnyBox

variable {ι : Type*} {Val : ι → Type*} [DecidableEq ι] {box box' : AnyBox Val} {t : ι} {v : Val t}

/-- Ask for a value of a known type. -/
def downcast (box : AnyBox Val) (t : ι) : Except (AnyBox Val) (Val t) :=
  if h : box.typeId = t then .ok (h ▸ box.val) else .error box

/-- The value comes out exactly if it is in the box. -/
theorem downcast_eq_ok_iff : box.downcast t = .ok v ↔ box = ⟨t, v⟩ := by
  obtain ⟨s, w⟩ := box
  by_cases h : s = t
  · subst h
    simp [downcast]
  · simp [downcast, h]

/-- Otherwise the box comes back. -/
theorem downcast_eq_error_iff : box.downcast t = .error box' ↔ box.typeId ≠ t ∧ box' = box := by
  by_cases h : box.typeId = t
  · simp [downcast, h]
  · simp [downcast, h, eq_comm]

end AnyBox

end Anybus
