import Mathlib.Data.List.Basic

/-!
# Pipes

One direction of a byte stream between two tasks, at the level of whole frames. Frames are
read in the order in which they were written. A writer whose reader is gone fails, and a
reader whose writer is gone finds the end behind the last frame.
-/

namespace Anybus

/-- What a read finds. -/
inductive PipeRead (α : Type*) where
  | frame (a : α)
  | eof
  deriving DecidableEq, Repr

/-- One direction of a stream. -/
structure Pipe (α : Type*) where
  /-- What was read so far. -/
  taken : List α
  /-- What was written and not yet read. -/
  frames : List α
  writerGone : Bool
  readerGone : Bool
  deriving DecidableEq, Repr

namespace Pipe

variable {α : Type*} {p p' : Pipe α} {a : α}

def new : Pipe α := ⟨[], [], false, false⟩

/-- Everything that was written. -/
def written (p : Pipe α) : List α := p.taken ++ p.frames

def write (p : Pipe α) (a : α) : Option (Pipe α) :=
  if p.readerGone then none else some { p with frames := p.frames ++ [a] }

/-- Read a frame or the end; `none` if the reader has to wait. -/
def read (p : Pipe α) : Option (PipeRead α × Pipe α) :=
  match p.frames with
  | a :: rest => some (.frame a, { p with taken := p.taken ++ [a], frames := rest })
  | [] => if p.writerGone then some (.eof, p) else none

def dropWriter (p : Pipe α) : Pipe α := { p with writerGone := true }

def dropReader (p : Pipe α) : Pipe α := { p with readerGone := true }

theorem write_eq_some_iff : p.write a = some p' ↔
    p.readerGone = false ∧ p' = { p with frames := p.frames ++ [a] } := by
  unfold write
  cases p.readerGone <;> simp [eq_comm]

theorem read_eq_frame_iff : p.read = some (.frame a, p') ↔
    ∃ rest, p.frames = a :: rest ∧ p' = { p with taken := p.taken ++ [a], frames := rest } := by
  unfold read
  cases hframes : p.frames with
  | nil => cases p.writerGone <;> simp
  | cons b rest =>
    simp only [Option.some.injEq, Prod.mk.injEq, PipeRead.frame.injEq, List.cons.injEq]
    constructor
    · rintro ⟨rfl, rfl⟩
      exact ⟨rest, ⟨rfl, rfl⟩, rfl⟩
    · rintro ⟨rest', ⟨rfl, rfl⟩, rfl⟩
      exact ⟨rfl, rfl⟩

theorem read_eq_eof_iff : p.read = some (.eof, p') ↔
    p.frames = [] ∧ p.writerGone = true ∧ p' = p := by
  unfold read
  cases hframes : p.frames with
  | nil => cases hgone : p.writerGone <;> simp [eq_comm]
  | cons b rest => simp

/-- A write adds to what was written, a read does not. -/
@[simp] theorem written_push (p : Pipe α) (l : List α) :
    written { p with frames := p.frames ++ l } = p.written ++ l := (List.append_assoc _ _ _).symm

theorem written_read {r : PipeRead α} (h : p.read = some (r, p')) : p'.written = p.written := by
  cases r with
  | frame a =>
    obtain ⟨rest, hframes, rfl⟩ := read_eq_frame_iff.mp h
    rw [written, written, hframes, List.append_assoc, List.singleton_append]
  | eof => rw [(read_eq_eof_iff.mp h).2.2]

@[simp] theorem written_dropWriter (p : Pipe α) : p.dropWriter.written = p.written := rfl

@[simp] theorem written_dropReader (p : Pipe α) : p.dropReader.written = p.written := rfl

end Pipe

end Anybus
