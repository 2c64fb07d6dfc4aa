import Mathlib.Data.List.Basic

/-! A line being edited: the part before the cursor and the part behind it. The
cursor stands between two characters, so every line has one more position than
it has characters. -/
namespace LineZipper

structure Zipper (α : Type) where
  before : List α
  after : List α
deriving DecidableEq

namespace Zipper

variable {α : Type}

def empty : Zipper α := ⟨[], []⟩

/-- The cursor at the end of a given line. -/
def ofLine (line : List α) : Zipper α := ⟨line, []⟩

def text (z : Zipper α) : List α := z.before ++ z.after

def insert (c : α) (z : Zipper α) : Zipper α := ⟨z.before ++ [c], z.after⟩

def erase (z : Zipper α) : Zipper α := ⟨z.before.dropLast, z.after⟩

/-- Nothing happens at the start of the line. -/
def left (z : Zipper α) : Zipper α :=
  match z.before.getLast? with
  | none => z
  | some c => ⟨z.before.dropLast, c :: z.after⟩

/-- Nothing happens at the end of the line. -/
def right (z : Zipper α) : Zipper α :=
  match z.after with
  | [] => z
  | c :: rest => ⟨z.before ++ [c], rest⟩

@[simp] theorem text_empty : (empty : Zipper α).text = [] := rfl

@[simp] theorem text_ofLine (line : List α) : (ofLine line).text = line := List.append_nil line

theorem text_length (z : Zipper α) : z.text.length = z.before.length + z.after.length :=
  List.length_append

theorem text_insert_length (c : α) (z : Zipper α) :
    (z.insert c).text.length = z.text.length + 1 := by
  simp only [text, insert, List.length_append, List.length_singleton]
  omega

theorem insert_ne (c : α) (z : Zipper α) : z.insert c ≠ z := by
  intro h
  have hLength := text_insert_length c z
  rw [h] at hLength
  omega

theorem left_step (before after : List α) (c : α) :
    left ⟨before ++ [c], after⟩ = ⟨before, c :: after⟩ := by
  simp [left]

theorem erase_step (before after : List α) (c : α) :
    erase ⟨before ++ [c], after⟩ = ⟨before, after⟩ := by
  simp [erase]

theorem text_left (z : Zipper α) : z.left.text = z.text := by
  obtain ⟨before, after⟩ := z
  rcases List.eq_nil_or_concat' before with rfl | ⟨before, c, rfl⟩
  · rfl
  · simp [left_step, text]

theorem text_right (z : Zipper α) : z.right.text = z.text := by
  obtain ⟨before, after⟩ := z
  cases after with
  | nil => rfl
  | cons c rest => simp [right, text]

theorem mem_text_insert {c d : α} {z : Zipper α} :
    d ∈ (z.insert c).text ↔ d = c ∨ d ∈ z.text := by
  simp only [text, insert, List.mem_append, List.mem_singleton]
  tauto

theorem mem_of_mem_erase {d : α} {z : Zipper α} (h : d ∈ z.erase.text) : d ∈ z.text := by
  rcases List.mem_append.mp h with h | h
  · exact List.mem_append_left _ ((List.dropLast_subset _ h))
  · exact List.mem_append_right _ h

end Zipper

end LineZipper
