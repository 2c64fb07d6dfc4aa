import TelnetDebug.Library.Guarded
import Mathlib.Data.List.Nodup
import Mathlib.Logic.Function.Basic

/-! Cells of memory that hold one link each, and the lists that the links form.
An access through a null pointer, or to a cell that is not there, is a fault. -/
namespace Linked

variable {α : Type}

/-- The link in each cell; there is no cell at the other addresses. -/
abbrev Heap (α : Type) := α → Option (Option α)

inductive Fault where
  | null
  | noCell
  | endless
  | aborted
deriving DecidableEq

namespace Heap

variable {h : Heap α} {a : α}

def link (h : Heap α) : Option α → Except Fault (Option α)
  | none => .error .null
  | some a =>
      match h a with
      | none => .error .noCell
      | some next => .ok next

theorem link_eq {next : Option α} (hCell : h a = some next) : h.link (some a) = .ok next := by
  rw [link, hCell]

variable [DecidableEq α]

def setLink (h : Heap α) (next : Option α) : Option α → Except Fault (Heap α)
  | none => .error .null
  | some a => if (h a).isSome then .ok (Function.update h a (some next)) else .error .noCell

/-- Give back a cell. Nothing is done for a null pointer. -/
def free (h : Heap α) : Option α → Except Fault (Heap α)
  | none => .ok h
  | some a => if (h a).isSome then .ok (Function.update h a none) else .error .noCell

/-- A cell at the address, in the place of one that may be there. -/
def provide (h : Heap α) (a : α) (next : Option α) : Heap α := Function.update h a (some next)

theorem setLink_eq (hCell : (h a).isSome) (next : Option α) :
    h.setLink next (some a) = .ok (Function.update h a (some next)) := if_pos hCell

theorem free_eq (hCell : (h a).isSome) : h.free (some a) = .ok (Function.update h a none) :=
  if_pos hCell

/-- Setting a link keeps the cells. -/
theorem isSome_update (hCell : (h a).isSome) (next : Option α) (b : α) :
    (Function.update h a (some next) b).isSome = (h b).isSome := by
  rcases eq_or_ne b a with rfl | hOther
  · rw [Function.update_self, hCell]
    rfl
  · rw [Function.update_of_ne hOther]

end Heap

/-- The cells `xs` are linked one to the next, from the pointer `p` on, and the
last link is `q`. -/
inductive Segment (h : Heap α) : Option α → List α → Option α → Prop where
  | nil (p : Option α) : Segment h p [] p
  | cons {a : α} {next q : Option α} {xs : List α} (hCell : h a = some next)
      (rest : Segment h next xs q) : Segment h (some a) (a :: xs) q

namespace Segment

variable {h : Heap α} {p q r : Option α} {a : α} {xs ys : List α}

theorem append (hFirst : Segment h p xs q) (hSecond : Segment h q ys r) :
    Segment h p (xs ++ ys) r := by
  induction hFirst with
  | nil => exact hSecond
  | cons hCell _ ih => exact .cons hCell (ih hSecond)

theorem split (hBoth : Segment h p (xs ++ ys) r) :
    ∃ q, Segment h p xs q ∧ Segment h q ys r := by
  induction xs generalizing p with
  | nil => exact ⟨p, .nil p, hBoth⟩
  | cons a xs ih =>
      cases hBoth with
      | cons hCell hRest =>
          obtain ⟨q, hFirst, hSecond⟩ := ih hRest
          exact ⟨q, .cons hCell hFirst, hSecond⟩

theorem nil_inv (hSegment : Segment h p [] q) : p = q := by
  cases hSegment
  rfl

theorem cons_inv (hSegment : Segment h p (a :: xs) q) :
    p = some a ∧ ∃ next, h a = some next ∧ Segment h next xs q := by
  cases hSegment with
  | cons hCell hRest => exact ⟨rfl, _, hCell, hRest⟩

/-- The cell between two parts of a list. -/
theorem split_cons (hSegment : Segment h p (xs ++ a :: ys) r) :
    Segment h p xs (some a) ∧ ∃ next, h a = some next ∧ Segment h next ys r := by
  obtain ⟨q, hFirst, hSecond⟩ := hSegment.split
  obtain ⟨rfl, hRest⟩ := hSecond.cons_inv
  exact ⟨hFirst, hRest⟩

theorem head_eq (hSegment : Segment h p xs none) : p = xs.head? := by
  cases hSegment
  · rfl
  · rfl

theorem exists_head (hSegment : Segment h p xs none) (hNonempty : xs ≠ []) : ∃ b, p = some b := by
  cases hSegment with
  | nil => exact (hNonempty rfl).elim
  | cons => exact ⟨_, rfl⟩

/-- The cells of a list are there. -/
theorem isSome_of_mem (hSegment : Segment h p xs q) (hMem : a ∈ xs) : (h a).isSome := by
  induction hSegment with
  | nil => cases hMem
  | cons hCell _ ih =>
      rcases List.mem_cons.mp hMem with rfl | hLater
      · rw [hCell]
        rfl
      · exact ih hLater

/-- A list is read the same in memory that agrees on its cells. -/
theorem congr {h' : Heap α} (hSegment : Segment h p xs q) (hSame : ∀ a ∈ xs, h' a = h a) :
    Segment h' p xs q := by
  induction hSegment with
  | nil => exact .nil _
  | cons hCell _ ih =>
      exact .cons ((hSame _ List.mem_cons_self).trans hCell)
        (ih fun a ha => hSame a (List.mem_cons_of_mem _ ha))

theorem update [DecidableEq α] (hSegment : Segment h p xs q) (hOther : a ∉ xs)
    (cell : Option (Option α)) : Segment (Function.update h a cell) p xs q := by
  apply hSegment.congr
  intro b hb
  exact Function.update_of_ne (ne_of_mem_of_not_mem hb hOther) _ _

/-- Memory determines the list behind a pointer. -/
theorem unique (hFirst : Segment h p xs none) (hSecond : Segment h p ys none) : xs = ys := by
  induction xs generalizing p ys with
  | nil =>
      rw [hFirst.nil_inv] at hSecond
      cases hSecond
      rfl
  | cons a xs ih =>
      obtain ⟨rfl, next, hCell, hRest⟩ := hFirst.cons_inv
      cases hSecond with
      | cons hCell' hRest' =>
          rw [hCell] at hCell'
          cases hCell'
          rw [ih hRest hRest']

/-- A list that ends goes through no cell twice. -/
theorem nodup (hSegment : Segment h p xs none) : xs.Nodup := by
  induction xs generalizing p with
  | nil => exact List.nodup_nil
  | cons a xs ih =>
      obtain ⟨rfl, next, hCell, hRest⟩ := hSegment.cons_inv
      apply List.nodup_cons.mpr
      refine ⟨fun hMem => ?_, ih hRest⟩
      -- A second occurrence would start the same list again, inside itself.
      obtain ⟨before, after, rfl⟩ := List.append_of_mem hMem
      obtain ⟨q, -, hAgain⟩ := hRest.split
      obtain ⟨rfl, -⟩ := hAgain.cons_inv
      have hLength := congrArg List.length (hSegment.unique hAgain)
      rw [List.length_cons, List.length_append, List.length_cons] at hLength
      omega

/-- A cell put behind another one of a list. -/
theorem insert_after {h' : Heap α} {z : α} {ws : List α}
    (hSegment : Segment h p (ys ++ z :: ws) none) (hFresh : a ∉ ys ++ z :: ws)
    (hPrevious : h' z = some (some a)) (hNew : h' a = some ws.head?)
    (hSame : ∀ b, b ≠ z → b ≠ a → h' b = h b) : Segment h' p (ys ++ z :: a :: ws) none := by
  have hNodup := List.nodup_middle.mp hSegment.nodup
  have hOther := (List.nodup_cons.mp hNodup).1
  obtain ⟨hFirst, next, -, hRest⟩ := hSegment.split_cons
  obtain rfl := hRest.head_eq
  have hKept : ∀ b ∈ ys ++ ws, h' b = h b := by
    intro b hb
    apply hSame b (ne_of_mem_of_not_mem hb hOther)
    apply ne_of_mem_of_not_mem _ hFresh
    rcases List.mem_append.mp hb with hBefore | hAfter
    · exact List.mem_append_left _ hBefore
    · exact List.mem_append_right _ (List.mem_cons_of_mem z hAfter)
  apply (hFirst.congr fun b hb => hKept b (List.mem_append_left ws hb)).append
  exact .cons hPrevious
    (.cons hNew (hRest.congr fun b hb => hKept b (List.mem_append_right ys hb)))

/-- A cell taken out from behind another one of a list. -/
theorem remove_after {h' : Heap α} {z : α} {ws : List α}
    (hSegment : Segment h p (ys ++ z :: a :: ws) none) (hPrevious : h' z = some ws.head?)
    (hSame : ∀ b, b ≠ z → b ≠ a → h' b = h b) : Segment h' p (ys ++ z :: ws) none := by
  have hNodup := List.nodup_middle.mp hSegment.nodup
  have hOther := (List.nodup_cons.mp hNodup).1
  have hNodup' := List.nodup_middle.mp (List.nodup_cons.mp hNodup).2
  have hOther' := (List.nodup_cons.mp hNodup').1
  obtain ⟨hFirst, next, -, hNode⟩ := hSegment.split_cons
  obtain ⟨-, next', -, hRest⟩ := hNode.cons_inv
  obtain rfl := hRest.head_eq
  have hKept : ∀ b ∈ ys ++ ws, h' b = h b := by
    intro b hb
    apply hSame b _ (ne_of_mem_of_not_mem hb hOther')
    apply ne_of_mem_of_not_mem _ hOther
    rcases List.mem_append.mp hb with hBefore | hAfter
    · exact List.mem_append_left _ hBefore
    · exact List.mem_append_right _ (List.mem_cons_of_mem a hAfter)
  apply (hFirst.congr fun b hb => hKept b (List.mem_append_left ws hb)).append
  exact .cons hPrevious (hRest.congr fun b hb => hKept b (List.mem_append_right ys hb))

end Segment

end Linked
