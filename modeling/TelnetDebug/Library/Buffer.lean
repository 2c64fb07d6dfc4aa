import Mathlib.Data.List.TakeWhile
import Mathlib.Data.List.Infix
import Mathlib.Algebra.Group.Defs

/-! Fixed-size arrays and the C string operations on them. A cell that is zero
ends the string that starts at the front of the array. An access outside the
array is not given a meaning: the operation returns the offending index. -/
namespace CBuffer

variable {α : Type} {n : Nat} [Zero α]

/-- The run of cells holds a string: one of its cells is zero. -/
def Terminated (cells : List α) : Prop := 0 ∈ cells

@[simp] theorem terminated_append_zero (s rest : List α) :
    Terminated (s ++ 0 :: rest) := by
  simp [Terminated]

section Strings
variable [DecidableEq α]

instance (cells : List α) : Decidable (Terminated cells) :=
  inferInstanceAs (Decidable (0 ∈ cells))

/-- The string at the front of a run of cells, without its terminator. A run
with no zero in it is returned whole. -/
def text (cells : List α) : List α := cells.takeWhile (· ≠ 0)

theorem zero_notMem_text (cells : List α) : (0 : α) ∉ text cells := by
  intro h
  simpa using List.mem_takeWhile_imp h

theorem text_append {s : List α} (hText : (0 : α) ∉ s) (rest : List α) :
    text (s ++ rest) = s ++ text rest := by
  unfold text
  rw [List.takeWhile_append_of_pos]
  intro c hc
  simpa using fun h : c = 0 => hText (h ▸ hc)

@[simp] theorem text_append_zero {s : List α} (hText : (0 : α) ∉ s) (rest : List α) :
    text (s ++ 0 :: rest) = s := by
  rw [text_append hText]
  simp [text]

/-- A terminated run splits at its first zero. -/
theorem Terminated.split {cells : List α} (h : Terminated cells) :
    ∃ rest, cells = text cells ++ 0 :: rest := by
  induction cells with
  | nil => simp [Terminated] at h
  | cons c cells ih =>
      by_cases hc : c = 0
      · exact ⟨cells, by simp [text, hc]⟩
      · have hRest : Terminated cells := by
          rcases List.mem_cons.mp h with hZero | hZero
          · exact absurd hZero.symm hc
          · exact hZero
        obtain ⟨rest, hSplit⟩ := ih hRest
        have hText : text (c :: cells) = c :: text cells := by simp [text, hc]
        exact ⟨rest, by rw [hText, List.cons_append, ← hSplit]⟩

theorem text_of_not_terminated {cells : List α} (h : ¬ Terminated cells) : text cells = cells := by
  rw [← List.append_nil cells, text_append h]
  rfl

/-- A zero behind a run of cells changes nothing in front of it. -/
theorem text_terminate (cells rest : List α) : text (cells ++ 0 :: rest) = text cells := by
  by_cases h : Terminated cells
  · obtain ⟨tail, hSplit⟩ := h.split
    calc text (cells ++ 0 :: rest)
        = text (text cells ++ 0 :: (tail ++ 0 :: rest)) := by
          rw [← List.cons_append, ← List.append_assoc, ← hSplit]
      _ = text cells := text_append_zero (zero_notMem_text cells) _
  · rw [text_append_zero h, text_of_not_terminated h]

theorem text_length_lt {cells : List α} (h : Terminated cells) :
    (text cells).length < cells.length := by
  obtain ⟨rest, hSplit⟩ := h.split
  have hLength := congrArg List.length hSplit
  simp only [List.length_append, List.length_cons] at hLength
  omega

theorem text_length_le (cells : List α) : (text cells).length ≤ cells.length :=
  (List.takeWhile_prefix _).length_le

omit [Zero α] in
/-- The first `c` is where a part without one ends. -/
theorem idxOf?_first {c : α} {front : List α} (hFront : c ∉ front) (tail : List α) :
    (front ++ c :: tail).idxOf? c = some front.length := by
  rw [List.idxOf?_eq_some_iff]
  refine ⟨by simp, by simp, fun j hj => ?_⟩
  rw [List.getElem_append_left hj]
  exact fun h => hFront (h ▸ List.getElem_mem hj)

end Strings

/-- An array of exactly `n` cells. -/
structure Buffer (α : Type) (n : Nat) where
  cells : List α
  size : cells.length = n
deriving DecidableEq

namespace Buffer

omit [Zero α] in
@[ext] theorem ext {b c : Buffer α n} (h : b.cells = c.cells) : b = c := by
  cases b
  cases c
  simpa using h

/-- Read one cell. -/
def get (b : Buffer α n) (i : Nat) : Except Nat α :=
  if h : i < b.cells.length then .ok b.cells[i] else .error i

/-- Write one cell. -/
def set (b : Buffer α n) (i : Nat) (c : α) : Except Nat (Buffer α n) :=
  if i < n then .ok ⟨b.cells.set i c, by rw [List.length_set, b.size]⟩ else .error i

omit [Zero α] in
theorem move_size (b : Buffer α n) (dst src count : Nat)
    (h : src + count ≤ n ∧ dst + count ≤ n) :
    (b.cells.take dst ++ (b.cells.drop src).take count ++
      b.cells.drop (dst + count)).length = n := by
  have hSize := b.size
  simp only [List.length_append, List.length_take, List.length_drop]
  omega

/-- Copy `count` cells from `src` to `dst`; the two ranges may overlap. The
error is the first destination index past the array. -/
def move (b : Buffer α n) (dst src count : Nat) : Except Nat (Buffer α n) :=
  if h : src + count ≤ n ∧ dst + count ≤ n then
    .ok ⟨b.cells.take dst ++ (b.cells.drop src).take count ++ b.cells.drop (dst + count),
      b.move_size dst src count h⟩
  else .error (max n dst)

/-- An array all of whose cells are `c`. -/
def const (n : Nat) (c : α) : Buffer α n := ⟨List.replicate n c, List.length_replicate⟩

omit [Zero α] in
@[simp] theorem cells_const (c : α) : (const n c).cells = List.replicate n c := rfl

/-- The cell at a constant index of the array. -/
def peek (b : Buffer α n) (i : Nat) : α := b.cells.getD i 0

/-- The array whose first cells are `s` and whose other cells are zero. -/
def fill (s : List α) (h : s.length ≤ n) : Buffer α n :=
  ⟨s ++ List.replicate (n - s.length) 0, by simp; omega⟩

@[simp] theorem cells_fill (s : List α) (h : s.length ≤ n) :
    (fill s h).cells = s ++ List.replicate (n - s.length) 0 := rfl

/-- Write the string `s` and its terminator at the front of the array. The
error is the first index past the array. -/
def store (b : Buffer α n) (s : List α) : Except Nat (Buffer α n) :=
  if h : s.length < n then
    .ok ⟨s ++ 0 :: b.cells.drop (s.length + 1), by
      have hSize := b.size
      simp only [List.length_append, List.length_cons, List.length_drop]
      omega⟩
  else .error n

/-- Write `s` at the front of the array, with no terminator behind it. -/
def copy (b : Buffer α n) (s : List α) : Except Nat (Buffer α n) :=
  if h : s.length ≤ n then
    .ok ⟨s ++ b.cells.drop s.length, by
      have hSize := b.size
      simp only [List.length_append, List.length_drop]
      omega⟩
  else .error n

omit [Zero α] in
theorem copy_spec (b : Buffer α n) {s : List α} (hFits : s.length ≤ n) :
    ∃ b', b.copy s = .ok b' ∧ b'.cells = s ++ b.cells.drop s.length := by
  refine ⟨_, by rw [copy, dif_pos hFits], rfl⟩

omit [Zero α] in
theorem get_eq {b : Buffer α n} {i : Nat} {a : α} (h : b.cells[i]? = some a) :
    b.get i = .ok a := by
  obtain ⟨hIndex, rfl⟩ := List.getElem?_eq_some_iff.mp h
  rw [get, dif_pos hIndex]

omit [Zero α] in
theorem get_error {b : Buffer α n} {i : Nat} (h : n ≤ i) : b.get i = .error i := by
  rw [get, dif_neg (by rw [b.size]; omega)]

omit [Zero α] in
theorem set_inside (b : Buffer α n) {i : Nat} (h : i < n) (c : α) :
    ∃ b', b.set i c = .ok b' ∧ b'.cells = b.cells.set i c := ⟨_, if_pos h, rfl⟩

omit [Zero α] in
theorem set_spec {b : Buffer α n} {before after : List α} {old : α}
    (hCells : b.cells = before ++ old :: after) (c : α) :
    ∃ b', b.set before.length c = .ok b' ∧ b'.cells = before ++ c :: after := by
  have hSize := b.size
  rw [hCells] at hSize
  simp only [List.length_append, List.length_cons] at hSize
  obtain ⟨b', hSet, hCells'⟩ := b.set_inside (i := before.length) (by omega) c
  refine ⟨b', hSet, ?_⟩
  rw [hCells', hCells, List.set_append_right _ _ (Nat.le_refl _), Nat.sub_self, List.set_cons_zero]

/-- Write the cells of `s` one after the other, from position `pos` on. -/
def putAll (b : Buffer α n) (pos : Nat) : List α → Except Nat (Buffer α n)
  | [] => .ok b
  | c :: s => b.set pos c >>= fun b => b.putAll (pos + 1) s

omit [Zero α] in
theorem putAll_spec {b : Buffer α n} {before after s : List α}
    (hCells : b.cells = before ++ after) (hFits : s.length ≤ after.length) :
    ∃ b', b.putAll before.length s = .ok b' ∧ b'.cells = before ++ s ++ after.drop s.length := by
  induction s generalizing b before after with
  | nil => exact ⟨b, rfl, by rw [hCells, List.append_nil]; rfl⟩
  | cons c s ih =>
      cases after with
      | nil => cases hFits
      | cons old after =>
          obtain ⟨b', hSet, hNext⟩ := set_spec hCells c
          rw [List.append_cons] at hNext
          obtain ⟨b'', hRest, hFinal⟩ := ih hNext (Nat.le_of_succ_le_succ hFits)
          rw [List.length_append, List.length_singleton] at hRest
          refine ⟨b'', ?_, ?_⟩
          · rw [putAll, hSet]
            exact hRest
          · rw [hFinal, ← List.append_cons]
            rfl

omit [Zero α] in
/-- The first cell that has no place is the one past the array. -/
theorem putAll_error {b : Buffer α n} {before after s : List α}
    (hCells : b.cells = before ++ after) (hLong : after.length < s.length) :
    b.putAll before.length s = .error n := by
  induction s generalizing b before after with
  | nil => cases hLong
  | cons c s ih =>
      cases after with
      | nil =>
          have hEnd : before.length = n := by rw [← b.size, hCells, List.append_nil]
          rw [putAll, set, if_neg (Nat.not_lt_of_le hEnd.ge), hEnd]
          rfl
      | cons old after =>
          obtain ⟨b', hSet, hNext⟩ := set_spec hCells c
          rw [List.append_cons] at hNext
          have hRest := ih hNext (Nat.lt_of_succ_lt_succ hLong)
          rw [List.length_append, List.length_singleton] at hRest
          rw [putAll, hSet]
          exact hRest

omit [Zero α] in
/-- Move `mid` one cell to the right and write `c` into the gap: the cell that
followed `mid` is lost. -/
theorem insert_spec {b : Buffer α n} {before mid after : List α} {old : α}
    (hCells : b.cells = before ++ mid ++ old :: after) (c : α) :
    ∃ b₁ b₂, b.move (before.length + 1) before.length mid.length = .ok b₁ ∧
      b₁.set before.length c = .ok b₂ ∧ b₂.cells = before ++ c :: (mid ++ after) := by
  have hSize := b.size
  rw [hCells] at hSize
  simp only [List.length_append, List.length_cons] at hSize
  have hFits : before.length + mid.length ≤ n ∧ before.length + 1 + mid.length ≤ n := by omega
  obtain ⟨gap, hGap⟩ : ∃ gap, (b.cells.take (before.length + 1) ++
      (b.cells.drop before.length).take mid.length ++
        b.cells.drop (before.length + 1 + mid.length)) = before ++ gap :: (mid ++ after) := by
    have hTail : (before ++ mid ++ old :: after).drop (before.length + 1 + mid.length) = after := by
      rw [show before.length + 1 + mid.length = (before ++ mid).length + 1 by simp; omega,
        ← List.drop_drop, List.drop_left]
      rfl
    rw [hCells, hTail]
    cases mid with
    | nil => exact ⟨old, by simp [List.take_append]⟩
    | cons m mid => exact ⟨m, by simp [List.take_append]⟩
  obtain ⟨b₂, hSet, hResult⟩ := set_spec (b := ⟨_, b.move_size _ _ _ hFits⟩) hGap c
  exact ⟨_, b₂, by rw [move, dif_pos hFits], hSet, hResult⟩

/-- Move `mid` one cell to the left over `old` and write a zero into the cell
that became free. -/
theorem delete_spec {b : Buffer α n} {before mid after : List α} {old : α}
    (hCells : b.cells = before ++ old :: (mid ++ after)) :
    ∃ b₁ b₂, b.move before.length (before.length + 1) mid.length = .ok b₁ ∧
      b₁.set (before.length + mid.length) 0 = .ok b₂ ∧
        b₂.cells = before ++ mid ++ 0 :: after := by
  have hSize := b.size
  rw [hCells] at hSize
  simp only [List.length_append, List.length_cons] at hSize
  have hFits : before.length + 1 + mid.length ≤ n ∧ before.length + mid.length ≤ n := by omega
  obtain ⟨last, hLast⟩ : ∃ last, (b.cells.take before.length ++
      (b.cells.drop (before.length + 1)).take mid.length ++
        b.cells.drop (before.length + mid.length)) = before ++ mid ++ last :: after := by
    obtain ⟨init, last, hSplit⟩ : ∃ init last, old :: mid = init ++ [last] :=
      ⟨_, _, (List.dropLast_append_getLast (by simp : old :: mid ≠ [])).symm⟩
    have hInit : init.length = mid.length := by
      simpa using (congrArg List.length hSplit).symm
    refine ⟨last, ?_⟩
    have hTail : (before ++ old :: (mid ++ after)).drop (before.length + mid.length) =
        last :: after := by
      rw [← List.drop_drop, List.drop_left, ← List.cons_append, hSplit, ← hInit]
      simp
    rw [hCells, hTail]
    simp [List.drop_append, List.drop_of_length_le (Nat.le_succ before.length)]
  obtain ⟨b₂, hSet, hResult⟩ := set_spec (b := ⟨_, b.move_size _ _ _ hFits⟩) hLast 0
  refine ⟨_, b₂, by rw [move, dif_pos hFits], ?_, hResult⟩
  simpa using hSet

theorem store_spec (b : Buffer α n) {s : List α} (hFits : s.length < n) :
    ∃ b', b.store s = .ok b' ∧ b'.cells = s ++ 0 :: b.cells.drop (s.length + 1) := by
  refine ⟨_, by rw [store, dif_pos hFits], rfl⟩

theorem terminated_of_store {b b' : Buffer α n} {s : List α} (h : b.store s = .ok b') :
    Terminated b'.cells := by
  unfold store at h
  split at h
  · cases h
    exact terminated_append_zero _ _
  · cases h

section Contents
variable {b b' : Buffer α n} {i : Nat} {c d : α}

omit [Zero α] in
theorem mem_of_get {a : α} (h : b.get i = .ok a) : a ∈ b.cells := by
  unfold get at h
  split at h
  · cases h
    exact List.getElem_mem _
  · cases h

omit [Zero α] in
theorem mem_of_set (h : b.set i c = .ok b') (hd : d ∈ b'.cells) : d = c ∨ d ∈ b.cells := by
  unfold set at h
  split at h
  · cases h
    exact (List.mem_or_eq_of_mem_set hd).symm
  · cases h

omit [Zero α] in
/-- Moving cells brings no new contents. -/
theorem mem_of_move {dst src count : Nat} (h : b.move dst src count = .ok b')
    (hd : d ∈ b'.cells) : d ∈ b.cells := by
  unfold move at h
  split at h
  · cases h
    rcases List.mem_append.mp hd with hd | hd
    · rcases List.mem_append.mp hd with hd | hd
      · exact List.mem_of_mem_take hd
      · exact List.mem_of_mem_drop (List.mem_of_mem_take hd)
    · exact List.mem_of_mem_drop hd
  · cases h

theorem mem_of_store {s : List α} (h : b.store s = .ok b') (hd : d ∈ b'.cells) :
    d = 0 ∨ d ∈ s ∨ d ∈ b.cells := by
  unfold store at h
  split at h
  · cases h
    rcases List.mem_append.mp hd with hd | hd
    · exact .inr (.inl hd)
    · rcases List.mem_cons.mp hd with hd | hd
      · exact .inl hd
      · exact .inr (.inr (List.mem_of_mem_drop hd))
  · cases h

end Contents

section Strings
variable [DecidableEq α]

/-- Read the string at the front of the array; a string that is not
terminated inside the array is read past its end. -/
def str (b : Buffer α n) : Except Nat (List α) :=
  if Terminated b.cells then .ok (text b.cells) else .error n

/-- The length of the string at the front of the array. -/
def strlen (b : Buffer α n) : Except Nat Nat := List.length <$> b.str

/-- The array starts with the literal `s` and its terminator. -/
def streq (b : Buffer α n) (s : List α) : Bool := (s ++ [0]).isPrefixOf b.cells

theorem str_eq {b : Buffer α n} (h : Terminated b.cells) : b.str = .ok (text b.cells) :=
  if_pos h

theorem mem_of_str {b : Buffer α n} {s : List α} {d : α} (h : b.str = .ok s) (hd : d ∈ s) :
    d ∈ b.cells := by
  unfold str at h
  split at h
  · cases h
    exact (List.takeWhile_prefix _).subset hd
  · cases h

theorem strlen_eq {b : Buffer α n} (h : Terminated b.cells) :
    b.strlen = .ok (text b.cells).length := by
  rw [strlen, str_eq h]
  rfl

theorem strlen_error {b : Buffer α n} (h : ¬ Terminated b.cells) : b.strlen = .error n := by
  rw [strlen, str, if_neg h]
  rfl

theorem text_length_lt (b : Buffer α n) (h : Terminated b.cells) :
    (text b.cells).length < n := by
  simpa [b.size] using CBuffer.text_length_lt h

/-- Comparing with a literal is comparing the string at the front. -/
theorem streq_iff {b : Buffer α n} {s : List α} (hText : (0 : α) ∉ s) :
    b.streq s = true ↔ Terminated b.cells ∧ text b.cells = s := by
  rw [streq, List.isPrefixOf_iff_prefix]
  constructor
  · rintro ⟨rest, hCells⟩
    rw [← hCells, List.append_assoc, List.singleton_append]
    exact ⟨terminated_append_zero s rest, text_append_zero hText rest⟩
  · rintro ⟨hTerminated, rfl⟩
    obtain ⟨rest, hSplit⟩ := hTerminated.split
    exact ⟨rest, by rw [List.append_assoc, List.singleton_append, ← hSplit]⟩

/-- Read the string that starts at position `p`. -/
def strAt (b : Buffer α n) (p : Nat) : Except Nat (List α) :=
  if Terminated (b.cells.drop p) then .ok (text (b.cells.drop p)) else .error n

/-- The position of the first `c` in the string that starts at position `p`. -/
def strchr (b : Buffer α n) (p : Nat) (c : α) : Except Nat (Option Nat) := do
  let s ← b.strAt p
  return (s.idxOf? c).map (p + ·)

/-- The position of the last `c` in the string that starts at position `p`. -/
def strrchr (b : Buffer α n) (p : Nat) (c : α) : Except Nat (Option Nat) := do
  let s ← b.strAt p
  return (s.reverse.idxOf? c).map fun i => p + (s.length - 1 - i)

section Positions
variable {b : Buffer α n} {before s rest : List α}

theorem strAt_eq (hCells : b.cells = before ++ s ++ 0 :: rest) (hText : (0 : α) ∉ s) :
    b.strAt before.length = .ok s := by
  have hDrop : b.cells.drop before.length = s ++ 0 :: rest := by
    rw [hCells, List.append_assoc, List.drop_left]
  rw [strAt, hDrop, if_pos (terminated_append_zero s rest), text_append_zero hText]

theorem strchr_found {c : α} {after : List α} (hCells : b.cells = before ++ s ++ c :: after)
    (hText : (0 : α) ∉ s) (hAfter : Terminated after) (hNe : c ≠ 0) (hNone : c ∉ s) :
    b.strchr before.length c = .ok (some (before.length + s.length)) := by
  obtain ⟨tail, hTail⟩ := hAfter.split
  have hAt : b.strAt before.length = .ok (s ++ c :: text after) := by
    have hSplit : b.cells = before ++ (s ++ c :: text after) ++ 0 :: tail := by
      rw [hCells]
      simp [← hTail]
    exact strAt_eq hSplit (by simp [hText, hNe.symm, zero_notMem_text])
  rw [strchr, hAt]
  change Except.ok (((s ++ c :: text after).idxOf? c).map _) = _
  rw [idxOf?_first hNone]
  rfl

theorem strchr_none {c : α} (hCells : b.cells = before ++ s ++ 0 :: rest) (hText : (0 : α) ∉ s)
    (hNone : c ∉ s) : b.strchr before.length c = .ok none := by
  rw [strchr, strAt_eq hCells hText]
  change Except.ok ((s.idxOf? c).map _) = _
  rw [List.idxOf?_eq_none_iff.mpr hNone]
  rfl

theorem strrchr_found {c : α} {after : List α}
    (hCells : b.cells = before ++ s ++ c :: (after ++ 0 :: rest)) (hText : (0 : α) ∉ s)
    (hNe : c ≠ 0) (hAfter : (0 : α) ∉ after) (hNone : c ∉ after) :
    b.strrchr before.length c = .ok (some (before.length + s.length)) := by
  have hAt : b.strAt before.length = .ok (s ++ c :: after) :=
    strAt_eq (by rw [hCells, List.append_assoc, List.append_assoc, List.append_assoc]; rfl)
      (by simp [hText, hNe.symm, hAfter])
  have hIndex : (s ++ c :: after).reverse.idxOf? c = some after.length := by
    rw [List.reverse_append, List.reverse_cons, List.append_assoc, ← List.length_reverse]
    exact idxOf?_first (fun h => hNone (List.mem_reverse.mp h)) s.reverse
  have hLast : s.length + (after.length + 1) - 1 - after.length = s.length := by omega
  rw [strrchr, hAt]
  change Except.ok (((s ++ c :: after).reverse.idxOf? c).map _) = _
  rw [hIndex, Option.map_some, List.length_append, List.length_cons, hLast]

theorem strrchr_none {c : α} (hCells : b.cells = before ++ s ++ 0 :: rest) (hText : (0 : α) ∉ s)
    (hNone : c ∉ s) : b.strrchr before.length c = .ok none := by
  rw [strrchr, strAt_eq hCells hText]
  change Except.ok ((s.reverse.idxOf? c).map _) = _
  rw [List.idxOf?_eq_none_iff.mpr fun h => hNone (List.mem_reverse.mp h)]
  rfl

theorem strrchr_last {c : α} (hCells : b.cells = before ++ s ++ c :: 0 :: rest)
    (hText : (0 : α) ∉ s) (hNe : c ≠ 0) :
    b.strrchr before.length c = .ok (some (before.length + s.length)) :=
  have hTail : b.cells = before ++ s ++ c :: ([] ++ 0 :: rest) := hCells
  strrchr_found hTail hText hNe List.not_mem_nil List.not_mem_nil

end Positions

section Ends
variable {b : Buffer α n} {p e : Nat}

/-- A zero ends every string that starts in front of it. -/
theorem terminated_of_zero (hZero : b.cells[e]? = some 0) (hLe : p ≤ e) :
    Terminated (b.cells.drop p) ∧ (text (b.cells.drop p)).length ≤ e - p := by
  have hCell : (b.cells.drop p)[e - p]? = some 0 := by
    rw [List.getElem?_drop, Nat.add_sub_cancel' hLe]
    exact hZero
  refine ⟨List.mem_of_getElem? hCell, ?_⟩
  by_contra hLong
  have hInside : e - p < (text (b.cells.drop p)).length := Nat.lt_of_not_le hLong
  have hPrefix : text (b.cells.drop p) <+: b.cells.drop p := List.takeWhile_prefix _
  have hText := hPrefix.getElem hInside
  obtain ⟨hIndex, hGet⟩ := List.getElem?_eq_some_iff.mp hCell
  rw [hGet] at hText
  exact zero_notMem_text _ (hText ▸ List.getElem_mem hInside)

theorem strAt_ends (hZero : b.cells[e]? = some 0) (hLe : p ≤ e) :
    b.strAt p = .ok (text (b.cells.drop p)) := if_pos (terminated_of_zero hZero hLe).1

/-- A search ends in front of a zero, at the first occurrence. -/
theorem strchr_ends (hZero : b.cells[e]? = some 0) (hLe : p ≤ e) (c : α) :
    ∃ found, b.strchr p c = .ok found ∧ ∀ q, found = some q →
      p ≤ q ∧ q < e ∧ b.cells[q]? = some c ∧ ∀ j, p ≤ j → j < q → b.cells[j]? ≠ some c := by
  have hLength := (terminated_of_zero hZero hLe).2
  have hPrefix : text (b.cells.drop p) <+: b.cells.drop p := List.takeWhile_prefix _
  have hCell {i : Nat} (hi : i < (text (b.cells.drop p)).length) :
      b.cells[p + i]? = some (text (b.cells.drop p))[i] := by
    have hDrop : i < (b.cells.drop p).length := Nat.lt_of_lt_of_le hi hPrefix.length_le
    rw [← List.getElem?_drop, List.getElem?_eq_getElem hDrop, hPrefix.getElem hi]
  rw [strchr, strAt_ends hZero hLe]
  refine ⟨_, rfl, fun q hq => ?_⟩
  obtain ⟨i, hIndex, rfl⟩ := Option.map_eq_some_iff.mp hq
  obtain ⟨hi, hFound, hFirst⟩ := List.idxOf?_eq_some_iff.mp hIndex
  refine ⟨Nat.le_add_right p i, by omega, ?_, fun j hLow hj => ?_⟩
  · rw [hCell hi, hFound]
  · obtain ⟨k, rfl⟩ := Nat.exists_eq_add_of_le hLow
    have hk : k < i := by omega
    rw [hCell (Nat.lt_trans hk hi), Ne, Option.some.injEq]
    exact fun h => by simpa [h] using hFirst k hk

end Ends

end Strings

end Buffer

end CBuffer
