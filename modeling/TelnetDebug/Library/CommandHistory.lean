import TelnetDebug.Library.LineZipper

/-! A line editor with a history. The lines entered so far are kept in order,
and a position among them, or behind the last one, is moved by two keys. The
line recalled last is remembered; it comes back when a key cannot move. -/
namespace CommandHistory

open LineZipper

structure Console (α : Type) where
  line : Zipper α
  entered : List (List α)
  index : Nat
  recalled : List α
  index_le : index ≤ entered.length

inductive Key (κ : Type) where
  | edit (key : κ)
  | up
  | down
  | enter

variable {α κ : Type}

namespace Key

def navigates : Key κ → Bool
  | up | down => true
  | edit _ | enter => false

end Key

namespace Console

def empty : Console α := ⟨.empty, [], 0, [], Nat.le_refl 0⟩

/-- The line at a position; behind the last line it is empty. -/
def entry (c : Console α) (i : Nat) : List α := c.entered.getD i []

/-- Move to a position and recall its line. -/
def goto (c : Console α) (i : Nat) (h : i ≤ c.entered.length) : Console α :=
  ⟨.ofLine (c.entry i), c.entered, i, c.entry i, h⟩

/-- The key could not move. -/
def stay (c : Console α) : Console α := { c with line := .ofLine c.recalled }

def up (c : Console α) : Console α :=
  if c.index = 0 then c.stay else c.goto (c.index - 1) (Nat.le_trans (Nat.sub_le _ _) c.index_le)

def down (c : Console α) : Console α :=
  if h : c.index = c.entered.length then c.stay
  else c.goto (c.index + 1) (Nat.lt_of_le_of_ne c.index_le h)

/-- The line is entered at the end of the history; an empty line is not. -/
def enter [DecidableEq α] (c : Console α) : Console α :=
  if c.line.text = [] then c
  else
    { line := .empty
      entered := c.entered ++ [c.line.text]
      index := c.entered.length + 1
      recalled := c.line.text
      index_le := by simp }

def press [DecidableEq α] (edit : Zipper α → κ → Zipper α) (c : Console α) : Key κ → Console α
  | .edit key => { c with line := edit c.line key }
  | .up => c.up
  | .down => c.down
  | .enter => c.enter

theorem entry_end (c : Console α) {i : Nat} (h : c.entered.length ≤ i) : c.entry i = [] := by
  rw [entry, List.getD_eq_getElem?_getD, List.getElem?_eq_none h]
  rfl

theorem entry_mem (c : Console α) {i : Nat} (h : i < c.entered.length) : c.entry i ∈ c.entered := by
  rw [entry, List.getD_eq_getElem?_getD, List.getElem?_eq_getElem h]
  exact List.getElem_mem h

theorem up_first {c : Console α} (h : c.index = 0) : c.up = c.stay := if_pos h

theorem up_move {c : Console α} (h : c.index ≠ 0) :
    c.up = c.goto (c.index - 1) (Nat.le_trans (Nat.sub_le _ _) c.index_le) := if_neg h

theorem down_last {c : Console α} (h : c.index = c.entered.length) : c.down = c.stay := dif_pos h

theorem down_move {c : Console α} (h : c.index ≠ c.entered.length) :
    c.down = c.goto (c.index + 1) (Nat.lt_of_le_of_ne c.index_le h) := dif_neg h

theorem up_index (c : Console α) : c.up.index = c.index - 1 := by
  by_cases h : c.index = 0
  · rw [up_first h]
    simp [stay, h]
  · rw [up_move h]
    rfl

theorem down_index (c : Console α) : c.down.index = min (c.index + 1) c.entered.length := by
  have hLe := c.index_le
  by_cases h : c.index = c.entered.length
  · rw [down_last h]
    simp only [stay]
    omega
  · rw [down_move h]
    simp only [goto]
    omega

theorem up_entered (c : Console α) : c.up.entered = c.entered := by
  unfold up
  split <;> rfl

theorem down_entered (c : Console α) : c.down.entered = c.entered := by
  unfold down
  split <;> rfl

theorem enter_empty [DecidableEq α] {c : Console α} (h : c.line.text = []) : c.enter = c := if_pos h

theorem enter_line [DecidableEq α] {c : Console α} (h : c.line.text ≠ []) :
    c.enter = ⟨.empty, c.entered ++ [c.line.text], c.entered.length + 1, c.line.text,
      by rw [List.length_append]; exact Nat.le_refl _⟩ :=
  if_neg h

section Recall

/-- The line recalled last is the line at the position. -/
def Recalls (c : Console α) : Prop := c.recalled = c.entry c.index

/-- After either key the line is the line recalled last. -/
def Loaded (c : Console α) : Prop := c.line = .ofLine c.recalled

theorem up_loaded (c : Console α) : c.up.Loaded := by
  unfold up
  split <;> rfl

theorem down_loaded (c : Console α) : c.down.Loaded := by
  unfold down
  split <;> rfl

theorem up_recalls {c : Console α} (h : c.Recalls ∨ c.up.index ≠ c.index) : c.up.Recalls := by
  by_cases hFirst : c.index = 0
  · rw [up_first hFirst] at h ⊢
    exact h.resolve_right fun hMoved => hMoved rfl
  · rw [up_move hFirst]
    rfl

theorem down_recalls {c : Console α} (h : c.Recalls ∨ c.down.index ≠ c.index) :
    c.down.Recalls := by
  by_cases hLast : c.index = c.entered.length
  · rw [down_last hLast] at h ⊢
    exact h.resolve_right fun hMoved => hMoved rfl
  · rw [down_move hLast]
    rfl

end Recall

section Keys
variable [DecidableEq α] (edit : Zipper α → κ → Zipper α)

/-- The lines entered are never changed, and at most one is added. -/
theorem press_entered (c : Console α) (key : Key κ) :
    (c.press edit key).entered = c.entered ∨
      ∃ line, (c.press edit key).entered = c.entered ++ [line] := by
  cases key with
  | edit key => exact .inl rfl
  | up => exact .inl c.up_entered
  | down => exact .inl c.down_entered
  | enter =>
      change c.enter.entered = _ ∨ ∃ line, c.enter.entered = _
      by_cases hEmpty : c.line.text = []
      · exact .inl (by rw [enter_empty hEmpty])
      · exact .inr ⟨c.line.text, by rw [enter_line hEmpty]⟩

theorem entered_grows (c : Console α) (keys : List (Key κ)) :
    c.entered <+: (keys.foldl (press edit) c).entered := by
  induction keys generalizing c with
  | nil => exact List.prefix_rfl
  | cons key keys ih =>
      refine List.IsPrefix.trans ?_ (ih (c.press edit key))
      rcases c.press_entered edit key with h | ⟨line, h⟩
      · exact ⟨[], by rw [h, List.append_nil]⟩
      · exact ⟨[line], by rw [h]⟩

/-- A key that enters no line keeps what was recalled, and a history key that
moves recalls. -/
theorem press_recalls {c : Console α} {key : Key κ}
    (hSame : (c.press edit key).entered.length = c.entered.length)
    (h : c.Recalls ∨ key.navigates = true ∧ (c.press edit key).index ≠ c.index) :
    (c.press edit key).Recalls := by
  cases key with
  | edit key => exact h.resolve_right fun h => Bool.false_ne_true h.1
  | up => exact up_recalls (h.imp_right And.right)
  | down => exact down_recalls (h.imp_right And.right)
  | enter =>
      have hRecalls : c.Recalls := h.resolve_right fun h => Bool.false_ne_true h.1
      change c.enter.entered.length = _ at hSame
      change c.enter.Recalls
      by_cases hEmpty : c.line.text = []
      · rwa [enter_empty hEmpty]
      · rw [enter_line hEmpty] at hSame
        simp at hSame

theorem run_recalls {c : Console α} {keys : List (Key κ)}
    (hSame : (keys.foldl (press edit) c).entered.length = c.entered.length) (h : c.Recalls) :
    (keys.foldl (press edit) c).Recalls := by
  induction keys generalizing c with
  | nil => exact h
  | cons key keys ih =>
      have hFirst : c.entered.length ≤ (c.press edit key).entered.length :=
        (entered_grows edit c [key]).length_le
      have hRest := (entered_grows edit (c.press edit key) keys).length_le
      rw [List.foldl_cons] at hSame ⊢
      have hMid : (c.press edit key).entered.length = c.entered.length := by omega
      exact ih (by rw [hSame, hMid]) (press_recalls edit hMid (.inl h))

end Keys

end Console

section Slots
variable {d : α}

/-- The next line goes to the first free slot; where none is free it is lost. -/
theorem takeD_set (slots : Nat) (lines : List α) (a : α) :
    (lines.takeD slots d).set (min lines.length slots) a = (lines ++ [a]).takeD slots d := by
  induction slots generalizing lines with
  | zero => rfl
  | succ slots ih =>
      cases lines with
      | nil => simp [List.takeD]
      | cons line lines =>
          have hRest := ih lines
          simp only [List.takeD, List.length_cons, Nat.add_min_add_right, List.set_cons_succ,
            List.tail_cons, List.cons_append, hRest]
          rfl

theorem mem_takeD {slots : Nat} {lines : List α} {a : α} (h : a ∈ lines.takeD slots d) :
    a ∈ lines ∨ a = d := by
  induction slots generalizing lines with
  | zero => cases h
  | succ slots ih =>
      cases lines with
      | nil =>
          rw [List.takeD_nil] at h
          exact .inr (List.eq_of_mem_replicate h)
      | cons line lines =>
          rcases List.mem_cons.mp h with hFirst | hRest
          · exact .inl (List.mem_cons.mpr (.inl hFirst))
          · exact (ih hRest).imp_left (List.mem_cons_of_mem line)

end Slots

end CommandHistory
