import TelnetDebug.Library.Terminal

/-! A VT100 screen: the row that the cursor is in, and the rows that were
scrolled up above it. The bytes that leave the row, or go back to its start or
erase towards it, are handled here; all others act on the row alone. -/
namespace VT100

@[simp] theorem length_blanks (count : Nat) : (blanks count).length = count :=
  List.length_replicate

@[simp] theorem drop_blanks (count dropped : Nat) :
    (blanks count).drop dropped = blanks (count - dropped) := List.drop_replicate

namespace Row

def carriageReturn (r : Row) : Row := ⟨r.cells, 0, Nat.zero_lt_of_lt r.inRow⟩

theorem eraseLeft_length (r : Row) :
    (blanks (r.column + 1) ++ r.cells.drop (r.column + 1)).length = r.cells.length := by
  have hRow := r.inRow
  simp only [length_blanks, List.length_append, List.length_drop]
  omega

/-- Blank the cells up to the cursor, the one it stands on among them. -/
def eraseLeft (r : Row) : Row :=
  ⟨blanks (r.column + 1) ++ r.cells.drop (r.column + 1), r.column,
    Nat.lt_of_lt_of_eq r.inRow r.eraseLeft_length.symm⟩

/-- The row that is scrolled in, with the cursor in the same column. -/
def next (r : Row) : Row :=
  ⟨blanks r.cells.length, r.column, by rw [length_blanks]; exact r.inRow⟩

section Operations
variable {r : Row} {before after : List UInt8} {x : UInt8}

theorem Shows.carriageReturn (h : r.Shows before after) :
    r.carriageReturn.Shows [] (before ++ after) := ⟨h.cells, rfl⟩

theorem Shows.eraseLeft (h : r.Shows before (x :: after)) :
    r.eraseLeft.Shows (blanks before.length) (blank :: after) := by
  obtain ⟨hCells, hColumn⟩ := h
  constructor
  · simp only [Row.eraseLeft, hCells, hColumn, List.drop_append]
    simp [blanks, List.replicate_succ']
  · simp [Row.eraseLeft, hColumn]

theorem Shows.next (h : r.Shows [] after) : r.next.Shows [] (blanks after.length) := by
  obtain ⟨hCells, hColumn⟩ := h
  constructor
  · simp [Row.next, hCells]
  · exact hColumn

end Operations

end Row

structure Screen where
  above : List (List UInt8)
  terminal : Terminal

namespace Screen

/-- The screen receives one byte. -/
def feed (s : Screen) (c : UInt8) : Screen :=
  match s.terminal.mode with
  | .ground =>
      if c = 0x0d then { s with terminal := ⟨s.terminal.row.carriageReturn, .ground⟩ }
      else if c = 0x0a then
        ⟨s.above ++ [s.terminal.row.cells], ⟨s.terminal.row.next, .ground⟩⟩
      else { s with terminal := s.terminal.feed c }
  | .control (some 1) =>
      if c = 0x4b then { s with terminal := ⟨s.terminal.row.eraseLeft, .ground⟩ }
      else { s with terminal := s.terminal.feed c }
  | .escape | .control _ => { s with terminal := s.terminal.feed c }

def feedAll (s : Screen) (bytes : List UInt8) : Screen := bytes.foldl feed s

theorem feedAll_append (s : Screen) (first second : List UInt8) :
    s.feedAll (first ++ second) = (s.feedAll first).feedAll second :=
  List.foldl_append

/-- A screen with nothing on it, the cursor at the start of its row. -/
def cleared (width : Nat) (hWidth : 0 < width) : Screen where
  above := []
  terminal :=
    { row := ⟨blanks width, 0, by rwa [length_blanks]⟩
      mode := .ground }

/-- The rows above, and the row with the cursor cut at it. -/
structure Shows (s : Screen) (above : List (List UInt8)) (before after : List UInt8) : Prop where
  above : s.above = above
  row : s.terminal.Shows before after

theorem cleared_shows {width : Nat} (hWidth : 0 < width) :
    (cleared width hWidth).Shows [] [] (blanks width) := ⟨rfl, ⟨⟨rfl, rfl⟩, rfl⟩⟩

/-- The bytes stay in the row, and end between two control sequences. -/
def Inline (bytes : List UInt8) : Prop :=
  ∀ s : Screen, s.terminal.mode = .ground →
    s.feedAll bytes = ⟨s.above, s.terminal.feedAll bytes⟩ ∧
      (s.terminal.feedAll bytes).mode = .ground

section Inline
variable {first second : List UInt8} {c : UInt8}

theorem Inline.nil : Inline [] := fun _ h => ⟨rfl, h⟩

theorem Inline.append (hFirst : Inline first) (hSecond : Inline second) :
    Inline (first ++ second) := by
  intro s hGround
  obtain ⟨hScreen, hMid⟩ := hFirst s hGround
  obtain ⟨hRest, hEnd⟩ := hSecond ⟨s.above, s.terminal.feedAll first⟩ hMid
  rw [feedAll_append, Terminal.feedAll_append, hScreen]
  exact ⟨hRest, hEnd⟩

theorem Inline.flatten {pieces : List (List UInt8)} (h : ∀ piece ∈ pieces, Inline piece) :
    Inline pieces.flatten := by
  induction pieces with
  | nil => exact .nil
  | cons piece pieces ih =>
      obtain ⟨hPiece, hPieces⟩ := List.forall_mem_cons.mp h
      exact hPiece.append (ih hPieces)

theorem Inline.char (hc : Printable c) : Inline [c] := by
  intro s hGround
  have hReturn : c ≠ 0x0d := by
    rintro rfl
    exact absurd hc.1 (by decide)
  have hFeed : c ≠ 0x0a := by
    rintro rfl
    exact absurd hc.1 (by decide)
  constructor
  · show s.feed c = _
    rw [feed, hGround]
    simp only [if_neg hReturn, if_neg hFeed]
    rfl
  · show (s.terminal.feed c).mode = _
    rw [Terminal.feed_char hGround hc]
    exact hGround

theorem Inline.chars {text : List UInt8} (hText : ∀ c ∈ text, Printable c) : Inline text := by
  induction text with
  | nil => exact .nil
  | cons c text ih =>
      obtain ⟨hc, hText⟩ := List.forall_mem_cons.mp hText
      exact (Inline.char hc).append (ih hText)

theorem Inline.back : Inline [0x08] := by
  intro s hGround
  constructor
  · show s.feed 0x08 = _
    rw [feed, hGround]
    rfl
  · show (s.terminal.feed 0x08).mode = _
    rw [Terminal.feed_back hGround]
    exact hGround

/-- A control sequence without a parameter. -/
theorem Inline.control (hc : 0x39 < c.toNat) : Inline [0x1b, 0x5b, c] := by
  intro s hGround
  constructor
  · obtain ⟨above, row, mode⟩ := s
    subst hGround
    rfl
  · rw [Terminal.feedAll_control hGround hc]

theorem Inline.insertBlank : Inline [0x1b, 0x5b, 0x31, 0x40] := by
  intro s hGround
  obtain ⟨above, row, mode⟩ := s
  subst hGround
  exact ⟨rfl, rfl⟩

end Inline

section Sequences
variable {s : Screen} {above : List (List UInt8)} {before after : List UInt8} {x : UInt8}

/-- Bytes that stay in the row act on the screen as on the terminal. -/
theorem Shows.inline {bytes before' after' : List UInt8} (h : s.Shows above before after)
    (hInline : Inline bytes) (hRow : (s.terminal.feedAll bytes).Shows before' after') :
    (s.feedAll bytes).Shows above before' after' := by
  rw [(hInline s h.row.ground).1]
  exact ⟨h.above, hRow⟩

theorem Shows.carriageReturn (h : s.Shows above before after) :
    (s.feedAll [0x0d]).Shows above [] (before ++ after) := by
  have hFeed : s.feedAll [0x0d] =
      { s with terminal := ⟨s.terminal.row.carriageReturn, .ground⟩ } := by
    show s.feed 0x0d = _
    rw [feed, h.row.ground]
    rfl
  rw [hFeed]
  exact ⟨h.above, h.row.row.carriageReturn, rfl⟩

theorem Shows.lineFeed (h : s.Shows above [] after) :
    (s.feedAll [0x0a]).Shows (above ++ [after]) [] (blanks after.length) := by
  have hFeed : s.feedAll [0x0a] =
      ⟨s.above ++ [s.terminal.row.cells], ⟨s.terminal.row.next, .ground⟩⟩ := by
    show s.feed 0x0a = _
    rw [feed, h.row.ground]
    rfl
  rw [hFeed]
  constructor
  · rw [h.above, h.row.row.cells]
    rfl
  · exact ⟨h.row.row.next, rfl⟩

/-- To the start of the next row. -/
theorem Shows.newLine (h : s.Shows above before after) :
    (s.feedAll [0x0d, 0x0a]).Shows (above ++ [before ++ after]) []
      (blanks (before ++ after).length) :=
  h.carriageReturn.lineFeed

theorem Shows.eraseLeft (h : s.Shows above before (x :: after)) :
    (s.feedAll [0x1b, 0x5b, 0x31, 0x4b]).Shows above (blanks before.length) (blank :: after) := by
  have hFeed : s.feedAll [0x1b, 0x5b, 0x31, 0x4b] =
      { s with terminal := ⟨s.terminal.row.eraseLeft, .ground⟩ } := by
    obtain ⟨rows, row, mode⟩ := s
    obtain rfl : mode = .ground := h.row.ground
    rfl
  rw [hFeed]
  exact ⟨h.above, h.row.row.eraseLeft, rfl⟩

/-- A text written over the cells from the cursor on, with a cell behind it. -/
theorem Shows.overwrite {text : List UInt8} (h : s.Shows above before after)
    (hText : ∀ c ∈ text, Printable c) (hRoom : text.length < after.length) :
    (s.feedAll text).Shows above (before ++ text) (after.drop text.length) := by
  apply h.inline (Inline.chars hText)
  have hRow := h.row
  rw [← List.take_append_drop text.length after] at hRow
  apply hRow.chars _ hText
  · rw [List.length_take]
    omega
  · intro hNone
    have hLength := congrArg List.length hNone
    rw [List.length_drop, List.length_nil] at hLength
    omega

end Sequences

end Screen

end VT100
