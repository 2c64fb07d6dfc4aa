import Mathlib.Data.List.Induction

/-! One row of a VT100 terminal and the bytes that act on it: printable
characters, backspace, and the control sequences that move the cursor, erase to
the right and insert blanks. The cursor stays in the row, and a character
written in the last column is not wrapped. -/
namespace VT100

/-- The cursor stands on one of the cells. -/
structure Row where
  cells : List UInt8
  column : Nat
  inRow : column < cells.length

def blank : UInt8 := 0x20

def blanks (count : Nat) : List UInt8 := List.replicate count blank

def Printable (c : UInt8) : Prop := 32 ≤ c.toNat ∧ c.toNat ≤ 126

instance (c : UInt8) : Decidable (Printable c) := inferInstanceAs (Decidable (_ ∧ _))

namespace Row

theorem min_last_lt (r : Row) (column : Nat) :
    min column (r.cells.length - 1) < r.cells.length := by
  have hRow := r.inRow
  omega

/-- Move the cursor, to the last column where the column is past the row. -/
def moveTo (r : Row) (column : Nat) : Row :=
  ⟨r.cells, min column (r.cells.length - 1), r.min_last_lt column⟩

def put (r : Row) (c : UInt8) : Row :=
  moveTo ⟨r.cells.set r.column c, r.column, by rw [List.length_set]; exact r.inRow⟩ (r.column + 1)

def cursorForward (r : Row) (count : Nat) : Row := r.moveTo (r.column + count)

def cursorBack (r : Row) (count : Nat) : Row := r.moveTo (r.column - count)

theorem erase_length (r : Row) :
    (r.cells.take r.column ++ blanks (r.cells.length - r.column)).length = r.cells.length := by
  have hRow := r.inRow
  rw [blanks, List.length_append, List.length_take, List.length_replicate]
  omega

/-- Blank the cells from the cursor to the end of the row. -/
def eraseRight (r : Row) : Row :=
  ⟨r.cells.take r.column ++ blanks (r.cells.length - r.column), r.column,
    Nat.lt_of_lt_of_eq r.inRow r.erase_length.symm⟩

theorem insert_length (r : Row) (count : Nat) :
    ((r.cells.take r.column ++ blanks count ++ r.cells.drop r.column).take
      r.cells.length).length = r.cells.length := by
  have hRow := r.inRow
  simp only [blanks, List.length_take, List.length_append, List.length_replicate, List.length_drop]
  omega

/-- Shift the cells from the cursor on to the right, out of the row at its end. -/
def insertBlanks (r : Row) (count : Nat) : Row :=
  ⟨(r.cells.take r.column ++ blanks count ++ r.cells.drop r.column).take r.cells.length, r.column,
    Nat.lt_of_lt_of_eq r.inRow (r.insert_length count).symm⟩

/-- The cells in front of the cursor and the cells from the cursor on. -/
structure Shows (r : Row) (before after : List UInt8) : Prop where
  cells : r.cells = before ++ after
  column : r.column = before.length

section Operations
variable {r : Row} {before after : List UInt8} {x : UInt8}

theorem Shows.put (h : r.Shows before (x :: after)) (hRoom : after ≠ []) (c : UInt8) :
    (r.put c).Shows (before ++ [c]) after := by
  obtain ⟨hCells, hColumn⟩ := h
  have hLast := List.length_pos_iff.mpr hRoom
  constructor
  · simp [Row.put, moveTo, hCells, hColumn]
  · simp [Row.put, moveTo, hCells, hColumn]
    omega

theorem Shows.back (h : r.Shows (before ++ [x]) after) :
    (r.cursorBack 1).Shows before (x :: after) := by
  obtain ⟨hCells, hColumn⟩ := h
  constructor
  · simp [cursorBack, moveTo, hCells]
  · simp [cursorBack, moveTo, hCells, hColumn]

theorem Shows.forward (h : r.Shows before (x :: after)) (hRoom : after ≠ []) :
    (r.cursorForward 1).Shows (before ++ [x]) after := by
  obtain ⟨hCells, hColumn⟩ := h
  have hLast := List.length_pos_iff.mpr hRoom
  constructor
  · simp [cursorForward, moveTo, hCells]
  · simp [cursorForward, moveTo, hCells, hColumn]
    omega

theorem Shows.eraseRight (h : r.Shows before after) :
    r.eraseRight.Shows before (blanks after.length) := by
  obtain ⟨hCells, hColumn⟩ := h
  constructor
  · simp [Row.eraseRight, hCells, hColumn]
  · simp [Row.eraseRight, hColumn]

/-- The last cell of the row is shifted out. -/
theorem Shows.insertBlank (h : r.Shows before (after ++ [x])) :
    (r.insertBlanks 1).Shows before (blank :: after) := by
  obtain ⟨hCells, hColumn⟩ := h
  constructor
  · have hLength : r.cells.length = (before ++ blank :: after).length := by simp [hCells]
    have hShifted : r.cells.take r.column ++ blanks 1 ++ r.cells.drop r.column =
        (before ++ blank :: after) ++ [x] := by
      simp [hCells, hColumn, blanks]
    simp only [insertBlanks]
    rw [hShifted, hLength, List.take_left]
  · exact hColumn

end Operations

end Row

/-- How much of a control sequence has been received: its numeric parameter is
absent until the first digit. -/
inductive Mode where
  | ground
  | escape
  | control (param : Option Nat)
deriving DecidableEq

structure Terminal where
  row : Row
  mode : Mode

namespace Terminal

/-- A parameter that is absent or zero counts as one. -/
def repeats (param : Option Nat) : Nat := max 1 (param.getD 0)

/-- The final byte of a control sequence. Sequences other than these four leave
the row as it is. -/
def control (r : Row) (param : Option Nat) (c : UInt8) : Row :=
  if c = 0x43 then r.cursorForward (repeats param)
  else if c = 0x44 then r.cursorBack (repeats param)
  else if c = 0x40 then r.insertBlanks (repeats param)
  else if c = 0x4b ∧ param.getD 0 = 0 then r.eraseRight
  else r

/-- The terminal receives one byte. -/
def feed (t : Terminal) (c : UInt8) : Terminal :=
  match t.mode with
  | .ground =>
      if c = 0x1b then { t with mode := .escape }
      else if c = 0x08 then { t with row := t.row.cursorBack 1 }
      else if Printable c then { t with row := t.row.put c }
      else t
  | .escape => { t with mode := if c = 0x5b then .control none else .ground }
  | .control param =>
      if 0x30 ≤ c.toNat ∧ c.toNat ≤ 0x39 then
        { t with mode := .control (some (param.getD 0 * 10 + (c.toNat - 0x30))) }
      else ⟨control t.row param c, .ground⟩

def feedAll (t : Terminal) (bytes : List UInt8) : Terminal := bytes.foldl feed t

theorem feedAll_append (t : Terminal) (first second : List UInt8) :
    t.feedAll (first ++ second) = (t.feedAll first).feedAll second :=
  List.foldl_append

/-- The terminal is between two control sequences, and its row is cut at the
cursor. -/
structure Shows (t : Terminal) (before after : List UInt8) : Prop where
  row : t.row.Shows before after
  ground : t.mode = .ground

section Sequences
variable {t : Terminal} {before after : List UInt8} {x : UInt8}

theorem feed_char (h : t.mode = .ground) {c : UInt8} (hc : Printable c) :
    t.feed c = { t with row := t.row.put c } := by
  have hEscape : c ≠ 0x1b := by
    rintro rfl
    exact absurd hc.1 (by decide)
  have hBack : c ≠ 0x08 := by
    rintro rfl
    exact absurd hc.1 (by decide)
  rw [feed, h]
  simp only [if_neg hEscape, if_neg hBack, if_pos hc]

theorem feed_back (h : t.mode = .ground) : t.feed 0x08 = { t with row := t.row.cursorBack 1 } := by
  rw [feed, h]
  rfl

/-- A control sequence without a parameter. -/
theorem feedAll_control (h : t.mode = .ground) {c : UInt8} (hc : 0x39 < c.toNat) :
    t.feedAll [0x1b, 0x5b, c] = ⟨control t.row none c, .ground⟩ := by
  have hFinal : (Terminal.mk t.row (.control none)).feed c = ⟨control t.row none c, .ground⟩ := by
    rw [feed]
    exact if_neg (by omega)
  obtain ⟨row, mode⟩ := t
  subst h
  exact hFinal

theorem Shows.char (h : t.Shows before (x :: after)) (hRoom : after ≠ []) {c : UInt8}
    (hc : Printable c) : (t.feedAll [c]).Shows (before ++ [c]) after := by
  change (t.feed c).Shows _ _
  rw [feed_char h.ground hc]
  exact ⟨h.row.put hRoom c, h.ground⟩

theorem Shows.back (h : t.Shows (before ++ [x]) after) :
    (t.feedAll [0x08]).Shows before (x :: after) := by
  change (t.feed 0x08).Shows _ _
  rw [feed_back h.ground]
  exact ⟨h.row.back, h.ground⟩

theorem Shows.cursorForward (h : t.Shows before (x :: after)) (hRoom : after ≠ []) :
    (t.feedAll [0x1b, 0x5b, 0x43]).Shows (before ++ [x]) after := by
  rw [feedAll_control h.ground (by decide)]
  exact ⟨h.row.forward hRoom, rfl⟩

theorem Shows.cursorBack (h : t.Shows (before ++ [x]) after) :
    (t.feedAll [0x1b, 0x5b, 0x44]).Shows before (x :: after) := by
  rw [feedAll_control h.ground (by decide)]
  exact ⟨h.row.back, rfl⟩

theorem Shows.eraseRight (h : t.Shows before after) :
    (t.feedAll [0x1b, 0x5b, 0x4b]).Shows before (blanks after.length) := by
  rw [feedAll_control h.ground (by decide)]
  exact ⟨h.row.eraseRight, rfl⟩

theorem Shows.insertBlank (h : t.Shows before (after ++ [x])) :
    (t.feedAll [0x1b, 0x5b, 0x31, 0x40]).Shows before (blank :: after) := by
  have hFeed : t.feedAll [0x1b, 0x5b, 0x31, 0x40] = ⟨t.row.insertBlanks 1, .ground⟩ := by
    obtain ⟨row, mode⟩ := t
    obtain rfl : mode = .ground := h.ground
    rfl
  rw [hFeed]
  exact ⟨h.row.insertBlank, rfl⟩

/-- A text written over as many cells, with a cell behind it for the cursor. -/
theorem Shows.chars {text old : List UInt8} (h : t.Shows before (old ++ after))
    (hRoom : after ≠ []) (hText : ∀ c ∈ text, Printable c) (hLength : old.length = text.length) :
    (t.feedAll text).Shows (before ++ text) after := by
  induction text generalizing t before old with
  | nil =>
      obtain rfl : old = [] := List.eq_nil_of_length_eq_zero hLength
      simpa [feedAll] using h
  | cons c text ih =>
      obtain ⟨hc, hText⟩ := List.forall_mem_cons.mp hText
      cases old with
      | nil => simp at hLength
      | cons x old =>
          have hNext : (t.feedAll [c]).Shows (before ++ [c]) (old ++ after) :=
            h.char (List.append_ne_nil_of_right_ne_nil old hRoom) hc
          rw [← List.singleton_append, feedAll_append, ← List.append_assoc]
          exact ih hNext hText (by simpa using hLength)

/-- As many steps back as there are characters in `mid`. -/
theorem Shows.back_over {mid : List UInt8} (h : t.Shows (before ++ mid) after) :
    (t.feedAll (List.replicate mid.length [0x1b, 0x5b, 0x44]).flatten).Shows before
      (mid ++ after) := by
  induction mid using List.reverseRecOn generalizing t after with
  | nil => simpa [feedAll] using h
  | append_singleton mid x ih =>
      rw [← List.append_assoc] at h
      rw [List.length_append, List.length_singleton, List.replicate_succ, List.flatten_cons,
        feedAll_append, List.append_assoc]
      exact ih h.cursorBack

end Sequences

/-- A row of the given width with a text at its start and the cursor behind it. -/
def showing (text : List UInt8) (width : Nat) (fits : text.length < width) : Terminal where
  row :=
    { cells := text ++ blanks (width - text.length)
      column := text.length
      inRow := by
        rw [blanks, List.length_append, List.length_replicate]
        omega }
  mode := .ground

theorem showing_shows (text : List UInt8) {width : Nat} (fits : text.length < width) :
    (showing text width fits).Shows text (blanks (width - text.length)) :=
  ⟨⟨rfl, rfl⟩, rfl⟩

end Terminal

end VT100
