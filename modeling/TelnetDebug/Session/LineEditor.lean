import TelnetDebug.Session.Step
import TelnetDebug.Library.LineZipper

/-! The session as a line editor. Single keys that type, move and erase act on
the line buffer and the cursor counter as on a line cut at the cursor. The
simulation rests on the cells behind the line being zero: insertion in mid-line
writes no terminator of its own. -/
namespace TelnetDebug

open CBuffer Guarded LineZipper

/-- The printable characters that are typed into the line. -/
structure Typable (c : UInt8) : Prop where
  low : 32 ≤ c.toNat
  high : c.toNat ≤ 126
  noHelp : c ≠ 0x3f

instance (c : UInt8) : Decidable (Typable c) :=
  decidable_of_iff (32 ≤ c.toNat ∧ c.toNat ≤ 126 ∧ c ≠ 0x3f)
    ⟨fun h => ⟨h.1, h.2.1, h.2.2⟩, fun h => ⟨h.low, h.high, h.noHelp⟩⟩

inductive EditKey where
  | char (c : UInt8) (typable : Typable c)
  | left
  | right
  | backspace (c : UInt8) (erases : c = 0x08 ∨ c = 0x7f)

def ReadResult.byte (c : UInt8) : ReadResult := .data [c] (by simp [maxCmdLen])

namespace EditKey

/-- The read that delivers the key. -/
def read : EditKey → ReadResult
  | char c _ => .byte c
  | left => .data [0x1b, 0x5b, 0x44] (by decide)
  | right => .data [0x1b, 0x5b, 0x43] (by decide)
  | backspace c _ => .byte c

def apply (z : Zipper UInt8) : EditKey → Zipper UInt8
  | char c _ => z.insert c
  | left => z.left
  | right => z.right
  | backspace _ _ => z.erase

end EditKey

theorem ReadResult.byte_eq (c : UInt8) (fits : [c].length ≤ maxCmdLen) :
    ReadResult.byte c = .data [c] fits := rfl

theorem ReadResult.byte_terminated (c : UInt8) : Terminated (ReadResult.byte c).cmdLine.cells :=
  terminated_fill (by simp [maxCmdLen] : [c].length < maxCmdLen)

/-- The line after a sequence of keys. -/
def edited (keys : List EditKey) : Zipper UInt8 := keys.foldl EditKey.apply .empty

/-- A character that can be typed is read as its code, whatever `char` is. -/
theorem Typable.value (sign : CharSign) {c : UInt8} (h : Typable c) : sign.value c = c.toNat :=
  sign.value_of_lt (Nat.lt_of_le_of_lt h.high (by decide : 126 < 128))

theorem Typable.plain {sign : CharSign} {c : UInt8} (h : Typable c) : Plain sign c := by
  have hValue := h.value sign
  have hLow := h.low
  have hHigh := h.high
  refine ⟨?_, by omega, by omega⟩
  intro hList
  simp only [List.mem_cons, List.not_mem_nil, or_false] at hList
  rcases hList with rfl | rfl | rfl | rfl | rfl | rfl | rfl | rfl | rfl
  all_goals first
    | exact absurd hLow (by decide)
    | exact absurd hHigh (by decide)
    | exact h.noHelp rfl

theorem Typable.isText (sign : CharSign) {c : UInt8} (h : Typable c) : IsText sign [c] := by
  refine .singleton h.plain ?_
  have hHigh := h.high
  rw [h.value sign, iac]
  omega

theorem Typable.ne_zero {c : UInt8} (h : Typable c) : c ≠ 0 := by
  rintro rfl
  exact absurd h.low (by decide)

theorem Typable.ne_return {c : UInt8} (h : Typable c) : c ≠ 13 := by
  rintro rfl
  exact absurd h.low (by decide)

theorem keyRead_left (sign : CharSign) : keyRead sign EditKey.left.read = .left := by
  cases sign <;> decide +kernel

theorem keyRead_right (sign : CharSign) : keyRead sign EditKey.right.read = .right := by
  cases sign <;> decide +kernel

theorem keyRead_backspace (sign : CharSign) {c : UInt8} (h : c = 0x08 ∨ c = 0x7f) :
    keyRead sign (.byte c) = .backspace := by
  rcases h with rfl | rfl <;> cases sign <;> decide +kernel

/-- The session shows the line: its characters, then zeros, and the cursor as
many columns from the end as there are characters behind it. -/
structure ShowsLine (s : Session) (z : Zipper UInt8) : Prop where
  cells : s.cmdBuf.cells = z.before ++ z.after ++ List.replicate (maxCmdLen - z.text.length) 0
  cursor : s.mgr.moveLeftNum.toNat = z.after.length
  noNul : 0 ∉ z.text
  fits : z.text.length < maxCmdLen

/-- Nothing but the line, the cursor and the echo differs. -/
structure OnlyLine (s t : Session) : Prop where
  mgr : t.mgr = (s.setCursor t.mgr.moveLeftNum).mgr
  executed : t.executed = s.executed
  closed : t.closed = s.closed

/-- One key turned a session that shows the first line into one that shows the
second; a key that does nothing to the line does nothing at all. -/
structure Edited (s t : Session) (z z' : Zipper UInt8) : Prop where
  shows : ShowsLine t z'
  only : OnlyLine s t
  idle : z' = z → t = s

section Steps
variable {sign : CharSign} {s : Session} {z : Zipper UInt8}

theorem ShowsLine.split (h : ShowsLine s z) :
    s.cmdBuf.cells =
      z.before ++ z.after ++ 0 :: List.replicate (maxCmdLen - z.text.length - 1) 0 := by
  have hFits := h.fits
  rw [h.cells, ← List.replicate_succ]
  congr 2
  omega

theorem ShowsLine.terminated (h : ShowsLine s z) : Terminated s.cmdBuf.cells := by
  rw [h.split]
  exact terminated_append_zero _ _

theorem ShowsLine.text (h : ShowsLine s z) : text s.cmdBuf.cells = z.text := by
  rw [h.split]
  exact text_append_zero h.noNul _

theorem ShowsLine.cursor_eq_zero (h : ShowsLine s z) :
    s.mgr.moveLeftNum = 0 ↔ z.after = [] := by
  rw [← UInt32.toNat_inj, h.cursor]
  simp

/-- A character typed at the end of the line is echoed as it is. -/
theorem char_end_eq (sign : CharSign) {c : UInt8} (hShows : ShowsLine s z)
    (hOpen : s.closed = false)
    (hTypable : Typable c) (hEnd : z.after = []) (hFits : (z.insert c).text.length < maxCmdLen) :
    ∃ buf, s.step sign (.byte c) = .ok { s.send [c] with cmdBuf := buf } ∧
      buf.cells = (z.insert c).before ++ (z.insert c).after ++
        List.replicate (maxCmdLen - (z.insert c).text.length) 0 := by
  obtain ⟨before, after⟩ := z
  subst hEnd
  have hText := hTypable.isText sign
  rw [Zipper.text_insert_length] at hFits
  have hLine : 0 ∉ before := by simpa [Zipper.text] using hShows.noNul
  have hLength : (Zipper.mk before []).text.length = before.length := by simp [Zipper.text]
  rw [hLength] at hFits
  have hCells :
      s.cmdBuf.cells = before ++ 0 :: List.replicate (maxCmdLen - before.length - 1) 0 := by
    simpa [hLength] using hShows.split
  obtain ⟨buf, hAppend, hResult⟩ := appendAll_spec hLine hText.noNul hCells
    (by rw [List.length_replicate, List.length_singleton]; omega)
  refine ⟨buf, ?_, ?_⟩
  · rw [ReadResult.byte_eq c (Nat.le_of_lt hText.short),
      hText.step _ hOpen (hShows.cursor_eq_zero.mpr rfl), hAppend, ok_bind]
  · rw [hResult, Zipper.text_insert_length, hLength]
    simp only [Zipper.insert, List.append_nil, List.length_singleton, List.drop_replicate,
      ← List.replicate_succ]
    congr 2
    omega

theorem char_end (sign : CharSign) {c : UInt8} (hShows : ShowsLine s z) (hOpen : s.closed = false)
    (hTypable : Typable c) (hEnd : z.after = []) (hFits : (z.insert c).text.length < maxCmdLen) :
    ∃ t, s.step sign (.byte c) = .ok t ∧ Edited s t z (z.insert c) := by
  obtain ⟨buf, hStep, hResult⟩ := char_end_eq sign hShows hOpen hTypable hEnd hFits
  refine ⟨_, hStep, ⟨hResult, hShows.cursor, ?_, hFits⟩, ⟨rfl, rfl, rfl⟩,
    fun h => absurd h (Zipper.insert_ne c _)⟩
  rw [Zipper.mem_text_insert, not_or]
  exact ⟨hTypable.ne_zero.symm, hShows.noNul⟩

/-- A character typed in front of others is echoed behind a blank inserted for it. -/
theorem char_mid_eq (sign : CharSign) {c : UInt8} (hShows : ShowsLine s z)
    (hOpen : s.closed = false)
    (hTypable : Typable c) (hMid : z.after ≠ []) :
    ∃ buf, s.step sign (.byte c) =
        .ok ({ s with cmdBuf := buf }.send (ascii "\x1b[1@" ++ [c])) ∧
      buf.cells = (z.insert c).before ++ (z.insert c).after ++
        List.replicate (maxCmdLen - (z.insert c).text.length) 0 := by
  have hText := hTypable.isText sign
  have hRead : lineRead sign (.byte c) = .fill [c] (by simp [maxCmdLen]) := hText.lineRead _
  have hNum : s.mgr.moveLeftNum > 0 :=
    UInt32.pos_iff_ne_zero.mpr (mt hShows.cursor_eq_zero.mp hMid)
  have hValue := hTypable.value sign
  have hPrintable : 32 ≤ sign.value c ∧ sign.value c ≤ 127 := by
    have hLow := hTypable.low
    have hHigh := hTypable.high
    omega
  have hLine : 0 < (text s.cmdBuf.cells).length := by
    rw [hShows.text, Zipper.text_length]
    have := List.length_pos_iff.mpr hMid
    omega
  obtain ⟨buf, hInsert, hResult⟩ := insertChar_spec c hShows.split hShows.cursor hMid
  refine ⟨buf, ?_, ?_⟩
  · rw [step_key hOpen (ReadResult.byte_terminated c) (hText.keyRead (Nat.le_of_lt hText.short)),
      hRead]
    change s.onOther sign (.fill [c] _) = _
    have hPeek : (Buffer.fill (n := maxCmdLen) [c] (by simp [maxCmdLen])).peek 0 = c := rfl
    unfold Session.onOther
    rw [midLine_eq hShows.terminated, ok_bind]
    simp only [hPeek, hNum, hLine, hPrintable, and_self, decide_true, if_true]
    rw [Buffer.strlen_eq hShows.terminated, reading_ok, ok_bind, hShows.text, Zipper.text_length,
      hInsert]
  · rw [hResult, Zipper.text_insert_length, ← Nat.sub_sub]
    simp [Zipper.insert]

theorem char_mid {c : UInt8} (hShows : ShowsLine s z) (hOpen : s.closed = false)
    (hTypable : Typable c) (hMid : z.after ≠ []) (hFits : (z.insert c).text.length < maxCmdLen) :
    ∃ t, s.step sign (.byte c) = .ok t ∧ Edited s t z (z.insert c) := by
  obtain ⟨buf, hStep, hResult⟩ := char_mid_eq sign hShows hOpen hTypable hMid
  refine ⟨_, hStep, ⟨hResult, hShows.cursor, ?_, hFits⟩, ⟨rfl, rfl, rfl⟩,
    fun h => absurd h (Zipper.insert_ne c z)⟩
  rw [Zipper.mem_text_insert, not_or]
  exact ⟨hTypable.ne_zero.symm, hShows.noNul⟩

theorem left_eq (hShows : ShowsLine s z) (hOpen : s.closed = false) :
    s.step sign EditKey.left.read =
      .ok (if z.before = [] then s else (s.send moveLeft).setCursor (s.mgr.moveLeftNum + 1)) := by
  have hGuard : s.mgr.moveLeftNum ≥ UInt32.ofNat z.text.length ↔ z.before = [] := by
    rw [ge_iff_le, UInt32.le_iff_toNat_le, toNat_ofNat_line (Nat.le_of_lt hShows.fits),
      hShows.cursor, Zipper.text_length, ← List.length_eq_zero_iff]
    omega
  rw [step_key hOpen (by decide +kernel) (keyRead_left sign)]
  change s.onLeft = _
  unfold Session.onLeft
  rw [Buffer.strlen_eq hShows.terminated, reading_ok, ok_bind, hShows.text]
  simp only [keyboardMoveLeft, hGuard]
  rfl

theorem left_step (hShows : ShowsLine s z) (hOpen : s.closed = false) :
    ∃ t, s.step sign EditKey.left.read = .ok t ∧ Edited s t z z.left := by
  have hMax := maxCmdLen_eq
  have hFits := hShows.fits
  refine ⟨_, left_eq hShows hOpen, ?_⟩
  obtain ⟨before, after⟩ := z
  rcases List.eq_nil_or_concat' before with rfl | ⟨before, c, rfl⟩
  · rw [if_pos rfl]
    exact ⟨hShows, ⟨rfl, rfl, rfl⟩, fun _ => rfl⟩
  · rw [if_neg (by simp), Zipper.left_step]
    refine ⟨⟨?_, ?_, ?_, ?_⟩, ⟨rfl, rfl, rfl⟩, fun h => by simp at h⟩
    · simpa [Zipper.text] using hShows.cells
    · change (s.mgr.moveLeftNum + 1).toNat = _
      have hLength := Zipper.text_length (Zipper.mk (before ++ [c]) after)
      have hCursor := hShows.cursor
      rw [UInt32.toNat_add, UInt32.toNat_one, List.length_cons]
      simp only at hLength hCursor
      omega
    · simpa [Zipper.text] using hShows.noNul
    · simpa [Zipper.text] using hFits

theorem right_eq (hShows : ShowsLine s z) (hOpen : s.closed = false) :
    s.step sign EditKey.right.read =
      .ok (if z.after = [] then s else (s.send moveRight).setCursor (s.mgr.moveLeftNum - 1)) := by
  rw [step_key hOpen (by decide +kernel) (keyRead_right sign)]
  change Except.ok (keyboardMoveRight s) = _
  unfold keyboardMoveRight
  by_cases hEnd : z.after = []
  · rw [if_pos hEnd, if_neg (by rw [hShows.cursor_eq_zero.mpr hEnd]; exact Nat.lt_irrefl 0)]
  · rw [if_neg hEnd, if_pos (UInt32.pos_iff_ne_zero.mpr (mt hShows.cursor_eq_zero.mp hEnd))]

theorem right_step (hShows : ShowsLine s z) (hOpen : s.closed = false) :
    ∃ t, s.step sign EditKey.right.read = .ok t ∧ Edited s t z z.right := by
  refine ⟨_, right_eq hShows hOpen, ?_⟩
  obtain ⟨before, after⟩ := z
  have hCursor := hShows.cursor
  cases after with
  | nil =>
      rw [if_pos rfl]
      exact ⟨hShows, ⟨rfl, rfl, rfl⟩, fun _ => rfl⟩
  | cons c rest =>
      have hNum : s.mgr.moveLeftNum ≠ 0 := fun h => by simpa using hShows.cursor_eq_zero.mp h
      rw [if_neg (List.cons_ne_nil c rest)]
      refine ⟨⟨?_, ?_, ?_, ?_⟩, ⟨rfl, rfl, rfl⟩, fun h => by simp [Zipper.right] at h⟩
      · simpa [Zipper.right, Zipper.text] using hShows.cells
      · change (s.mgr.moveLeftNum - 1).toNat = rest.length
        rw [toNat_pred hNum, hCursor]
        rfl
      · rw [Zipper.text_right]
        exact hShows.noNul
      · rw [Zipper.text_right]
        exact hShows.fits

theorem backspace_start {c : UInt8} (hShows : ShowsLine s z) (hOpen : s.closed = false)
    (hErases : c = 0x08 ∨ c = 0x7f) (hStart : z.before = []) :
    s.step sign (.byte c) = .ok s := by
  rw [step_key hOpen (ReadResult.byte_terminated c) (keyRead_backspace sign hErases)]
  refine onBackspace_start hShows.terminated ?_
  rw [hShows.text, hShows.cursor, Zipper.text_length, hStart]
  exact Nat.zero_add _

theorem backspace_eq (sign : CharSign) {c old : UInt8} {before after : List UInt8}
    (hShows : ShowsLine s ⟨before ++ [old], after⟩) (hOpen : s.closed = false)
    (hErases : c = 0x08 ∨ c = 0x7f) :
    ∃ buf, s.step sign (.byte c) =
        .ok ({ s with cmdBuf := buf }.send (backspaceEcho after)) ∧
      buf.cells = before ++ after ++
        List.replicate (maxCmdLen - (before.length + after.length)) 0 := by
  have hNul : 0 ∉ before ++ old :: after := by simpa [Zipper.text] using hShows.noNul
  have hFits := hShows.fits
  simp only [Zipper.text, List.length_append, List.length_singleton] at hFits
  obtain ⟨buf, hErase, hResult⟩ := onBackspace_spec (by simpa using hShows.split) hNul hShows.cursor
  refine ⟨buf, ?_, ?_⟩
  · rw [step_key hOpen (ReadResult.byte_terminated c) (keyRead_backspace sign hErases)]
    exact hErase
  · rw [hResult, ← List.replicate_succ, ← List.replicate_succ]
    simp only [Zipper.text, List.length_append, List.length_singleton]
    congr 2
    omega

theorem backspace_step {c : UInt8} (hShows : ShowsLine s z) (hOpen : s.closed = false)
    (hErases : c = 0x08 ∨ c = 0x7f) :
    ∃ t, s.step sign (.byte c) = .ok t ∧ Edited s t z z.erase := by
  obtain ⟨before, after⟩ := z
  rcases List.eq_nil_or_concat' before with rfl | ⟨before, old, rfl⟩
  · exact ⟨s, backspace_start hShows hOpen hErases rfl, hShows, ⟨rfl, rfl, rfl⟩, fun _ => rfl⟩
  · have hNul : 0 ∉ before ++ old :: after := by simpa [Zipper.text] using hShows.noNul
    have hFits := hShows.fits
    simp only [Zipper.text, List.length_append, List.length_singleton] at hFits
    obtain ⟨buf, hErase, hResult⟩ := backspace_eq sign hShows hOpen hErases
    rw [Zipper.erase_step]
    refine ⟨_, hErase, ⟨?_, hShows.cursor, ?_, ?_⟩, ⟨rfl, rfl, rfl⟩, fun h => by simp at h⟩
    · change buf.cells = _
      rw [hResult]
      simp only [Zipper.text, List.length_append]
    · simp only [Zipper.text, List.mem_append, List.mem_cons, not_or] at hNul ⊢
      exact ⟨hNul.1, hNul.2.2⟩
    · simp only [Zipper.text, List.length_append]
      omega

/-- Every key acts on the session as it acts on the line. -/
theorem edit_step (sign : CharSign) (hShows : ShowsLine s z) (hOpen : s.closed = false)
    (key : EditKey)
    (hFits : (EditKey.apply z key).text.length < maxCmdLen) :
    ∃ t, s.step sign key.read = .ok t ∧ Edited s t z (EditKey.apply z key) := by
  cases key with
  | char c hTypable =>
      by_cases hEnd : z.after = []
      · exact char_end sign hShows hOpen hTypable hEnd hFits
      · exact char_mid hShows hOpen hTypable hEnd hFits
  | left => exact left_step hShows hOpen
  | right => exact right_step hShows hOpen
  | backspace c hErases => exact backspace_step hShows hOpen hErases

end Steps

theorem showsLine_empty {s : Session} (hLine : s.cmdBuf = .const _ 0)
    (hCursor : s.mgr.moveLeftNum = 0) : ShowsLine s .empty := by
  refine ⟨by rw [hLine]; rfl, by rw [hCursor]; rfl, List.not_mem_nil, ?_⟩
  rw [Zipper.text_empty, List.length_nil, maxCmdLen_eq]
  exact Nat.succ_pos 255

/-- From an empty line every sequence of editing keys, each in a read of its
own, leaves the line it leaves on the pair of the characters before and behind
the cursor, as long as the line stays within 255 characters. A key that is
impossible there leaves the session as it is. -/
theorem line_editor_refines (sign : CharSign) {s : Session} (hOpen : s.closed = false)
    (hLine : s.cmdBuf = .const _ 0) (hCursor : s.mgr.moveLeftNum = 0) {keys : List EditKey}
    (hFits : ∀ taken, taken <+: keys → (edited taken).text.length ≤ 255) {taken : List EditKey}
    (hTaken : taken <+: keys) :
    ∃ t, shellThreadFunc sign s (taken.map EditKey.read) = .ok t ∧
      t.cmdBuf.cells = (edited taken).before ++ (edited taken).after ++
        List.replicate (maxCmdLen - (edited taken).text.length) 0 ∧
      t.mgr.moveLeftNum.toNat = (edited taken).after.length ∧
      ∀ key, EditKey.apply (edited taken) key = edited taken → t.step sign key.read = .ok t := by
  have hStep (s : Session) (z : Zipper UInt8) (key : EditKey)
      (hRel : ShowsLine s z ∧ s.closed = false)
      (hFits : (EditKey.apply z key).text.length ≤ 255) :
      ∃ t, s.step sign key.read = .ok t ∧
        ShowsLine t (EditKey.apply z key) ∧ t.closed = false := by
    obtain ⟨t, hStep, hEdited⟩ := edit_step sign hRel.1 hRel.2 key (Nat.lt_succ_of_le hFits)
    exact ⟨t, hStep, hEdited.shows, hEdited.only.closed.trans hRel.2⟩
  obtain ⟨t, hRun, hShows, hEnd⟩ := run_simulates hStep ⟨showsLine_empty hLine hCursor, hOpen⟩
    (fun before key hPrefix => by
      have h := hFits _ (hPrefix.trans hTaken)
      rwa [edited, List.foldl_concat] at h)
  refine ⟨t, by rw [shellThreadFunc, run_map]; exact hRun, hShows.cells, hShows.cursor, ?_⟩
  intro key hIdle
  obtain ⟨u, hNext, hEdited⟩ := edit_step sign hShows hEnd key
    (Nat.lt_of_le_of_lt (Nat.le_of_eq (congrArg (fun z => z.text.length) hIdle)) hShows.fits)
  rw [hNext, hEdited.idle hIdle]

theorem typable_a : Typable 0x61 := by decide

theorem typable_b : Typable 0x62 := by decide

/-- Two characters, one typed between them and erased again, and Right. -/
def editedKeys : List EditKey :=
  [.char 0x61 typable_a, .char 0x62 typable_b, .left, .char 0x78 (by decide),
    .backspace 0x7f (.inr rfl), .right]

theorem line_editor_refines_typed :
    ∃ t, shellThreadFunc .signed .init (editedKeys.map EditKey.read) = .ok t ∧
      t.cmdBuf.cells = ascii "ab" ++ [] ++ List.replicate (maxCmdLen - 2) 0 := by
  have hInits : ∀ taken ∈ editedKeys.inits, (edited taken).text.length ≤ 255 := by decide
  have hFits (taken : List EditKey) (h : taken <+: editedKeys) : (edited taken).text.length ≤ 255 :=
    hInits taken ((List.mem_inits taken editedKeys).mpr h)
  obtain ⟨t, hRun, hCells, -⟩ := line_editor_refines .signed (s := .init) rfl rfl rfl hFits
    List.prefix_rfl
  exact ⟨t, hRun, hCells⟩

end TelnetDebug
